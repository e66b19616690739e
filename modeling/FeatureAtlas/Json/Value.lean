import FeatureAtlas.Json.Numeral

/-!
JSON values as they stand in a text. Members keep their order and may repeat a name, and the place
where a text stops being JSON is a value of its own, so that whatever reads the value meets
problems in the order in which they were written.
-/

namespace FeatureAtlas

/-- A JSON value read from a text. A string or a member name is `none` when its escapes spell no
text, as a lone surrogate does. -/
inductive Json where
  | null
  | bool (value : Bool)
  | number (value : Numeral)
  | string (text : Option String)
  | array (items : List Json)
  | object (members : List (Option String × Json))
  | unreadable
deriving Inhabited

namespace Json

def text (value : String) : Json := .string (some value)

def natural (value : Nat) : Json := .number (.ofNat value)

def record (members : List (String × Json)) : Json :=
  .object (members.map fun (name, value) => (some name, value))

mutual

/-- A value is readable when its text goes on to its end. A string that spells no text is still
readable: it can be skipped. -/
def readable : Json → Bool
  | .array items => readableItems items
  | .object members => readableMembers members
  | .unreadable => false
  | _ => true

def readableItems : List Json → Bool
  | [] => true
  | item :: rest => item.readable && readableItems rest

def readableMembers : List (Option String × Json) → Bool
  | [] => true
  | (_, value) :: rest => value.readable && readableMembers rest

end

mutual

/-- A value that can be held for later: readable, all its strings spell text, its numbers are in the
range of doubles, and at most `levels` arrays and objects are nested in it. -/
def holdable (levels : Nat) : Json → Bool
  | .number value => value.fitsDouble
  | .string text => text.isSome
  | .array items => levels != 0 && holdableItems (levels - 1) items
  | .object members => levels != 0 && holdableMembers (levels - 1) members
  | .unreadable => false
  | _ => true

def holdableItems (levels : Nat) : List Json → Bool
  | [] => true
  | item :: rest => item.holdable levels && holdableItems levels rest

def holdableMembers (levels : Nat) : List (Option String × Json) → Bool
  | [] => true
  | (name, value) :: rest => name.isSome && value.holdable levels && holdableMembers levels rest

end

end Json

end FeatureAtlas
