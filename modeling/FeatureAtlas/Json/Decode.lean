import FeatureAtlas.Json.Reader

/-!
Decoding values into records. A decoder goes through a value in the order of its text and answers
with the first problem it meets; text after the value is the last problem of all. Every array and
object that a decoder enters takes one of the levels of nesting that it is given. A decoder also
knows how much of a value had been read before it was called.
-/

namespace FeatureAtlas

inductive DecodeError where
  | missingField (name : String)
  | duplicateField (name : String)
  | unknownVariant (found : String) (expected : List String)
  | malformed
deriving DecidableEq, Repr

namespace DecodeError

def quoted (name : String) : String := "`" ++ name ++ "`"

def choices : List String → String
  | [only] => "expected " ++ quoted only
  | [first, second] => "expected " ++ quoted first ++ " or " ++ quoted second
  | many => "expected one of " ++ ", ".intercalate (many.map quoted)

def message? : DecodeError → Option String
  | .missingField name => some ("missing field " ++ quoted name)
  | .duplicateField name => some ("duplicate field " ++ quoted name)
  | .unknownVariant found expected =>
      some ("unknown variant " ++ quoted found ++ ", " ++ choices expected)
  | .malformed => none

end DecodeError

/-- How a value comes to its decoder: while its text is being read, read as a whole, or held for a
while because something that stands behind it had to be known first. -/
inductive ValueSource where
  | text
  | whole
  | held
deriving DecidableEq, Repr

/-- Decodes a value in which so many levels of arrays and objects may still be nested. -/
abbrev Decoder (α : Type) := ValueSource → Nat → Json → Except DecodeError α

def nestingLimit : Nat := 127

def decodeText {α : Type} (decoder : Decoder α) (text : String) : Except DecodeError α := do
  let reading := Json.read text
  let value ← decoder .text nestingLimit reading.value
  if reading.trailing then .error .malformed else return value

namespace Decoder

variable {α β : Type}

def text : Decoder String
  | _, _, .string (some value) => .ok value
  | _, _, _ => .error .malformed

def flag : Decoder Bool
  | _, _, .bool value => .ok value
  | _, _, _ => .error .malformed

def natural (bound : Nat) : Decoder Nat
  | _, _, .number numeral =>
      match numeral.natural? with
      | some value => if value < bound then .ok value else .error .malformed
      | none => .error .malformed
  | _, _, _ => .error .malformed

def wide : Decoder Nat := natural 0x10000000000000000

def narrow : Decoder UInt32
  | source, levels, value => (natural UInt32.size source levels value).map UInt32.ofNat

def optional (decoder : Decoder α) : Decoder (Option α)
  | _, _, .null => .ok none
  | source, levels, value => (decoder source levels value).map some

def list (decoder : Decoder α) : Decoder (List α)
  | source, levels + 1, .array items => items.mapM (decoder source levels)
  | _, _, _ => .error .malformed

def caseNamed (cases : List (String × α)) (name : String) : Except DecodeError α :=
  match cases.lookup name with
  | some value => .ok value
  | none => .error (.unknownVariant name (cases.map Prod.fst))

/-- Whether a value can stand beside the name of a case. In a value that was held an empty object
does for `null`. -/
def isNothing (source : ValueSource) : Json → Bool
  | .null => true
  | .object [] => source == .held
  | _ => false

/-- Whether the name of a case is looked at, in an object with so many members behind the first. It
is while a text is being read, and otherwise once the object is known to have no further member. A
value that was held has been measured already. -/
def opensCase (source : ValueSource) (levels : Nat) (more : List (Option String × Json)) : Bool :=
  match source with
  | .text => levels != 0
  | .whole => levels != 0 && more.isEmpty
  | .held => more.isEmpty

def variant (cases : List (String × α)) : Decoder α
  | _, _, .string (some name) => caseNamed cases name
  | source, levels, .object ((some name, value) :: more) =>
      if opensCase source levels more then do
        let found ← caseNamed cases name
        if more.isEmpty && isNothing source value then return found else .error .malformed
      else .error .malformed
  | _, _, _ => .error .malformed

end Decoder

structure Field (α : Type) where
  name : String
  required : Bool
  store : ValueSource → Nat → Json → α → Except DecodeError α

structure RecordFormat (α : Type) where
  blank : α
  fields : List (Field α)

namespace Field

variable {α β : Type}

def requiredField (name : String) (decoder : Decoder β) (set : β → α → α) : Field α :=
  { name, required := true, store := fun source levels value record =>
      (decoder source levels value).map fun read => set read record }

def optionalField (name : String) (decoder : Decoder β) (set : β → α → α) : Field α :=
  { name, required := false, store := fun source levels value record =>
      (decoder source levels value).map fun read => set read record }

end Field

namespace RecordFormat

variable {α : Type}

/-- Stores the members of an object in their order. A field may be given once; other members are
skipped, as often as they come. -/
def storeMembers (fields : List (Field α)) (source : ValueSource) (levels : Nat) :
    List (Option String × Json) → List String → α → Except DecodeError (List String × α)
  | [], given, record => .ok (given, record)
  | (none, _) :: _, _, _ => .error .malformed
  | (some name, value) :: rest, given, record =>
      match fields.find? fun field => field.name == name with
      | none => if value.readable then storeMembers fields source levels rest given record
          else .error .malformed
      | some field =>
          if given.contains name then .error (.duplicateField name)
          else do
            let record ← field.store source levels value record
            storeMembers fields source levels rest (name :: given) record

/-- Stores the entries of an array as the fields in their order. Fields that need not be there may
be left out at the end. -/
def storeItems (source : ValueSource) (levels : Nat) :
    List (Field α) → List Json → α → Except DecodeError α
  | [], [], record => .ok record
  | [], _ :: _, _ => .error .malformed
  | field :: fields, [], record =>
      if field.required then .error .malformed else storeItems source levels fields [] record
  | field :: fields, item :: items, record => do
      storeItems source levels fields items (← field.store source levels item record)

/-- A record from the members of its object form. Missing fields are found once all members have
been stored, in the order of the fields. -/
def ofMembers (format : RecordFormat α) (source : ValueSource) (levels : Nat)
    (members : List (Option String × Json)) : Except DecodeError α := do
  let (given, record) ← storeMembers format.fields source levels members [] format.blank
  match format.fields.find? fun field => field.required && !given.contains field.name with
  | some field => .error (.missingField field.name)
  | none => return record

def decoder (format : RecordFormat α) : Decoder α
  | source, levels + 1, .object members => format.ofMembers source levels members
  | source, levels + 1, .array items => storeItems source levels format.fields items format.blank
  | _, _, _ => .error .malformed

end RecordFormat

end FeatureAtlas
