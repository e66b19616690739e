import FeatureAtlas.Json.Token

/-!
Reading a value from tokens with an explicit stack of the arrays and objects that are still open.
Every text has a reading: where the tokens leave the grammar, the value read so far is closed
around an `unreadable` leaf.
-/

namespace FeatureAtlas

/-- A container that is still open, its contents so far with the latest first. An object also keeps
the name whose value is being read, and no name between two members. -/
inductive Frame where
  | array (items : List Json)
  | object (members : List (Option String × Json)) (name : Option String)

inductive Phase where
  | value
  | firstItem
  | firstName
  | nextName
  | colon
  | separator
  | finished (value : Json) (trailing : Bool)

/-- A text read up to some token: the open containers, innermost first, and what may come next. -/
structure Reader where
  frames : List Frame
  phase : Phase

structure Reading where
  value : Json
  trailing : Bool

namespace Reader

def start : Reader := { frames := [], phase := .value }

def deliver (frames : List Frame) (value : Json) : Reader :=
  match frames with
  | [] => { frames := [], phase := .finished value false }
  | .array items :: outer => { frames := .array (value :: items) :: outer, phase := .separator }
  | .object members name :: outer =>
      { frames := .object ((name, value) :: members) none :: outer, phase := .separator }

def closeAll : List Frame → Json → Json
  | [], value => value
  | .array items :: outer, value => closeAll outer (.array (value :: items).reverse)
  | .object members name :: outer, value =>
      closeAll outer (.object ((name, value) :: members).reverse)

def breakOff (frames : List Frame) : Reader :=
  { frames := [], phase := .finished (closeAll frames .unreadable) true }

def startValue (frames : List Frame) : Token → Reader
  | .null => deliver frames .null
  | .bool value => deliver frames (.bool value)
  | .number value => deliver frames (.number value)
  | .text spelled => deliver frames (.string spelled)
  | .openArray => { frames := .array [] :: frames, phase := .firstItem }
  | .openObject => { frames := .object [] none :: frames, phase := .firstName }
  | _ => breakOff frames

def startName (frames : List Frame) (token : Token) : Reader :=
  match frames, token with
  | .object members _ :: outer, .text spelled =>
      { frames := .object members spelled :: outer, phase := .colon }
  | _, _ => breakOff frames

def afterEntry (frames : List Frame) (token : Token) : Reader :=
  match frames, token with
  | .array items :: outer, .comma => { frames := .array items :: outer, phase := .value }
  | .array items :: outer, .closeArray => deliver outer (.array items.reverse)
  | .object members name :: outer, .comma =>
      { frames := .object members name :: outer, phase := .nextName }
  | .object members _ :: outer, .closeObject => deliver outer (.object members.reverse)
  | _, _ => breakOff frames

def step (reader : Reader) (token : Token) : Reader :=
  match reader.phase, token with
  | .finished value _, _ => { reader with phase := .finished value true }
  | .firstItem, .closeArray | .firstName, .closeObject => afterEntry reader.frames token
  | .value, _ | .firstItem, _ => startValue reader.frames token
  | .firstName, _ | .nextName, _ => startName reader.frames token
  | .colon, .colon => { reader with phase := .value }
  | .colon, _ => breakOff reader.frames
  | .separator, _ => afterEntry reader.frames token

def finish (reader : Reader) : Reading :=
  match reader.phase with
  | .finished value trailing => { value, trailing }
  | _ => { value := closeAll reader.frames .unreadable, trailing := true }

end Reader

def Json.read (text : String) : Reading :=
  ((tokens text.toList).foldl Reader.step Reader.start).finish

end FeatureAtlas
