import FeatureAtlas.Json.Value
import FeatureAtlas.Json.Quoting

/-!
Writing a value, either without any blanks or with one entry a line, indented by two spaces for
each container around it. Empty containers stay on one line.
-/

namespace FeatureAtlas

def Numeral.written (numeral : Numeral) : List Char :=
  (if numeral.negative then ['-'] else []) ++ Nat.toDigits 10 numeral.whole ++
    (if numeral.fraction.isEmpty then [] else '.' :: numeral.fraction.flatMap (Nat.toDigits 10)) ++
    match numeral.exponent with
    | none => []
    | some (.ofNat up) => 'e' :: Nat.toDigits 10 up
    | some (.negSucc down) => 'e' :: '-' :: Nat.toDigits 10 (down + 1)

namespace Json

/-- A value without parts. A string that spells no text is written as an empty one. -/
def writtenLeaf : Json → List Char
  | .null => "null".toList
  | .bool true => "true".toList
  | .bool false => "false".toList
  | .number value => value.written
  | .string text => Quoting.quote (text.getD "")
  | _ => []

mutual

def compactChars : Json → List Char
  | .array items => '[' :: compactItems items ++ [']']
  | .object members => '\x7b' :: compactMembers members ++ ['\x7d']
  | leaf => leaf.writtenLeaf

def compactItems : List Json → List Char
  | [] => []
  | item :: rest => item.compactChars ++ compactMoreItems rest

def compactMoreItems : List Json → List Char
  | [] => []
  | item :: rest => ',' :: item.compactChars ++ compactMoreItems rest

def compactMembers : List (Option String × Json) → List Char
  | [] => []
  | (name, value) :: rest =>
      Quoting.quote (name.getD "") ++ ':' :: value.compactChars ++ compactMoreMembers rest

def compactMoreMembers : List (Option String × Json) → List Char
  | [] => []
  | (name, value) :: rest =>
      ',' :: Quoting.quote (name.getD "") ++ ':' :: value.compactChars ++ compactMoreMembers rest

end

def compact (value : Json) : String :=
  String.ofList value.compactChars

def newline (depth : Nat) : List Char :=
  '\n' :: List.replicate (2 * depth) ' '

mutual

def prettyChars (depth : Nat) : Json → List Char
  | .array [] => ['[', ']']
  | .array (item :: rest) =>
      '[' :: newline (depth + 1) ++ item.prettyChars (depth + 1) ++
        prettyMoreItems (depth + 1) rest ++ newline depth ++ [']']
  | .object [] => ['\x7b', '\x7d']
  | .object ((name, value) :: rest) =>
      '\x7b' :: newline (depth + 1) ++ Quoting.quote (name.getD "") ++ ':' :: ' ' ::
        value.prettyChars (depth + 1) ++ prettyMoreMembers (depth + 1) rest ++
        newline depth ++ ['\x7d']
  | leaf => leaf.writtenLeaf

def prettyMoreItems (depth : Nat) : List Json → List Char
  | [] => []
  | item :: rest => ',' :: newline depth ++ item.prettyChars depth ++ prettyMoreItems depth rest

def prettyMoreMembers (depth : Nat) : List (Option String × Json) → List Char
  | [] => []
  | (name, value) :: rest =>
      ',' :: newline depth ++ Quoting.quote (name.getD "") ++ ':' :: ' ' ::
        value.prettyChars depth ++ prettyMoreMembers depth rest

end

def pretty (value : Json) : String :=
  String.ofList (value.prettyChars 0)

end Json

end FeatureAtlas
