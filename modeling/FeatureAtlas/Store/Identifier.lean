import FeatureAtlas.Json.Quoting

/-!
The spellings of snapshot identifiers: 32 hexadecimal digits, bare or in five groups, and the
grouped ones also in braces or as a URN. Identifiers are stored in groups and in lower case.
-/

namespace FeatureAtlas

namespace Identifier

def groups : List Nat := [8, 4, 4, 4, 12]

def hyphenate : List Nat → List Char → List Char
  | [], digits => digits
  | [_], digits => digits
  | length :: rest, digits => digits.take length ++ '-' :: hyphenate rest (digits.drop length)

def ungroup? : List Nat → List Char → Option (List Char)
  | [], characters => if characters.isEmpty then some [] else none
  | [length], characters => if characters.length = length then some characters else none
  | length :: rest, characters =>
      match characters.drop length with
      | '-' :: more => (ungroup? rest more).map (characters.take length ++ ·)
      | _ => none

def lowerDigits? (digits : List Char) : Option (List Char) :=
  digits.mapM fun digit => (Quoting.hexValue? digit).map Quoting.hexDigit

def ofDigits? (digits : List Char) : Option String := do
  guard (digits.length = groups.foldl (· + ·) 0)
  return String.ofList (hyphenate groups (← lowerDigits? digits))

def scheme : List Char := "urn:uuid:".toList

def unwrap : List Char → List Char
  | '\x7b' :: rest => if rest.getLast? = some '\x7d' then rest.dropLast else '\x7b' :: rest
  | characters =>
      if (characters.take scheme.length).map Char.toLower = scheme then
        characters.drop scheme.length
      else characters

/-- The identifier that a text spells, as it is stored. -/
def ofText? (text : String) : Option String :=
  let characters := text.toList
  if characters.length = groups.foldl (· + ·) 0 then ofDigits? characters
  else (ungroup? groups (unwrap characters)).bind ofDigits?

end Identifier

end FeatureAtlas
