import FeatureAtlas.Json.Value
import FeatureAtlas.Json.Quoting

/-!
The tokens of a JSON text. The first place that starts no token becomes the token `unreadable`, and
nothing after it is looked at.
-/

namespace FeatureAtlas

inductive Token where
  | openArray
  | closeArray
  | openObject
  | closeObject
  | colon
  | comma
  | null
  | bool (value : Bool)
  | number (value : Numeral)
  | text (spelled : Option String)
  | unreadable
deriving DecidableEq, Repr

namespace Token

/-- Space, line feed, tab and carriage return separate tokens, and no other character does. -/
def isSeparator (character : Char) : Bool :=
  character == ' ' || character == '\n' || character == '\t' || character == '\r'

def digits (characters : List Char) : List Char :=
  characters.takeWhile Char.isDigit

def afterDigits (characters : List Char) : List Char :=
  characters.dropWhile Char.isDigit

def digitValue (digit : Char) : Nat :=
  digit.toNat - '0'.toNat

def decimalValue (digits : List Char) : Nat :=
  Nat.ofDigitChars 10 digits 0

def whole? (characters : List Char) : Option (Nat × List Char) :=
  let run := digits characters
  if run.isEmpty || (run.head? == some '0' && run.length != 1) then none
  else some (decimalValue run, afterDigits characters)

def fraction? : List Char → Option (List Nat × List Char)
  | '.' :: rest =>
      let run := digits rest
      if run.isEmpty then none else some (run.map digitValue, afterDigits rest)
  | characters => some ([], characters)

def exponentDigits? (negative : Bool) (characters : List Char) : Option (Option Int × List Char) :=
  let run := digits characters
  if run.isEmpty then none
  else
    let magnitude : Int := decimalValue run
    some (some (if negative then -magnitude else magnitude), afterDigits characters)

def exponent? : List Char → Option (Option Int × List Char)
  | 'e' :: '+' :: rest | 'E' :: '+' :: rest => exponentDigits? false rest
  | 'e' :: '-' :: rest | 'E' :: '-' :: rest => exponentDigits? true rest
  | 'e' :: rest | 'E' :: rest => exponentDigits? false rest
  | characters => some (none, characters)

def numeral? (negative : Bool) (characters : List Char) : Option (Numeral × List Char) := do
  let (whole, characters) ← whole? characters
  let (fraction, characters) ← fraction? characters
  let (exponent, characters) ← exponent? characters
  return ({ negative, whole, fraction, exponent }, characters)

def scan? (first : Char) (rest : List Char) : Option (Token × List Char) :=
  match first, rest with
  | '[', _ => some (.openArray, rest)
  | ']', _ => some (.closeArray, rest)
  | '\x7b', _ => some (.openObject, rest)
  | '\x7d', _ => some (.closeObject, rest)
  | ':', _ => some (.colon, rest)
  | ',', _ => some (.comma, rest)
  | 'n', 'u' :: 'l' :: 'l' :: rest => some (.null, rest)
  | 't', 'r' :: 'u' :: 'e' :: rest => some (.bool true, rest)
  | 'f', 'a' :: 'l' :: 's' :: 'e' :: rest => some (.bool false, rest)
  | '"', _ => (Quoting.pieces? rest).map fun (pieces, rest) =>
      (.text ((Quoting.spelled? pieces).map String.ofList), rest)
  | '-', _ => (numeral? true rest).map fun (numeral, rest) => (.number numeral, rest)
  | _, _ => (numeral? false (first :: rest)).map fun (numeral, rest) => (.number numeral, rest)

theorem afterDigits_suffix (characters : List Char) : afterDigits characters <:+ characters :=
  List.dropWhile_suffix _

theorem length_whole? {characters rest : List Char} {value : Nat}
    (found : whole? characters = some (value, rest)) : rest.length < characters.length := by
  simp only [whole?] at found
  split at found
  · simp at found
  · rename_i startsWell
    simp only [Option.some.injEq, Prod.mk.injEq] at found
    have split := congrArg List.length
      (List.takeWhile_append_dropWhile (p := Char.isDigit) (l := characters))
    have digitsTaken : digits characters ≠ [] := by
      intro none
      simp [none] at startsWell
    have taken := List.length_pos_iff.mpr digitsTaken
    simp only [List.length_append] at split
    simp only [digits] at taken
    rw [← found.2, afterDigits]
    omega

theorem suffix_fraction? {characters rest : List Char} {value : List Nat}
    (found : fraction? characters = some (value, rest)) : rest <:+ characters := by
  unfold fraction? at found
  split at found
  · dsimp only at found
    split at found
    · simp at found
    · simp only [Option.some.injEq, Prod.mk.injEq] at found
      exact found.2 ▸ (afterDigits_suffix _).trans (List.suffix_cons _ _)
  · simp only [Option.some.injEq, Prod.mk.injEq] at found
    exact found.2 ▸ List.suffix_refl _

theorem suffix_exponentDigits? {negative : Bool} {characters rest : List Char} {value : Option Int}
    (found : exponentDigits? negative characters = some (value, rest)) : rest <:+ characters := by
  simp only [exponentDigits?] at found
  split at found
  · simp at found
  · simp only [Option.some.injEq, Prod.mk.injEq] at found
    exact found.2 ▸ afterDigits_suffix _

theorem suffix_exponent? {characters rest : List Char} {value : Option Int}
    (found : exponent? characters = some (value, rest)) : rest <:+ characters := by
  unfold exponent? at found
  split at found
  · exact (suffix_exponentDigits? found).trans
      ((List.suffix_cons _ _).trans (List.suffix_cons _ _))
  · exact (suffix_exponentDigits? found).trans
      ((List.suffix_cons _ _).trans (List.suffix_cons _ _))
  · exact (suffix_exponentDigits? found).trans
      ((List.suffix_cons _ _).trans (List.suffix_cons _ _))
  · exact (suffix_exponentDigits? found).trans
      ((List.suffix_cons _ _).trans (List.suffix_cons _ _))
  · exact (suffix_exponentDigits? found).trans (List.suffix_cons _ _)
  · exact (suffix_exponentDigits? found).trans (List.suffix_cons _ _)
  · simp only [Option.some.injEq, Prod.mk.injEq] at found
    exact found.2 ▸ List.suffix_refl _

theorem length_numeral? {negative : Bool} {characters rest : List Char} {numeral : Numeral}
    (found : numeral? negative characters = some (numeral, rest)) :
    rest.length < characters.length := by
  simp only [numeral?, Option.bind_eq_bind, Option.bind_eq_some_iff, Option.pure_def,
    Option.some.injEq, Prod.mk.injEq, Prod.exists] at found
  obtain ⟨whole, afterWhole, wholeRead, fraction, afterFraction, fractionRead, exponent,
    afterExponent, exponentRead, _, same⟩ := found
  have wholeShorter := length_whole? wholeRead
  have fractionShorter := (suffix_fraction? fractionRead).length_le
  have exponentShorter := (suffix_exponent? exponentRead).length_le
  subst same
  omega

theorem length_scan? {first : Char} {rest tail : List Char} {token : Token}
    (found : scan? first rest = some (token, tail)) : tail.length ≤ rest.length := by
  unfold scan? at found
  split at found
  all_goals try simp only [Option.some.injEq, Prod.mk.injEq, Option.map_eq_some_iff,
    Prod.exists] at found
  case h_10 =>
    obtain ⟨pieces, after, read, _, same⟩ := found
    have shorter := Quoting.length_rest_of_pieces? read
    subst same
    omega
  case h_11 =>
    obtain ⟨numeral, after, read, _, same⟩ := found
    have shorter := length_numeral? read
    subst same
    omega
  case h_12 =>
    obtain ⟨numeral, after, read, _, same⟩ := found
    have shorter := length_numeral? read
    subst same
    simp only [List.length_cons] at shorter
    omega
  all_goals
    have same := congrArg List.length found.2
    simp +arith only [List.length_cons, ← same]

end Token

def tokens : List Char → List Token
  | [] => []
  | first :: rest =>
      if Token.isSeparator first then tokens rest
      else
        match _scanned : Token.scan? first rest with
        | none => [.unreadable]
        | some (token, tail) => token :: tokens tail
termination_by characters => characters.length
decreasing_by
  · simp
  · have shorter := Token.length_scan? _scanned
    simp only [List.length_cons]
    omega

end FeatureAtlas
