import FeatureAtlas.Json.Token
import FeatureAtlas.Number.Double

/-!
Cells of stored tables. A column has an affinity, which a cell takes on where it can when it is
stored: digits become a number in a number column, and a number becomes digits in a text column.
Whole numbers of 64 bits are kept exactly and all others in double precision.
-/

namespace FeatureAtlas

inductive DatabaseError where
  | noSuchTable
  | noSuchColumn
  | columnExists
  | missingValue
  | duplicateKey
  | danglingReference
  | wrongType
  | unknownNode (name : String)
  | interrupted
deriving DecidableEq, Repr

inductive Cell where
  | null
  | integer (value : Int)
  | real (value : Double)
  | text (value : String)
deriving DecidableEq, Repr, Inhabited

inductive Affinity where
  | text
  | number
deriving DecidableEq, Repr

def isNumberPadding (character : Char) : Bool :=
  character == ' ' || ('\t' ≤ character && character ≤ '\r')

def trimPadding (characters : List Char) : List Char :=
  ((characters.dropWhile isNumberPadding).reverse.dropWhile isNumberPadding).reverse

def splitSign : List Char → Bool × List Char
  | '-' :: rest => (true, rest)
  | '+' :: rest => (false, rest)
  | characters => (false, characters)

def applySign (negative : Bool) (magnitude : Nat) : Int :=
  if negative then -(magnitude : Int) else magnitude

def trailingExponent? : List Char → Option (Option Int)
  | [] => some none
  | 'e' :: rest | 'E' :: rest =>
      let (negative, rest) := splitSign rest
      let run := Token.digits rest
      if run.isEmpty || run.length != rest.length then none
      else some (some (applySign negative (Token.decimalValue run)))
  | _ => none

structure WrittenNumber where
  negative : Bool
  whole : List Char
  fraction : Option (List Char)
  exponent : Option Int
deriving DecidableEq, Repr

namespace WrittenNumber

def ofText? (text : String) : Option WrittenNumber := do
  let (negative, characters) := splitSign (trimPadding text.toList)
  let whole := Token.digits characters
  let (fraction, rest) := match Token.afterDigits characters with
    | '.' :: rest => (some (Token.digits rest), Token.afterDigits rest)
    | rest => (none, rest)
  guard !(whole.isEmpty && (fraction.getD []).isEmpty)
  return { negative, whole, fraction, exponent := ← trailingExponent? rest }

def integer? (number : WrittenNumber) : Option Int :=
  match number with
  | { negative, whole, fraction := none, exponent := none } =>
      some (applySign negative (Token.decimalValue whole))
  | _ => none

def significandLimit : Nat := (0x10000000000000000 - 10) / 10

def takeDigits (significand taken : Nat) : List Char → Nat × Nat
  | [] => (significand, taken)
  | digit :: rest =>
      if significand < significandLimit then
        takeDigits (significand * 10 + Token.digitValue digit) (taken + 1) rest
      else (significand, taken)

/-- The double nearest to the number with the digits that are taken up. Digits before the point that
are not still count for its size. -/
def double (number : WrittenNumber) : Double :=
  let (start, kept) := takeDigits 0 0 number.whole
  let (significand, added) := takeDigits start 0 (number.fraction.getD [])
  let exponent : Int := (number.whole.length - kept : Nat) - added + number.exponent.getD 0
  .ofScaled (applySign number.negative significand) exponent

end WrittenNumber

namespace Cell

def wordBound : Int := 0x8000000000000000

def isWord (value : Int) : Bool := -wordBound ≤ value && value < wordBound

/-- A double that is a whole number well within 64 bits is stored as an integer. -/
def ofDouble (value : Double) : Cell :=
  match value.integer? with
  | some whole =>
      if -wordBound < whole ∧ whole < wordBound - 1 then .integer whole else .real value
  | none => .real value

def ofInteger (value : Int) : Cell :=
  if isWord value then .integer value else .real (.ofRat value)

def ofWritten (number : WrittenNumber) : Cell :=
  match number.integer? with
  | some value => if isWord value then .integer value else ofDouble number.double
  | none => ofDouble number.double

def natural (value : Nat) : Cell := .integer value

def optionalText : Option String → Cell
  | some value => .text value
  | none => .null

def number? : Cell → Option Double
  | integer value => some (.finite value)
  | real value => some value
  | _ => none

def same (first second : Cell) : Bool :=
  first == second || (first.number?.isSome && first.number? == second.number?)

def le : Cell → Cell → Bool
  | null, _ => true
  | _, null => false
  | text first, text second => first ≤ second
  | text _, _ => false
  | _, text _ => true
  | integer first, integer second => first ≤ second
  | integer first, real second => (Double.finite first).le second
  | real first, integer second => first.le (.finite second)
  | real first, real second => first.le second

def readText : Cell → Except DatabaseError String
  | text value => .ok value
  | _ => .error .wrongType

def readOptionalText : Cell → Except DatabaseError (Option String)
  | null => .ok none
  | cell => cell.readText.map some

/-- Counts and positions are stored with a sign and read without one: below zero, the missing part
of twice the bound is read. -/
def readNatural : Cell → Except DatabaseError Nat
  | integer value => .ok (if value < 0 then 2 * wordBound + value else value).toNat
  | _ => .error .wrongType

end Cell

def Affinity.adapt : Affinity → Cell → Cell
  | .text, .integer value => .text (toString value)
  | .text, .real value => .text value.text
  | .number, .real value => .ofDouble value
  | .number, .text value => ((WrittenNumber.ofText? value).map Cell.ofWritten).getD (.text value)
  | _, cell => cell

end FeatureAtlas
