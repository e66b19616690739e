/-!
Numbers in double precision. A number is rounded to the nearest one that has 53 significant bits and
is a multiple of `2 ^ -1074`, ties going to the even neighbour; beyond the largest such number below
`2 ^ 1024` stands infinity. A double is written with fifteen significant digits.
-/

namespace FeatureAtlas

def nearestInteger (value : Rat) : Int :=
  let below := value.floor
  let rest := value - below
  if 1 / 2 < rest ∨ (rest = 1 / 2 ∧ below % 2 = 1) then below + 1 else below

def floorLog (base : Nat) (value : Rat) : Int :=
  let length (number : Nat) : Int := (Nat.toDigits base number).length
  let guess := length value.num.natAbs - length value.den
  if (base : Rat) ^ guess ≤ value then guess else guess - 1

def roundMagnitude (value : Rat) : Rat :=
  if value = 0 then 0
  else
    let unit : Rat := 2 ^ max (-1074) (floorLog 2 value - 52)
    nearestInteger (value / unit) * unit

def magnitudeLimit : Rat := Rat.ofInt (Int.pow 2 1024)

inductive Double where
  | finite (value : Rat)
  | infinite (negative : Bool)
deriving DecidableEq, Repr

namespace Double

def ofRat (value : Rat) : Double :=
  let magnitude := roundMagnitude value.abs
  if magnitude < magnitudeLimit then finite (if value < 0 then -magnitude else magnitude)
  else infinite (value < 0)

/-- Exponents of ten beyond this decide by themselves, next to a significand of 64 bits. -/
def exponentLimit : Int := 400

def ofScaled (significand : Int) (exponent : Int) : Double :=
  if significand = 0 then finite 0
  else ofRat (significand * 10 ^ max (-exponentLimit) (min exponentLimit exponent))

def le : Double → Double → Bool
  | infinite true, _ => true
  | _, infinite false => true
  | finite first, finite second => first ≤ second
  | _, _ => false

def integer? : Double → Option Int
  | finite value => if value.den = 1 then some value.num else none
  | infinite _ => none

def writtenDigits : Int := 15

/-- A positive number as an integer of the written length and a power of ten, halves going up. -/
def leadingDigits (value : Rat) : Nat × Int :=
  let exponent := floorLog 10 value - (writtenDigits - 1)
  ((value / 10 ^ exponent + 1 / 2).floor.toNat, exponent)

def dropTrailingZeros (digits : List Char) : List Char :=
  (digits.reverse.dropWhile (· == '0')).reverse

def pointAfter (count : Int) (digits : List Char) : List Char :=
  let zeros (missing : Int) := List.replicate missing.toNat '0'
  let whole := digits.take count.toNat ++ zeros (count - digits.length)
  let fraction := zeros (-count) ++ digits.drop count.toNat
  (if whole.isEmpty then ['0'] else whole) ++ '.' :: (if fraction.isEmpty then ['0'] else fraction)

def exponentText (exponent : Int) : List Char :=
  let digits := Nat.toDigits 10 exponent.natAbs
  (if exponent < 0 then '-' else '+') ::
    (if digits.length = 1 then '0' :: digits else digits)

/-- A positive number as it is written. Where the point would be further left than the fifth place
before the digits or right of all of them, the number is written with an exponent. -/
def positiveText (value : Rat) : List Char :=
  let (significand, scale) := leadingDigits value
  let digits := Nat.toDigits 10 significand
  let exponent := scale + digits.length - 1
  let digits := dropTrailingZeros digits
  if -4 ≤ exponent ∧ exponent < writtenDigits then pointAfter (exponent + 1) digits
  else pointAfter 1 digits ++ 'e' :: exponentText exponent

def text : Double → String
  | finite value =>
      if value = 0 then "0.0"
      else if value < 0 then String.ofList ('-' :: positiveText (-value))
      else String.ofList (positiveText value)
  | infinite true => "-Inf"
  | infinite false => "Inf"

end Double

end FeatureAtlas
