import FeatureAtlas.Number.Double

/-!
Numbers as they stand in a text, and how one is read in double precision: its digits are collected
into a word of 64 bits as far as they fit, and the word is multiplied with a power of ten or divided
by one. Each step rounds, and a number that overflows on the way has no reading.
-/

namespace FeatureAtlas

/-- A number as written: its sign, the integer before the point, the digits after the point and the
exponent. No digits after the point means that no point was written. -/
structure Numeral where
  negative : Bool
  whole : Nat
  fraction : List Nat
  exponent : Option Int
deriving DecidableEq, Repr

/-- A word of 64 bits and the power of ten that it is taken with. -/
structure ScaledWord where
  word : Nat
  exponent : Int
deriving DecidableEq, Repr

namespace ScaledWord

def bound : Nat := 0x10000000000000000

def ofNat (value : Nat) : ScaledWord :=
  if value < bound then { word := value, exponent := 0 }
  else
    let shorter := ofNat (value / 10)
    { shorter with exponent := shorter.exponent + 1 }
termination_by value
decreasing_by simp only [bound] at *; omega

def addFraction (scaled : ScaledWord) : List Nat → ScaledWord
  | [] => scaled
  | digit :: rest =>
      if scaled.word * 10 + digit < bound then
        addFraction { word := scaled.word * 10 + digit, exponent := scaled.exponent - 1 } rest
      else scaled

def greatestPower : Nat := 308

def divide (value : Rat) (power : Nat) : Rat :=
  if value = 0 then 0
  else if power ≤ greatestPower then roundMagnitude (value / roundMagnitude (10 ^ power))
  else divide (roundMagnitude (value / roundMagnitude (10 ^ greatestPower))) (power - greatestPower)
termination_by power
decreasing_by simp only [greatestPower] at *; omega

def magnitude? (scaled : ScaledWord) : Option Rat :=
  let start := roundMagnitude scaled.word
  match scaled.exponent with
  | .ofNat power =>
      if scaled.word = 0 then some 0
      else if greatestPower < power then none
      else
        let product := roundMagnitude (start * roundMagnitude (10 ^ power))
        if product < magnitudeLimit then some product else none
  | .negSucc power => some (divide start (power + 1))

end ScaledWord

namespace Numeral

def ofNat (value : Nat) : Numeral :=
  { negative := false, whole := value, fraction := [], exponent := none }

/-- Only a plain run of digits denotes a natural number: no sign, no point, no exponent. -/
def natural? (numeral : Numeral) : Option Nat :=
  match numeral with
  | { negative := false, whole, fraction := [], exponent := none } => some whole
  | _ => none

def integer? (numeral : Numeral) : Option Int :=
  match numeral with
  | { negative, whole, fraction := [], exponent := none } =>
      some (if negative then -(whole : Int) else whole)
  | _ => none

def scaledWord (numeral : Numeral) : ScaledWord :=
  let kept := (ScaledWord.ofNat numeral.whole).addFraction numeral.fraction
  { kept with exponent := kept.exponent + numeral.exponent.getD 0 }

def double? (numeral : Numeral) : Option Double :=
  numeral.scaledWord.magnitude?.map fun magnitude =>
    .finite (if numeral.negative then -magnitude else magnitude)

def fitsDouble (numeral : Numeral) : Bool := numeral.double?.isSome

end Numeral

end FeatureAtlas
