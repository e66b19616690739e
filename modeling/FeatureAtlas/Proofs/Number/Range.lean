import Mathlib.Algebra.Order.Field.Rat
import Mathlib.Algebra.Order.Field.Power
import Mathlib.Tactic.Linarith
import Mathlib.Tactic.Positivity
import FeatureAtlas.Json.Numeral

/-!
Integers of 64 bits are in the range of doubles. Rounding does not take a number to more than twice
its size and one, so a word of 64 bits stays far below the greatest double.
-/

namespace FeatureAtlas

theorem pow_length_le {base number : Nat} (many : 1 < base) (positive : 0 < number) :
    base ^ ((Nat.toDigits base number).length - 1) ≤ number := by
  have digits : 0 < (Nat.toDigits base number).length := Nat.length_toDigits_pos
  by_cases single : (Nat.toDigits base number).length = 1
  · rw [single]
    exact positive
  · rw [← Nat.not_lt, ← Nat.length_toDigits_le_iff many (by omega)]
    omega

theorem lt_pow_length {base : Nat} (many : 1 < base) (number : Nat) :
    number < base ^ (Nat.toDigits base number).length :=
  (Nat.length_toDigits_le_iff many Nat.length_toDigits_pos).mp (Nat.le_refl _)

/-- The power that is found is not above twice the number, even where the guess is not corrected. -/
theorem zpow_floorLog_le {value : Rat} (positive : 0 < value) :
    (2 : Rat) ^ floorLog 2 value ≤ 2 * value := by
  let numerator := value.num.natAbs
  let above := (Nat.toDigits 2 numerator).length
  let below := (Nat.toDigits 2 value.den).length
  have guessed : floorLog 2 value ≤ (above : Int) - below := by
    rw [floorLog]
    dsimp only
    split
    · exact le_refl _
    · exact Int.sub_le_self _ (by decide)
  have numerators : (numerator : Rat) = value.num := by
    have sign : 0 ≤ value.num := (Rat.num_pos.mpr positive).le
    rw [← Int.cast_natCast, Int.natAbs_of_nonneg sign]
  have isPositive : 0 < numerator := Int.natAbs_pos.mpr (Rat.num_pos.mpr positive).ne'
  have atMost : (2 : Rat) ^ above ≤ 2 * numerator := by
    have power : 2 ^ above = 2 * 2 ^ (above - 1) := by
      rw [← pow_succ', Nat.sub_add_cancel Nat.length_toDigits_pos]
    have halved : 2 ^ above ≤ 2 * numerator :=
      power ▸ Nat.mul_le_mul_left 2 (pow_length_le (by decide) isPositive)
    exact_mod_cast halved
  have atLeast : (value.den : Rat) ≤ 2 ^ below := by
    exact_mod_cast (lt_pow_length (by decide) value.den).le
  calc (2 : Rat) ^ floorLog 2 value
      ≤ 2 ^ ((above : Int) - below) := zpow_le_zpow_right₀ (by norm_num) guessed
    _ = 2 ^ above / 2 ^ below := by
        rw [zpow_sub₀ (by norm_num), zpow_natCast, zpow_natCast]
    _ ≤ 2 * numerator / value.den := by
        gcongr
    _ = 2 * value := by rw [numerators, mul_div_assoc, Rat.num_div_den]

theorem nearestInteger_le (value : Rat) : (nearestInteger value : Rat) ≤ value + 1 := by
  have below := Rat.floor_le value
  rw [nearestInteger]
  split
  · push_cast
    linarith
  · linarith

theorem nearestInteger_nonneg {value : Rat} (nonneg : 0 ≤ value) : 0 ≤ nearestInteger value := by
  have floor : 0 ≤ value.floor := Rat.le_floor_iff.mpr nonneg
  rw [nearestInteger]
  split
  · omega
  · exact floor

theorem roundMagnitude_nonneg {value : Rat} (nonneg : 0 ≤ value) : 0 ≤ roundMagnitude value := by
  rw [roundMagnitude]
  split
  · exact le_refl _
  · have integer : (0 : Rat) ≤ nearestInteger
        (value / 2 ^ max (-1074) (floorLog 2 value - 52)) := by
      exact_mod_cast nearestInteger_nonneg (by positivity)
    positivity

theorem roundMagnitude_le {value : Rat} (nonneg : 0 ≤ value) :
    roundMagnitude value ≤ 2 * value + 1 := by
  rw [roundMagnitude]
  split
  · linarith
  · rename_i nonzero
    have positive : 0 < value := lt_of_le_of_ne nonneg (Ne.symm nonzero)
    let unit : Rat := 2 ^ max (-1074) (floorLog 2 value - 52)
    have isPositive : 0 < unit := by positivity
    have small : unit ≤ value + 1 := by
      rcases max_choice (-1074) (floorLog 2 value - 52) with least | scaled
      · have tiny : (2 : Rat) ^ (-1074 : Int) ≤ 1 :=
          zpow_le_one_of_nonpos₀ (by norm_num) (by norm_num)
        simp only [unit, least]
        linarith
      · have halved : (2 : Rat) ^ (floorLog 2 value - 52) ≤ 2 ^ (floorLog 2 value - 1) :=
          zpow_le_zpow_right₀ (by norm_num) (by omega)
        rw [zpow_sub_one₀ (by norm_num)] at halved
        have bounded := zpow_floorLog_le positive
        simp only [unit, scaled]
        linarith
    calc (nearestInteger (value / unit) : Rat) * unit
        ≤ (value / unit + 1) * unit := by
          gcongr
          exact nearestInteger_le _
      _ = value + unit := by rw [add_mul, div_mul_cancel₀ value isPositive.ne', one_mul]
      _ ≤ 2 * value + 1 := by linarith

theorem le_magnitudeLimit : (2 : Rat) ^ 100 ≤ magnitudeLimit := by
  have limit : magnitudeLimit = (2 : Rat) ^ 1024 := by
    change ((2 ^ 1024 : Int) : Rat) = 2 ^ 1024
    rw [Int.cast_pow, Int.cast_ofNat]
  rw [limit]
  exact pow_le_pow_right₀ (by norm_num) (by norm_num)

theorem ScaledWord.magnitude?_isSome {word : Nat} (bounded : word < bound) :
    ({ word, exponent := 0 } : ScaledWord).magnitude?.isSome = true := by
  have start : (0 : Rat) ≤ word := Nat.cast_nonneg word
  have words : (word : Rat) ≤ 2 ^ 64 := by exact_mod_cast bounded.le
  have one : roundMagnitude 1 ≤ 2 * 1 + 1 := roundMagnitude_le (by norm_num)
  have product : roundMagnitude (roundMagnitude word * roundMagnitude 1) < magnitudeLimit := by
    have factor : roundMagnitude word ≤ 2 ^ 66 := by
      have rounded := roundMagnitude_le start
      linarith
    have factors : roundMagnitude word * roundMagnitude 1 ≤ 2 ^ 66 * (2 * 1 + 1) := by
      gcongr
      exact roundMagnitude_nonneg (by norm_num)
    have nonneg : 0 ≤ roundMagnitude word * roundMagnitude 1 :=
      mul_nonneg (roundMagnitude_nonneg start) (roundMagnitude_nonneg (by norm_num))
    have rounded := roundMagnitude_le nonneg
    have limit := le_magnitudeLimit
    linarith
  by_cases zero : word = 0
  · simp [magnitude?, zero]
  · simp [magnitude?, zero, product]

namespace Numeral

theorem fitsDouble_of_lt {negative : Bool} {whole : Nat} (bounded : whole < ScaledWord.bound) :
    fitsDouble { negative, whole, fraction := [], exponent := none } = true := by
  have kept : scaledWord { negative, whole, fraction := [], exponent := none } =
      { word := whole, exponent := 0 } := by
    rw [scaledWord, ScaledWord.ofNat, if_pos bounded]
    rfl
  rw [fitsDouble, double?, Option.isSome_map, kept]
  exact ScaledWord.magnitude?_isSome bounded

end Numeral

end FeatureAtlas
