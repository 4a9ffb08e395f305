import Scriptlet.Analysis.Rules
import Scriptlet.Proofs.Decimal.Nearest

/-! # The ranges of literals

Which literals are out of range. Integers are compared with the bounds of thirty-two bits. The
magnitude of a decimal is compared after it has been rounded to the digits that decimals keep, so
that the numbers between the largest binary floating-point number and the next tie are let through.

* `maxDecimal_lt_nearest_iff`: which numbers are above the largest one when they are rounded.
* `literalType_ranges`: the range check of both kinds of literals. -/

namespace Scriptlet

open Decimal (Format cast_tenTo ten_zpow_pos)

/-- The smallest magnitude of a decimal literal that is out of range: half-way between the two
rounded numbers around the largest binary floating-point number. -/
def decimalLimit : ℚ :=
  17976931348623157081452742375 * 10 ^ (280 : ℤ)

/-- The largest binary floating-point number, rounded up to twenty-eight digits. -/
def roundedLimit : ℤ := 1797693134862315708145274238

theorem zpow_281 : (10 : ℚ) ^ (281 : ℤ) = tenTo 281 :=
  (cast_tenTo (k := 281) (by decide)).symm

theorem decimalLimit_eq : decimalLimit = (roundedLimit - 1 / 2) * 10 ^ (281 : ℤ) := by
  have hpow : (10 : ℚ) ^ (281 : ℤ) = 10 ^ (280 : ℤ) * 10 := zpow_add_one₀ (by norm_num) 280
  rw [decimalLimit, roundedLimit, hpow]
  generalize (10 : ℚ) ^ (280 : ℤ) = unit
  push_cast
  ring

theorem maxDecimal_value : maxDecimal.value = ((twoTo 53 - 1) * twoTo 971 : ℕ) := by
  rw [maxDecimal, Decimal.value_of_not_negative 0 rfl, zpow_zero, mul_one]

/-- The largest binary floating-point number, by its bits. -/
theorem maxDecimal_eq : maxDecimal.value = (2 - 2 ^ (-52 : ℤ)) * 2 ^ (1023 : ℤ) := by
  have hcast (k : ℕ) : (twoTo k : ℚ) = 2 ^ (k : ℤ) := by simp [twoTo]
  have hpow : (2 : ℚ) ^ (1023 : ℤ) = 2 ^ (52 : ℤ) * 2 ^ (971 : ℤ) :=
    zpow_add₀ (by norm_num) 52 971
  have hbits : ((twoTo 53 - 1 : ℕ) : ℚ) = (2 - 2 ^ (-52 : ℤ)) * 2 ^ (52 : ℤ) := by
    have : twoTo 53 - 1 = 9007199254740991 := rfl
    rw [this]
    norm_num
  rw [maxDecimal_value, hpow, Nat.cast_mul, hbits, mul_assoc]
  exact congrArg _ (congrArg _ (hcast 971))

/-- The largest binary floating-point number lies between two numbers of twenty-eight digits. -/
theorem maxDecimal_bounds : (roundedLimit - 1) * 10 ^ (281 : ℤ) ≤ maxDecimal.value ∧
    maxDecimal.value < roundedLimit * 10 ^ (281 : ℤ) := by
  have hlow : 1797693134862315708145274237 * tenTo 281 ≤ (twoTo 53 - 1) * twoTo 971 := by
    decide +kernel
  have hhigh : (twoTo 53 - 1) * twoTo 971 < 1797693134862315708145274238 * tenTo 281 := by
    decide +kernel
  rw [maxDecimal_value, zpow_281, roundedLimit]
  generalize (twoTo 53 - 1) * twoTo 971 = largest at *
  generalize tenTo 281 = unit at *
  constructor
  · norm_num
    exact_mod_cast hlow
  · norm_num
    exact_mod_cast hhigh

theorem maxDecimal_lt_limit : maxDecimal.value < decimalLimit := by
  have hlt : (twoTo 53 - 1) * twoTo 971 < 17976931348623157081452742375 * tenTo 280 := by
    decide +kernel
  have hunit : (10 : ℚ) ^ (280 : ℤ) = tenTo 280 := (cast_tenTo (k := 280) (by decide)).symm
  rw [maxDecimal_value, decimalLimit, hunit]
  generalize (twoTo 53 - 1) * twoTo 971 = largest at *
  generalize tenTo 280 = unit at *
  exact_mod_cast hlt

/-- Powers of ten above the unit of the rounded limit. -/
theorem zpow_add_281 (k : ℤ) : (10 : ℚ) ^ (k + 281) = 10 ^ k * 10 ^ (281 : ℤ) :=
  zpow_add₀ (by norm_num) k 281

theorem place_eq_281 {x : ℚ} (hlead : (10 : ℚ) ^ (27 + 281 : ℤ) ≤ x)
    (hlt : x < 10 ^ (28 + 281 : ℤ)) :
    Format.working.place x = 281 := by
  have hpos : 0 < x := (ten_zpow_pos _).trans_le hlead
  have hlog : Int.log 10 x = 308 := by
    refine le_antisymm ?_ ((Decimal.le_log_iff hpos).mpr hlead)
    rw [← Int.lt_add_one_iff, ← not_le, Decimal.le_log_iff hpos]
    exact not_le.mpr hlt
  have htiny : ¬ x < 10 ^ Format.working.minExponent :=
    not_lt.mpr ((zpow_le_zpow_right₀ (by norm_num) (by decide)).trans hlead)
  rw [Format.place, abs_of_pos hpos, if_neg htiny, hlog]
  rfl

/-- Which numbers of twenty-eight digits are above the largest binary number. -/
theorem maxDecimal_lt_mul_iff (n : ℤ) :
    maxDecimal.value < n * 10 ^ (281 : ℤ) ↔ roundedLimit ≤ n := by
  obtain ⟨hlow, hhigh⟩ := maxDecimal_bounds
  have hunit := ten_zpow_pos 281
  constructor
  · intro h
    have hlt : (roundedLimit : ℚ) - 1 < n := lt_of_mul_lt_mul_right (hlow.trans_lt h) hunit.le
    have hlt' : roundedLimit - 1 < n := by exact_mod_cast hlt
    omega
  · intro h
    have hcast : (roundedLimit : ℚ) ≤ n := by exact_mod_cast h
    exact hhigh.trans_le (mul_le_mul_of_nonneg_right hcast hunit.le)

/-- **Which numbers are above the largest one when they are rounded.** -/
theorem maxDecimal_lt_nearest_iff {x : ℚ} (hx : 0 ≤ x) :
    maxDecimal.value < Format.working.nearest x ↔ decimalLimit ≤ x := by
  obtain ⟨hlow, hhigh⟩ := maxDecimal_bounds
  have hunit := ten_zpow_pos 281
  have hlimit : (roundedLimit : ℚ) = 1797693134862315708145274238 := rfl
  rw [decimalLimit_eq]
  rcases lt_or_ge x (10 ^ (27 + 281 : ℤ)) with hsmall | hlead
  · have hnearest : Format.working.nearest x ≤ 10 ^ (27 + 281 : ℤ) :=
      Format.nearest_le_zpow (by decide) (by decide) hx hsmall.le
    rw [zpow_add_281] at hsmall hnearest
    generalize (10 : ℚ) ^ (281 : ℤ) = unit at *
    rw [hlimit] at *
    norm_num at hsmall hnearest
    exact iff_of_false (by linarith) (by linarith)
  · have hpos : 0 < x := (ten_zpow_pos _).trans_le hlead
    rcases lt_or_ge x (10 ^ (28 + 281 : ℤ)) with hlt | hlarge
    · -- the last digit that is kept is at the unit of the rounded limit
      rw [Format.nearest, place_eq_281 hlead hlt, maxDecimal_lt_mul_iff,
        Decimal.le_halfEven_iff (by decide), le_div_iff₀ hunit]
    · have hnearest : 10 ^ (28 + 281 : ℤ) ≤ Format.working.nearest x :=
        Format.zpow_le_nearest (by decide) (by decide) hlarge
      rw [zpow_add_281] at hlarge hnearest
      generalize (10 : ℚ) ^ (281 : ℤ) = unit at *
      rw [hlimit] at *
      norm_num at hlarge hnearest
      exact iff_of_true (by linarith) (by linarith)

/-! ### The check -/

section Check

variable {neg : Bool} {c : ℕ} {e : ℤ}

/-- Magnitudes far below the overflow are rounded to a number. -/
theorem round_magnitude (h : |(Decimal.finite neg c e).value| < 10 ^ (999999 : ℤ)) :
    ∃ n c' e', Decimal.round .working false c e = .ok (.finite n c' e') ∧
      (Decimal.finite n c' e').value = Format.working.nearest |(Decimal.finite neg c e).value| := by
  have hmagnitude : (Decimal.finite false c e).value = |(Decimal.finite neg c e).value| := by
    rw [Decimal.abs_value, Decimal.value_of_not_negative e rfl]
  have hnonneg := abs_nonneg (Decimal.finite neg c e).value
  have hrounds := Decimal.round_roundsTo Format.isSound_working false c e
  rw [hmagnitude, Decimal.RoundsTo] at hrounds
  generalize |(Decimal.finite neg c e).value| = x at *
  have hnearest : |Format.working.nearest x| ≤ 10 ^ (999999 : ℤ) := by
    rw [abs_of_nonneg (Format.nearest_nonneg _ hnonneg)]
    exact Format.nearest_le_zpow (by decide) (by decide) hnonneg h.le
  have hlt : (10 : ℚ) ^ (999999 : ℤ) < 10 ^ (Format.working.maxExponent + 1) :=
    zpow_lt_zpow_right₀ (by norm_num) (by decide)
  rw [if_neg (not_le.mpr (hnearest.trans_lt hlt))] at hrounds
  obtain ⟨n, c', e', hround, -, hvalue⟩ := hrounds
  exact ⟨n, c', e', hround, hvalue⟩

theorem checkDecimal_eq (h : |(Decimal.finite neg c e).value| < 10 ^ (999999 : ℤ)) :
    checkDecimal (.decimal (.finite neg c e)) =
      if |(Decimal.finite neg c e).value| < decimalLimit then .ok ()
      else .error (.type (.decimalRange (.finite neg c e))) := by
  obtain ⟨n, c', e', hround, hvalue⟩ := round_magnitude h
  have hless : Decimal.less maxDecimal (.finite n c' e') =
      .ok (decide (decimalLimit ≤ |(Decimal.finite neg c e).value|)) := by
    rw [maxDecimal, Decimal.less_eq, ← maxDecimal, hvalue]
    simp only [maxDecimal_lt_nearest_iff (abs_nonneg _)]
  rw [checkDecimal, Decimal.abs, hround]
  simp only [orSignal, Except.mapError, bind, Except.bind, hless]
  by_cases hlarge : decimalLimit ≤ |(Decimal.finite neg c e).value|
  · rw [if_neg (not_lt.mpr hlarge), if_pos (decide_eq_true hlarge)]
    rfl
  · rw [if_pos (not_le.mp hlarge), if_neg (by simpa using hlarge)]
    rfl

theorem literalType_integer {n : ℤ} (hn : n.natAbs < tenTo Text.maxDigits) :
    literalType (.plain (.int n)) .integer =
      if -2 ^ 31 ≤ n ∧ n ≤ 2 ^ 31 - 1 then .ok .integer
      else .error (.type (.integerRange (toString n))) := by
  rw [literalType, checkInteger, showInt, if_pos hn]
  have hbounds : (minInteger ≤ n && n ≤ maxInteger) = decide (-2 ^ 31 ≤ n ∧ n ≤ 2 ^ 31 - 1) := by
    rw [minInteger, maxInteger, Bool.decide_and]
    rfl
  rw [hbounds]
  by_cases hrange : -2 ^ 31 ≤ n ∧ n ≤ 2 ^ 31 - 1
  · rw [if_pos hrange, if_pos (decide_eq_true hrange)]
    rfl
  · rw [if_neg hrange, if_neg (by simpa using hrange)]
    rfl

theorem literalType_decimal (h : |(Decimal.finite neg c e).value| < 10 ^ (999999 : ℤ)) :
    literalType (.decimal (.finite neg c e)) .decimal =
      if |(Decimal.finite neg c e).value| < decimalLimit then .ok .decimal
      else .error (.type (.decimalRange (.finite neg c e))) := by
  rw [literalType, checkDecimal_eq h]
  split_ifs <;> rfl

/-- **The range check.** Integers are in range exactly between the bounds of thirty-two bits.
Decimals are in range exactly below the limit; so their check decides whether they are at most the
largest binary number, except for those above that number and below the limit. -/
theorem literalType_ranges (n : ℤ) (neg : Bool) (c : ℕ) (e : ℤ) :
    (n.natAbs < tenTo Text.maxDigits → literalType (.plain (.int n)) .integer =
      if -2 ^ 31 ≤ n ∧ n ≤ 2 ^ 31 - 1 then .ok .integer
      else .error (.type (.integerRange (toString n)))) ∧
    (|(Decimal.finite neg c e).value| < 10 ^ (999999 : ℤ) →
      literalType (.decimal (.finite neg c e)) .decimal =
        (if |(Decimal.finite neg c e).value| < decimalLimit then .ok .decimal
        else .error (.type (.decimalRange (.finite neg c e)))) ∧
      ((literalType (.decimal (.finite neg c e)) .decimal = .ok .decimal ↔
          |(Decimal.finite neg c e).value| ≤ (2 - 2 ^ (-52 : ℤ)) * 2 ^ (1023 : ℤ)) ↔
        |(Decimal.finite neg c e).value| ≤ (2 - 2 ^ (-52 : ℤ)) * 2 ^ (1023 : ℤ) ∨
          decimalLimit ≤ |(Decimal.finite neg c e).value|)) := by
  refine ⟨literalType_integer, fun h => ⟨literalType_decimal h, ?_⟩⟩
  have hok : literalType (.decimal (.finite neg c e)) .decimal = .ok .decimal ↔
      |(Decimal.finite neg c e).value| < decimalLimit := by
    rw [literalType_decimal h]
    split_ifs with hlt
    · exact iff_of_true rfl hlt
    · exact iff_of_false (fun hne => by cases hne) hlt
  have hgap := maxDecimal_lt_limit
  rw [hok, ← maxDecimal_eq]
  generalize |(Decimal.finite neg c e).value| = x
  constructor
  · intro hiff
    exact (lt_or_ge x decimalLimit).imp_left hiff.mp
  · rintro (hle | hlimit)
    · exact iff_of_true (hle.trans_lt hgap) hle
    · exact iff_of_false (not_lt.mpr hlimit) (not_le.mpr (hgap.trans_le hlimit))

/-- Literals on both sides of the ends of the ranges. -/
theorem literalType_ranges_small :
    literalType (.plain (.int 2147483647)) .integer = .ok .integer ∧
      literalType (.plain (.int 2147483648)) .integer =
        .error (.type (.integerRange "2147483648")) ∧
      literalType (.decimal (.finite true 15 (-1))) .decimal = .ok .decimal ∧
      literalType (.decimal (.finite true 2 308)) .decimal =
        .error (.type (.decimalRange (.finite true 2 308))) := by
  have hmono {k l : ℤ} (h : k ≤ l) : (10 : ℚ) ^ k ≤ 10 ^ l := zpow_le_zpow_right₀ (by norm_num) h
  have hlow : |(Decimal.finite true 15 (-1)).value| < 10 ^ (1 : ℤ) := by
    rw [Decimal.abs_value]
    norm_num
  have hhigh : |(Decimal.finite true 2 308).value| < 10 ^ (309 : ℤ) := by
    have hpow : (10 : ℚ) ^ (309 : ℤ) = 10 ^ (308 : ℤ) * 10 := zpow_add_one₀ (by norm_num) 308
    rw [Decimal.abs_value, hpow, mul_comm]
    exact mul_lt_mul_of_pos_left (by norm_num) (ten_zpow_pos 308)
  have hin : |(Decimal.finite true 15 (-1)).value| < decimalLimit := by
    have hunit := hmono (show 0 ≤ 280 by decide)
    rw [decimalLimit]
    generalize (10 : ℚ) ^ (280 : ℤ) = unit at *
    norm_num at hlow hunit
    linarith
  have hout : decimalLimit ≤ |(Decimal.finite true 2 308).value| := by
    have hpow := zpow_add_281 27
    rw [decimalLimit_eq, roundedLimit, Decimal.abs_value,
      show (10 : ℚ) ^ (308 : ℤ) = 10 ^ (27 : ℤ) * 10 ^ (281 : ℤ) from hpow, ← mul_assoc]
    exact mul_le_mul_of_nonneg_right (by norm_num) (ten_zpow_pos 281).le
  refine ⟨?_, ?_, ?_, ?_⟩
  · rw [(literalType_ranges 2147483647 true 15 (-1)).1 (by decide +kernel)]
    rfl
  · rw [(literalType_ranges 2147483648 true 15 (-1)).1 (by decide +kernel)]
    rfl
  · rw [((literalType_ranges 0 true 15 (-1)).2 (hlow.trans_le (hmono (by decide)))).1, if_pos hin]
  · rw [((literalType_ranges 0 true 2 308).2 (hhigh.trans_le (hmono (by decide)))).1,
      if_neg (not_lt.mpr hout)]

/-- One more than the largest binary number, with a digit behind the point. -/
def aboveLargest : ℕ := ((twoTo 53 - 1) * twoTo 971 + 1) * 10

/-- **The check is not exact:** a literal above the largest binary number is in range. -/
theorem literalType_above_largest :
    (2 - 2 ^ (-52 : ℤ)) * 2 ^ (1023 : ℤ) < |(Decimal.finite false aboveLargest (-1)).value| ∧
      |(Decimal.finite false aboveLargest (-1)).value| < 10 ^ (999999 : ℤ) ∧
      literalType (.decimal (.finite false aboveLargest (-1))) .decimal = .ok .decimal := by
  have hshort : aboveLargest < tenTo 310 := by decide +kernel
  have hcount := Decimal.digitCount_le (by decide) hshort
  have hsmall : |(Decimal.finite false aboveLargest (-1)).value| < 10 ^ (999999 : ℤ) := by
    rw [Decimal.abs_value, ← not_le, Decimal.zpow_le_scaled_iff (by decide +kernel)]
    omega
  have hbelow : aboveLargest < 17976931348623157081452742375 * 10 * tenTo 280 := by decide +kernel
  have hin : |(Decimal.finite false aboveLargest (-1)).value| < decimalLimit := by
    have hunit : (10 : ℚ) ^ (280 : ℤ) = tenTo 280 := (cast_tenTo (k := 280) (by decide)).symm
    rw [Decimal.abs_value, decimalLimit, hunit]
    generalize aboveLargest = c at *
    generalize tenTo 280 = unit at *
    have hcast : (c : ℚ) < 17976931348623157081452742375 * 10 * unit := by exact_mod_cast hbelow
    norm_num
    linarith
  refine ⟨?_, hsmall, ?_⟩
  · rw [← maxDecimal_eq, maxDecimal_value, Decimal.abs_value, aboveLargest]
    generalize (twoTo 53 - 1) * twoTo 971 = largest
    push_cast
    norm_num
    linarith
  · rw [literalType_decimal hsmall, if_pos hin]

end Check

end Scriptlet
