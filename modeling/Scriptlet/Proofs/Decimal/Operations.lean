import Mathlib.Data.Nat.Cast.Field
import Scriptlet.Proofs.Decimal.Nearest

/-! # Operations on decimals as operations on rational numbers

Sums, differences, products and quotients of finite numbers are the exact results, rounded once.
Neither the one that stands for a small summand nor the digit that stands for the remainder of a
division makes a difference, since the exact result and what is rounded instead of it lie in one
gap. A remainder is the exact one, if the quotient is not too large.

* `add_roundsTo`, `sub_roundsTo`, `mul_roundsTo`, `div_roundsTo`: the rounded results.
* `rem_eq`: the remainder at the smaller of both exponents. -/

namespace Scriptlet.Decimal

variable {f : Format}

theorem RoundsTo.congr {x y : ℚ} {r : Except Signal Decimal} (h : f.nearest x = f.nearest y)
    (hx : RoundsTo f x r) : RoundsTo f y r := by
  rwa [RoundsTo, ← h]

theorem value_eq_ite (neg : Bool) (c : ℕ) (e : ℤ) :
    (finite neg c e).value = if neg then -((c : ℚ) * 10 ^ e) else c * 10 ^ e := by
  cases neg <;> simp [value, signed]

theorem value_ne_zero_iff {neg : Bool} {c : ℕ} {e : ℤ} : (finite neg c e).value ≠ 0 ↔ c ≠ 0 := by
  have hpos := ten_zpow_pos e
  cases neg <;> simp [value_eq_ite, hpos.ne']

/-! ### Sums -/

/-- A sign and a magnitude make up an integer, whatever the sign of zero is. -/
theorem signed_natAbs (s : ℤ) (b : Bool) :
    signed (if s = 0 then b else decide (s < 0)) s.natAbs = s := by
  by_cases hs : s = 0
  · subst hs
    cases b <;> rfl
  · rw [if_neg hs, signed]
    split_ifs with hneg
    all_goals rw [decide_eq_true_eq] at hneg
    all_goals omega

theorem exactSum_value (n₁ : Bool) (c₁ : ℕ) (e₁ : ℤ) (n₂ : Bool) (c₂ : ℕ) (e₂ : ℤ) :
    (finite (exactSum n₁ c₁ e₁ n₂ c₂ e₂).1 (exactSum n₁ c₁ e₁ n₂ c₂ e₂).2.1
      (exactSum n₁ c₁ e₁ n₂ c₂ e₂).2.2).value =
    (finite n₁ c₁ e₁).value + (finite n₂ c₂ e₂).value := by
  have hscale (neg : Bool) (c : ℕ) {e e' : ℤ} (h : e' ≤ e) :
      ((signed neg (scale c (e - e').toNat) : ℤ) : ℚ) * 10 ^ e' = (finite neg c e).value := by
    rw [value_eq_ite, ← scale_value c h, scale_eq]
    cases neg <;> simp [signed]
  rw [← hscale n₁ c₁ (min_le_left e₁ e₂), ← hscale n₂ c₂ (min_le_right e₁ e₂), ← add_mul,
    ← Int.cast_add]
  dsimp only [exactSum]
  rw [value, signed_natAbs]

section Sums

variable {c₁ c₂ : ℕ} {e₁ e₂ p : ℤ} {t t' : ℚ}

/-- A number whose digits all lie before a place, in multiples of five units at that place. -/
theorem scaled_eq_mul (hp : p < e₁) :
    (c₁ : ℚ) * 10 ^ e₁ = ((2 * (c₁ * tenTo (e₁ - (p + 1)).toNat) : ℕ) : ℚ) * (5 * 10 ^ p) := by
  rw [← scale_value c₁ (show p + 1 ≤ e₁ by omega), zpow_add₀ (by norm_num)]
  push_cast
  ring

theorem gap_add (hc : c₁ ≠ 0) (hp : p < e₁) (ht : 0 < t) (hle : t ≤ 10 ^ p) :
    Gap p (2 * (c₁ * tenTo (e₁ - (p + 1)).toNat)) (c₁ * 10 ^ e₁ + t) := by
  have hpos : 0 < c₁ * tenTo (e₁ - (p + 1)).toNat :=
    Nat.mul_pos (Nat.pos_of_ne_zero hc) (tenTo_pos _)
  have hten := ten_zpow_pos p
  rw [scaled_eq_mul hp]
  exact ⟨by omega, by linarith, by linarith⟩

theorem gap_sub (hc : c₁ ≠ 0) (hp : p < e₁) (ht : 0 < t) (hle : t ≤ 10 ^ p) :
    Gap p (2 * (c₁ * tenTo (e₁ - (p + 1)).toNat) - 1) (c₁ * 10 ^ e₁ - t) := by
  have hpos : 0 < c₁ * tenTo (e₁ - (p + 1)).toNat :=
    Nat.mul_pos (Nat.pos_of_ne_zero hc) (tenTo_pos _)
  have hten := ten_zpow_pos p
  have hcast : ((2 * (c₁ * tenTo (e₁ - (p + 1)).toNat) - 1 : ℕ) : ℚ) =
      (2 * (c₁ * tenTo (e₁ - (p + 1)).toNat) : ℕ) - 1 := by
    rw [Nat.cast_sub (by omega), Nat.cast_one]
  rw [scaled_eq_mul hp]
  refine ⟨by omega, ?_, ?_⟩
  · rw [hcast]
    linarith
  · rw [hcast]
    linarith

/-- The place of a number of a certain size is not far below its leading digit. -/
theorem le_place {x : ℚ} {k : ℤ} (hx : (10 : ℚ) ^ k ≤ x) : k - f.digits + 1 ≤ f.place x := by
  have hpos : 0 < x := (ten_zpow_pos k).trans_le hx
  rw [Format.place, abs_of_pos hpos]
  split_ifs with htiny
  · have hlt : (10 : ℚ) ^ k < 10 ^ f.minExponent := hx.trans_lt htiny
    rw [zpow_lt_zpow_iff_right₀ (by norm_num)] at hlt
    rw [Format.lastPlace]
    omega
  · have := (le_log_iff hpos).mpr hx
    omega

/-- A number without a part of it so small that it does not reach the last digits. -/
theorem zpow_le_sub (hc : c₁ ≠ 0) (hp : p ≤ e₁ + digitCount c₁ - 2) (hle : t ≤ 10 ^ p) :
    (10 : ℚ) ^ (e₁ + digitCount c₁ - 2) ≤ c₁ * 10 ^ e₁ - t := by
  have hlead : (10 : ℚ) ^ (e₁ + digitCount c₁ - 2 + 1) ≤ c₁ * 10 ^ e₁ :=
    (zpow_le_scaled_iff hc).mpr (by omega)
  have hmono : (10 : ℚ) ^ p ≤ 10 ^ (e₁ + digitCount c₁ - 2) :=
    zpow_le_zpow_right₀ (by norm_num) hp
  have hpos := ten_zpow_pos (e₁ + digitCount c₁ - 2)
  rw [zpow_add₀ (by norm_num), zpow_one] at hlead
  linarith

/-- Summands that lie below the place after next are all alike. -/
theorem nearest_add_eq (hc : c₁ ≠ 0) (hp : p < e₁) (hp' : p ≤ e₁ + digitCount c₁ - f.digits - 2)
    (n₁ n₂ : Bool) (ht : 0 < t) (hle : t ≤ 10 ^ p) (ht' : 0 < t') (hle' : t' ≤ 10 ^ p) :
    f.nearest ((finite n₁ c₁ e₁).value + if n₂ then -t else t) =
      f.nearest ((finite n₁ c₁ e₁).value + if n₂ then -t' else t') := by
  have hdiff : (10 : ℚ) ^ (e₁ + digitCount c₁ - 2) ≤ c₁ * 10 ^ e₁ - t :=
    zpow_le_sub hc (by omega) hle
  have hadd : f.nearest (c₁ * 10 ^ e₁ + t) = f.nearest (c₁ * 10 ^ e₁ + t') := by
    refine (gap_add hc hp ht hle).nearest_eq (gap_add hc hp ht' hle') ?_
    have := le_place (f := f) (hdiff.trans (by linarith : _ ≤ c₁ * 10 ^ e₁ + t))
    omega
  have hsub : f.nearest (c₁ * 10 ^ e₁ - t) = f.nearest (c₁ * 10 ^ e₁ - t') := by
    refine (gap_sub hc hp ht hle).nearest_eq (gap_sub hc hp ht' hle') ?_
    have := le_place (f := f) hdiff
    omega
  rw [value_eq_ite]
  cases n₁ <;> cases n₂ <;> simp only [Bool.false_eq_true, if_true, if_false]
  · exact hadd
  · rw [← sub_eq_add_neg, ← sub_eq_add_neg, hsub]
  · rw [neg_add_eq_sub, neg_add_eq_sub, ← neg_sub, f.nearest_neg, hsub, ← f.nearest_neg, neg_sub]
  · rw [← neg_add, ← neg_add, f.nearest_neg, hadd, ← f.nearest_neg]

/-- **The number that stands for a summand leads to the same rounded sum.** -/
theorem nearest_standIn (f : Format) (n₁ : Bool) (c₁ : ℕ) (e₁ : ℤ) (n₂ : Bool) (c₂ : ℕ) (e₂ : ℤ) :
    f.nearest ((finite n₁ c₁ e₁).value +
      (finite n₂ (standIn f c₁ e₁ c₂ e₂).1 (standIn f c₁ e₁ c₂ e₂).2).value) =
    f.nearest ((finite n₁ c₁ e₁).value + (finite n₂ c₂ e₂).value) := by
  unfold standIn
  extract_lets p
  split_ifs with hsmall
  · simp only [Bool.and_eq_true, decide_eq_true_eq] at hsmall
    obtain ⟨hc₁, hsmall⟩ := hsmall
    by_cases hc₂ : c₂ = 0
    · simp [hc₂, value, signed]
    · rw [Nat.min_eq_right (Nat.pos_of_ne_zero hc₂), value_eq_ite n₂, value_eq_ite n₂ c₂]
      have hpos : (0 : ℚ) < c₂ * 10 ^ e₂ :=
        mul_pos (by exact_mod_cast Nat.pos_of_ne_zero hc₂) (ten_zpow_pos e₂)
      have hlt : (c₂ : ℚ) * 10 ^ e₂ < 10 ^ p := by
        rw [← not_le, zpow_le_scaled_iff hc₂]
        omega
      have hone : ((Nat.succ 0 : ℕ) : ℚ) * 10 ^ p = 10 ^ p := by simp
      have hp : p < e₁ := by
        simp only [p]
        omega
      have hp' : p ≤ e₁ + digitCount c₁ - f.digits - 2 := by
        simp only [p]
        omega
      rw [hone]
      exact nearest_add_eq hc₁ hp hp' n₁ n₂ (ten_zpow_pos p) le_rfl hpos hlt.le
  · rfl

end Sums

/-! ### Quotients -/

section Quotients

variable {c₁ c₂ : ℕ} {e₁ e₂ : ℤ}

/-- Zeros at the end of a coefficient do not matter. -/
theorem dropZeros_value (ideal : ℤ) (fuel c : ℕ) (e : ℤ) :
    ((dropZeros ideal fuel c e).1 : ℚ) * 10 ^ (dropZeros ideal fuel c e).2 = c * 10 ^ e := by
  induction fuel generalizing c e with
  | zero => rfl
  | succ fuel ih =>
    rw [dropZeros]
    split_ifs with hzero
    · simp only [Bool.and_eq_true, decide_eq_true_eq] at hzero
      have hcast : ((c / 10 : ℕ) : ℚ) * 10 = c := by
        exact_mod_cast Nat.div_mul_cancel (Nat.dvd_of_mod_eq_zero hzero.2)
      rw [ih, zpow_add₀ (by norm_num), zpow_one, ← hcast]
      ring
    · rfl

/-- A quotient of scaled coefficients. -/
theorem scaled_quotient (c₁ : ℕ) (e₁ : ℤ) (c₂ : ℕ) (e₂ shift : ℤ) :
    ((c₁ * tenTo shift.toNat : ℕ) : ℚ) / (c₂ * tenTo (-shift).toNat : ℕ) * 10 ^ (e₁ - e₂ - shift) =
      c₁ * 10 ^ e₁ / (c₂ * 10 ^ e₂) := by
  have hshift : (tenTo shift.toNat : ℚ) = 10 ^ shift * tenTo (-shift).toNat := by
    rcases le_total 0 shift with h | h
    · rw [cast_tenTo h, Int.toNat_of_nonpos (by omega), tenTo_zero, Nat.cast_one, mul_one]
    · rw [cast_tenTo (show 0 ≤ -shift by omega), Int.toNat_of_nonpos h, tenTo_zero, Nat.cast_one,
        ← zpow_add₀ (by norm_num), add_neg_cancel, zpow_zero]
  have hpos : (tenTo (-shift).toNat : ℚ) ≠ 0 := by exact_mod_cast (tenTo_pos _).ne'
  have h10 : (10 : ℚ) ≠ 0 := by norm_num
  rw [Nat.cast_mul, Nat.cast_mul, hshift, zpow_sub₀ h10, zpow_sub₀ h10]
  field_simp

/-- The scaled quotient has a digit more than the format keeps. -/
theorem tenTo_le_quotient (d : ℕ) (hc₁ : c₁ ≠ 0) (hc₂ : c₂ ≠ 0) {shift : ℤ}
    (hshift : shift = (digitCount c₂ : ℤ) - digitCount c₁ + d + 1) :
    tenTo d ≤ c₁ * tenTo shift.toNat / (c₂ * tenTo (-shift).toNat) := by
  have hlow : tenTo (digitCount c₁ - 1) ≤ c₁ := by
    rw [digitCount_eq, Nat.add_sub_cancel]
    exact Nat.pow_log_le_self 10 hc₁
  have hcount := digitCount_pos c₁
  rw [Nat.le_div_iff_mul_le (Nat.mul_pos (Nat.pos_of_ne_zero hc₂) (tenTo_pos _))]
  calc tenTo d * (c₂ * tenTo (-shift).toNat)
    _ ≤ tenTo d * (tenTo (digitCount c₂) * tenTo (-shift).toNat) :=
      Nat.mul_le_mul_left _ (Nat.mul_le_mul_right _ (lt_tenTo_digitCount c₂).le)
    _ = tenTo (d + (digitCount c₂ + (-shift).toNat)) := by
      simp only [tenTo, Nat.pow_eq, pow_add]
    _ = tenTo (digitCount c₁ - 1 + shift.toNat) := by
      congr 1
      omega
    _ = tenTo (digitCount c₁ - 1) * tenTo shift.toNat := by
      simp only [tenTo, Nat.pow_eq, pow_add]
    _ ≤ c₁ * tenTo shift.toNat := Nat.mul_le_mul_right _ hlow

/-- A quotient that is not exact, in the gap around its integer part. -/
theorem gap_quotient {num den : ℕ} (hden : 0 < den) (hq : 10 ≤ num / den) (hr : num % den ≠ 0)
    (e : ℤ) : Gap e (num / den / 5) ((num : ℚ) / den * 10 ^ e) := by
  have hden' : (0 : ℚ) < den := by exact_mod_cast hden
  have hlow : num / den / 5 * 5 * den < num :=
    calc num / den / 5 * 5 * den
      _ ≤ num / den * den := Nat.mul_le_mul_right den (Nat.div_mul_le_self _ 5)
      _ < num := by
        have := Nat.div_add_mod' num den
        omega
  have hhigh : num < (num / den / 5 + 1) * 5 * den :=
    calc num
      _ < (num / den + 1) * den := by
        have := Nat.div_add_mod' num den
        have := Nat.mod_lt num hden
        rw [Nat.add_mul]
        omega
      _ ≤ (num / den / 5 + 1) * 5 * den := Nat.mul_le_mul_right den (by omega)
  refine ⟨by omega, ?_, ?_⟩
  · rw [← mul_assoc]
    refine mul_lt_mul_of_pos_right ?_ (ten_zpow_pos e)
    rw [lt_div_iff₀ hden']
    exact_mod_cast hlow
  · rw [← mul_assoc]
    refine mul_lt_mul_of_pos_right ?_ (ten_zpow_pos e)
    rw [div_lt_iff₀ hden']
    exact_mod_cast hhigh

/-- A coefficient whose last digit stands for a remainder, in the gap of the quotient. -/
theorem gap_sticky {q : ℕ} (hq : 10 ≤ q) (e : ℤ) :
    Gap e (q / 5) ((if q % 5 = 0 then q + 1 else q : ℕ) * 10 ^ e) := by
  have hbounds : q / 5 * 5 < (if q % 5 = 0 then q + 1 else q) ∧
      (if q % 5 = 0 then q + 1 else q) < (q / 5 + 1) * 5 := by
    split_ifs
    · omega
    · omega
  refine ⟨by omega, ?_, ?_⟩
  · rw [← mul_assoc]
    refine mul_lt_mul_of_pos_right ?_ (ten_zpow_pos e)
    exact_mod_cast hbounds.1
  · rw [← mul_assoc]
    refine mul_lt_mul_of_pos_right ?_ (ten_zpow_pos e)
    exact_mod_cast hbounds.2

/-- **The quotient that is computed is rounded like the exact one.** -/
theorem nearest_quotient (hf : f.IsSound) (hc₁ : c₁ ≠ 0) (hc₂ : c₂ ≠ 0) :
    f.nearest ((quotient f c₁ e₁ c₂ e₂).1 * 10 ^ (quotient f c₁ e₁ c₂ e₂).2) =
      f.nearest (c₁ * 10 ^ e₁ / (c₂ * 10 ^ e₂)) := by
  unfold quotient
  extract_lets shift num den q e
  rw [← scaled_quotient c₁ e₁ c₂ e₂ shift]
  have hle : tenTo f.digits ≤ q := tenTo_le_quotient f.digits hc₁ hc₂ rfl
  have hten : 10 ≤ q := Nat.le_trans (tenTo_le_tenTo hf.digits_pos) hle
  have hden : 0 < den := Nat.mul_pos (Nat.pos_of_ne_zero hc₂) (tenTo_pos _)
  have hden' : (den : ℚ) ≠ 0 := by exact_mod_cast hden.ne'
  by_cases hr : num % den = 0
  · rw [if_neg (not_not.mpr hr), dropZeros_value, Nat.cast_div (Nat.dvd_of_mod_eq_zero hr) hden']
  · rw [if_pos hr]
    have hgap : Gap e (q / 5) ((num : ℚ) / den * 10 ^ e) := gap_quotient hden hten hr e
    refine (gap_sticky hten e).nearest_eq hgap ?_
    have hlarge : (10 : ℚ) ^ (e + f.digits) ≤ (if q % 5 = 0 then q + 1 else q : ℕ) * 10 ^ e := by
      rw [zpow_add₀ (by norm_num), mul_comm]
      refine mul_le_mul_of_nonneg_right ?_ (ten_zpow_pos e).le
      have hmax : tenTo f.digits ≤ if q % 5 = 0 then q + 1 else q := by
        split_ifs
        · omega
        · omega
      rw [← cast_tenTo (Int.natCast_nonneg _), Int.toNat_natCast]
      exact_mod_cast hmax
    have := le_place (f := f) hlarge
    omega

end Quotients

section Operations

variable {n₁ n₂ : Bool} {c₁ c₂ : ℕ} {e₁ e₂ : ℤ}

/-- **Sums are rounded once.** -/
theorem add_roundsTo (hf : f.IsSound) (n₁ n₂ : Bool) (c₁ c₂ : ℕ) (e₁ e₂ : ℤ) :
    RoundsTo f ((finite n₁ c₁ e₁).value + (finite n₂ c₂ e₂).value)
      (add f (.finite n₁ c₁ e₁) (.finite n₂ c₂ e₂)) := by
  simp only [add, spread?, Option.getD_none, addNumbers]
  by_cases he : e₂ < e₁
  · rw [if_pos he]
    refine (round_roundsTo hf _ _ _).congr ?_
    rw [exactSum_value]
    exact nearest_standIn f n₁ c₁ e₁ n₂ c₂ e₂
  · rw [if_neg he]
    refine (round_roundsTo hf _ _ _).congr ?_
    rw [exactSum_value, add_comm, add_comm (finite n₁ c₁ e₁).value]
    exact nearest_standIn f n₂ c₂ e₂ n₁ c₁ e₁

/-- **Differences are rounded once.** -/
theorem sub_roundsTo (hf : f.IsSound) (n₁ n₂ : Bool) (c₁ c₂ : ℕ) (e₁ e₂ : ℤ) :
    RoundsTo f ((finite n₁ c₁ e₁).value - (finite n₂ c₂ e₂).value)
      (sub f (.finite n₁ c₁ e₁) (.finite n₂ c₂ e₂)) := by
  have hneg : (finite (!n₂) c₂ e₂).value = -(finite n₂ c₂ e₂).value := by
    cases n₂ <;> simp [value_eq_ite]
  rw [sub_eq_add_neg, ← hneg]
  exact add_roundsTo hf n₁ (!n₂) c₁ c₂ e₁ e₂

/-- **Products are rounded once.** -/
theorem mul_roundsTo (hf : f.IsSound) (n₁ n₂ : Bool) (c₁ c₂ : ℕ) (e₁ e₂ : ℤ) :
    RoundsTo f ((finite n₁ c₁ e₁).value * (finite n₂ c₂ e₂).value)
      (mul f (.finite n₁ c₁ e₁) (.finite n₂ c₂ e₂)) := by
  have hproduct : (finite n₁ c₁ e₁).value * (finite n₂ c₂ e₂).value =
      (finite (n₁ != n₂) (c₁ * c₂) (e₁ + e₂)).value := by
    have hten : (10 : ℚ) ^ (e₁ + e₂) = 10 ^ e₁ * 10 ^ e₂ := zpow_add₀ (by norm_num) e₁ e₂
    simp only [value_eq_ite, hten]
    cases n₁ <;> cases n₂ <;> simp <;> ring
  rw [hproduct]
  exact round_roundsTo hf _ _ _

/-- **Quotients are rounded once.** -/
theorem div_roundsTo (hf : f.IsSound) (n₁ n₂ : Bool) (c₁ : ℕ) (hc₂ : c₂ ≠ 0) (e₁ e₂ : ℤ) :
    RoundsTo f ((finite n₁ c₁ e₁).value / (finite n₂ c₂ e₂).value)
      (div f (.finite n₁ c₁ e₁) (.finite n₂ c₂ e₂)) := by
  simp only [div, spread?, Option.getD_none, divNumbers, if_neg hc₂]
  split_ifs with hc₁
  · subst hc₁
    refine (round_roundsTo hf (n₁ != n₂) 0 (e₁ - e₂)).congr ?_
    simp [value_eq_ite]
  · refine (round_roundsTo hf _ _ _).congr ?_
    rw [f.nearest_signed, nearest_quotient hf hc₁ hc₂, ← f.nearest_neg]
    simp only [value_eq_ite]
    cases n₁ <;> cases n₂ <;> simp [neg_div, div_neg]

end Operations

/-! ### Remainders -/

/-- The integer part of a number. -/
def truncate (x : ℚ) : ℤ :=
  if x < 0 then ⌈x⌉ else ⌊x⌋

theorem truncate_neg (x : ℚ) : truncate (-x) = -truncate x := by
  rcases lt_trichotomy x 0 with hx | rfl | hx
  · rw [truncate, truncate, if_pos hx, if_neg (by linarith), Int.floor_neg]
  · simp [truncate]
  · rw [truncate, truncate, if_neg hx.not_gt, if_pos (neg_neg_of_pos hx), Int.ceil_neg]

theorem truncate_div (a b : ℕ) : truncate ((a : ℚ) / b) = (a / b : ℕ) := by
  have hnonneg : (0 : ℚ) ≤ a / b := by positivity
  rw [truncate, if_neg (not_lt.mpr hnonneg)]
  exact Rat.floor_intCast_div_natCast a b

section Remainders

variable {n₁ n₂ : Bool} {c₁ c₂ : ℕ} {e₁ e₂ : ℤ}

/-- The coefficient of a number at the smaller of two exponents. -/
def aligned (c : ℕ) (e e₁ e₂ : ℤ) : ℕ :=
  c * tenTo (e - min e₁ e₂).toNat

theorem aligned_value (neg : Bool) (c : ℕ) {e e₁ e₂ : ℤ} (he : min e₁ e₂ ≤ e) :
    (finite neg (aligned c e e₁ e₂) (min e₁ e₂)).value = (finite neg c e).value := by
  rw [value_eq_ite, value_eq_ite, aligned, scale_value c he]

theorem aligned_lt (h : (c₁ : ℚ) * 10 ^ e₁ < c₂ * 10 ^ e₂) :
    aligned c₁ e₁ e₁ e₂ < aligned c₂ e₂ e₁ e₂ := by
  rw [← scale_value c₁ (min_le_left e₁ e₂), ← scale_value c₂ (min_le_right e₁ e₂)] at h
  exact_mod_cast lt_of_mul_lt_mul_right h (ten_zpow_pos _).le

/-- A quotient has too many digits if the leading digits are too far apart. -/
theorem tenTo_le_aligned_div (hc₁ : c₁ ≠ 0) (hc₂ : c₂ ≠ 0) {d : ℕ}
    (hgap : (d : ℤ) < e₁ + digitCount c₁ - (e₂ + digitCount c₂)) :
    tenTo d ≤ aligned c₁ e₁ e₁ e₂ / aligned c₂ e₂ e₁ e₂ := by
  have hpos : 0 < aligned c₂ e₂ e₁ e₂ := Nat.mul_pos (Nat.pos_of_ne_zero hc₂) (tenTo_pos _)
  have hlt : (c₂ : ℚ) * 10 ^ (e₂ + d) < c₁ * 10 ^ e₁ := scaled_lt_of_place_lt hc₁ (by omega)
  rw [Nat.le_div_iff_mul_le hpos]
  rw [zpow_add₀ (by norm_num), ← mul_assoc, ← scale_value c₂ (min_le_right e₁ e₂),
    ← scale_value c₁ (min_le_left e₁ e₂), mul_right_comm] at hlt
  have hlt' := lt_of_mul_lt_mul_right hlt (ten_zpow_pos _).le
  rw [← cast_tenTo (Int.natCast_nonneg d), Int.toNat_natCast, mul_comm] at hlt'
  exact_mod_cast hlt'.le

/-- **The remainder at the smaller of both exponents.** The shortcuts for operands of very different
sizes lead to the same results. -/
theorem rem_eq (f : Format) (n₁ n₂ : Bool) (c₁ : ℕ) (hc₂ : c₂ ≠ 0) (e₁ e₂ : ℤ) :
    rem f (.finite n₁ c₁ e₁) (.finite n₂ c₂ e₂) =
      if aligned c₁ e₁ e₁ e₂ / aligned c₂ e₂ e₁ e₂ < tenTo f.digits then
        round f n₁ (aligned c₁ e₁ e₁ e₂ % aligned c₂ e₂ e₁ e₂) (min e₁ e₂)
      else .error .divisionImpossible := by
  simp only [rem, spread?, Option.getD_none, remNumbers, if_neg hc₂]
  by_cases hc₁ : c₁ = 0
  · have hzero : aligned c₁ e₁ e₁ e₂ = 0 := by rw [aligned, hc₁, Nat.zero_mul]
    rw [if_pos hc₁, hzero, Nat.zero_div, Nat.zero_mod, if_pos (tenTo_pos _)]
  · rw [if_neg hc₁]
    by_cases hsmall : e₁ + digitCount c₁ - (e₂ + digitCount c₂) < -1
    · have hlt : aligned c₁ e₁ e₁ e₂ < aligned c₂ e₂ e₁ e₂ :=
        aligned_lt (scaled_lt_of_place_lt hc₂ (by omega))
      rw [if_pos hsmall, Nat.div_eq_of_lt hlt, Nat.mod_eq_of_lt hlt, if_pos (tenTo_pos _), aligned]
    · rw [if_neg hsmall]
      by_cases hlarge : (f.digits : ℤ) < e₁ + digitCount c₁ - (e₂ + digitCount c₂)
      · rw [if_pos hlarge, if_neg (not_lt.mpr (tenTo_le_aligned_div hc₁ hc₂ hlarge))]
      · rw [if_neg hlarge, aligned, aligned]

theorem Format.Holds.mono {c c' : ℕ} {e : ℤ} (h : f.Holds c e) (hle : c' ≤ c) : f.Holds c' e := by
  have hcount : digitCount c' ≤ digitCount c := by
    rw [digitCount_eq, digitCount_eq]
    exact Nat.succ_le_succ (Nat.log_mono_right hle)
  have := h.le_maxExponent
  exact ⟨Nat.lt_of_le_of_lt hle h.short, h.lastPlace_le, by omega⟩

/-- A remainder of numbers of a format is one, since it has no more digits than the operand whose
exponent it has. -/
theorem holds_mod (h₁ : f.Holds c₁ e₁) (h₂ : f.Holds c₂ e₂) (hc₂ : c₂ ≠ 0) :
    f.Holds (aligned c₁ e₁ e₁ e₂ % aligned c₂ e₂ e₁ e₂) (min e₁ e₂) := by
  have hself (c : ℕ) (e : ℤ) : c * tenTo (e - e).toNat = c := by
    rw [sub_self, Int.toNat_zero, tenTo_zero, Nat.mul_one]
  rcases le_total e₁ e₂ with h | h
  · rw [aligned, aligned, min_eq_left h, hself]
    exact h₁.mono (Nat.mod_le _ _)
  · rw [aligned, aligned, min_eq_right h, hself]
    exact h₂.mono (Nat.mod_lt _ (Nat.pos_of_ne_zero hc₂)).le

/-- The integer part of a quotient, from coefficients at one exponent. -/
theorem truncate_value_div (n₁ n₂ : Bool) (a b : ℕ) (e : ℤ) :
    truncate ((finite n₁ a e).value / (finite n₂ b e).value) =
      if n₁ = n₂ then ((a / b : ℕ) : ℤ) else -((a / b : ℕ) : ℤ) := by
  have hcancel : (a : ℚ) * 10 ^ e / (b * 10 ^ e) = a / b :=
    mul_div_mul_right _ _ (ten_zpow_pos e).ne'
  rw [value_eq_ite, value_eq_ite]
  cases n₁ <;> cases n₂ <;> simp [neg_div, div_neg, truncate_neg, hcancel, truncate_div]

theorem natAbs_truncate (n₁ n₂ : Bool) (a b : ℕ) (e : ℤ) :
    (truncate ((finite n₁ a e).value / (finite n₂ b e).value)).natAbs = a / b := by
  rw [truncate_value_div]
  split_ifs
  · exact Int.natAbs_natCast _
  · rw [Int.natAbs_neg, Int.natAbs_natCast]

/-- What is left of a dividend, from coefficients at one exponent. -/
theorem value_eq_add_mod (n₁ n₂ : Bool) (a b : ℕ) (e : ℤ) :
    (finite n₁ a e).value =
      (finite n₂ b e).value * truncate ((finite n₁ a e).value / (finite n₂ b e).value) +
        (finite n₁ (a % b) e).value := by
  have hsplit : (a : ℚ) = b * (a / b : ℕ) + (a % b : ℕ) := by
    exact_mod_cast (Nat.div_add_mod a b).symm
  rw [truncate_value_div, value_eq_ite, value_eq_ite, value_eq_ite, hsplit]
  generalize a / b = q
  generalize a % b = r
  cases n₁ <;> cases n₂ <;> simp <;> ring

/-- **Remainders are rounded once**, unless the integer part of the quotient has too many digits. -/
theorem rem_roundsTo (hf : f.IsSound) (n₁ n₂ : Bool) (c₁ : ℕ) (hc₂ : c₂ ≠ 0) (e₁ e₂ : ℤ) :
    let x := (finite n₁ c₁ e₁).value
    let y := (finite n₂ c₂ e₂).value
    if tenTo f.digits ≤ (truncate (x / y)).natAbs then
      rem f (.finite n₁ c₁ e₁) (.finite n₂ c₂ e₂) = .error .divisionImpossible
    else RoundsTo f (x - y * truncate (x / y)) (rem f (.finite n₁ c₁ e₁) (.finite n₂ c₂ e₂)) := by
  rw [rem_eq f n₁ n₂ c₁ hc₂, ← aligned_value n₁ c₁ (min_le_left e₁ e₂),
    ← aligned_value n₂ c₂ (min_le_right e₁ e₂)]
  generalize aligned c₁ e₁ e₁ e₂ = a
  generalize aligned c₂ e₂ e₁ e₂ = b
  generalize min e₁ e₂ = e
  dsimp only
  rw [natAbs_truncate, sub_eq_of_eq_add' (value_eq_add_mod n₁ n₂ a b e)]
  by_cases hlarge : tenTo f.digits ≤ a / b
  · rw [if_pos hlarge, if_neg (not_lt.mpr hlarge)]
  · rw [if_neg hlarge, if_pos (not_le.mp hlarge)]
    exact round_roundsTo hf _ _ _

/-- **The law of division.** A remainder of numbers of a format is exact and has the sign of the
dividend, unless the integer part of the quotient has too many digits. -/
theorem rem_law (h₁ : f.Holds c₁ e₁) (h₂ : f.Holds c₂ e₂) (hc₂ : c₂ ≠ 0) (n₁ n₂ : Bool) :
    let q := truncate ((finite n₁ c₁ e₁).value / (finite n₂ c₂ e₂).value)
    if tenTo f.digits ≤ q.natAbs then
      rem f (.finite n₁ c₁ e₁) (.finite n₂ c₂ e₂) = .error .divisionImpossible
    else ∃ c e, rem f (.finite n₁ c₁ e₁) (.finite n₂ c₂ e₂) = .ok (.finite n₁ c e) ∧
      (finite n₁ c₁ e₁).value = (finite n₂ c₂ e₂).value * q + (finite n₁ c e).value ∧
      |(finite n₁ c e).value| < |(finite n₂ c₂ e₂).value| := by
  rw [rem_eq f n₁ n₂ c₁ hc₂, round_of_holds n₁ (holds_mod h₁ h₂ hc₂),
    ← aligned_value n₁ c₁ (min_le_left e₁ e₂), ← aligned_value n₂ c₂ (min_le_right e₁ e₂)]
  have hpos : 0 < aligned c₂ e₂ e₁ e₂ := Nat.mul_pos (Nat.pos_of_ne_zero hc₂) (tenTo_pos _)
  generalize aligned c₁ e₁ e₁ e₂ = a at *
  generalize aligned c₂ e₂ e₁ e₂ = b at *
  generalize min e₁ e₂ = e at *
  dsimp only
  rw [natAbs_truncate]
  by_cases hlarge : tenTo f.digits ≤ a / b
  · rw [if_pos hlarge, if_neg (not_lt.mpr hlarge)]
  · rw [if_neg hlarge, if_pos (not_le.mp hlarge)]
    refine ⟨a % b, e, rfl, value_eq_add_mod n₁ n₂ a b e, ?_⟩
    rw [abs_value, abs_value]
    refine mul_lt_mul_of_pos_right ?_ (ten_zpow_pos e)
    exact_mod_cast Nat.mod_lt a hpos

end Remainders

end Scriptlet.Decimal
