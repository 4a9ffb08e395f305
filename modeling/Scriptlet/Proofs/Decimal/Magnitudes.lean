import Mathlib.Data.Int.Log
import Mathlib.Data.Rat.Floor
import Mathlib.Tactic.FieldSimp
import Mathlib.Tactic.Linarith
import Mathlib.Tactic.Positivity
import Mathlib.Tactic.Ring
import Scriptlet.Proofs.Decimal.Rounding

/-! # Decimals as rational numbers

Every finite decimal stands for a rational number. Its digits give the place of its leading digit,
so that comparing places first and coefficients at a common exponent afterwards compares numbers.

* `digitCount_eq`: the search for the number of digits finds it.
* `log_scaled`: the place of the leading digit.
* `compareMagnitude_eq`, `less_eq`: comparisons are those of the numbers.
* `toInt_eq_iff`: which numbers are integers, and which integers they are.
* `compare?_rank`: comparisons with the infinities. -/

namespace Scriptlet.Decimal

/-! ### Digits of a coefficient -/

/-- The search for the first digit does not stop below it. -/
theorem lt_tenTo_topPower {n : Nat} (fuel : Nat) {lo hi : Nat} (hhi : n < tenTo hi)
    (hfuel : hi ≤ lo + 2 ^ fuel) : n < tenTo (topPower n fuel lo hi + 1) := by
  have hclose {lo hi : Nat} (hhi : n < tenTo hi) (h : hi ≤ lo + 1) : n < tenTo (lo + 1) :=
    Nat.lt_of_lt_of_le hhi (tenTo_le_tenTo h)
  induction fuel generalizing lo hi with
  | zero => exact hclose hhi hfuel
  | succ fuel ih =>
    rw [Nat.pow_succ] at hfuel
    rw [topPower]
    dsimp only
    split_ifs with hdone hmid
    · exact hclose hhi hdone
    · exact ih hhi (by omega)
    · exact ih (Nat.not_le.mp hmid) (by omega)

/-- The search for the first digit ends above it. -/
theorem lt_tenTo_log2 (n : Nat) : n < tenTo ((n.log2 + 1) * 3011 / 10000 + 1) := by
  have hle : twoTo (n.log2 + 1) ≤ tenTo ((n.log2 + 1) * 3011 / 10000 + 1) :=
    pow_le_pow_of_ratio (a := 10000) (b := 3011) (by decide) (by decide +kernel) (by decide)
      (by omega)
  exact Nat.lt_of_lt_of_le Nat.lt_log2_self hle

/-- **The number of digits is the one that the logarithm gives.** -/
theorem digitCount_eq (n : Nat) : digitCount n = Nat.log 10 n + 1 := by
  unfold digitCount
  split_ifs with hn
  · subst hn
    rfl
  · have hwidth : (n.log2 + 1) * 3011 / 10000 + 1 ≤
        n.log2 * 3010 / 10000 + 2 ^ (n.log2 + 1) := by
      have hpow : n.log2 + 1 < 2 ^ (n.log2 + 1) := Nat.lt_two_pow_self
      omega
    have hlow := tenTo_topPower_le (tenTo_log2_le hn) (n.log2 + 1)
      ((n.log2 + 1) * 3011 / 10000 + 1)
    have hhigh := lt_tenTo_topPower (n.log2 + 1) (lt_tenTo_log2 n) hwidth
    rw [(Nat.log_eq_iff (Or.inr ⟨by decide, hn⟩)).mpr ⟨hlow, hhigh⟩]

theorem lt_tenTo_digitCount (n : Nat) : n < tenTo (digitCount n) := by
  rw [digitCount_eq]
  exact Nat.lt_pow_succ_log_self (by decide) n

theorem digitCount_pos (n : Nat) : 0 < digitCount n := by
  rw [digitCount_eq]
  exact Nat.succ_pos _

/-! ### Values -/

/-- The number that a finite decimal stands for. -/
def value : Decimal → ℚ
  | .finite neg c e => (signed neg c : ℤ) * 10 ^ e
  | _ => 0

theorem ten_zpow_pos (e : ℤ) : (0 : ℚ) < 10 ^ e :=
  zpow_pos (by norm_num) e

theorem value_ofInt (n : ℤ) : (ofInt n).value = n := by
  rw [ofInt, value, zpow_zero, mul_one, Int.cast_inj, signed]
  split_ifs with h
  · simp only [decide_eq_true_eq] at h
    omega
  · simp only [decide_eq_true_eq] at h
    omega

theorem abs_signed (neg : Bool) (n : ℕ) : |((signed neg n : ℤ) : ℚ)| = n := by
  cases neg <;> simp [signed]

theorem abs_value (neg : Bool) (c : ℕ) (e : ℤ) : |(finite neg c e).value| = c * 10 ^ e := by
  rw [value, abs_mul, abs_signed, abs_of_pos (ten_zpow_pos e)]

/-- A power of ten as a coefficient. -/
theorem cast_tenTo {k : ℤ} (hk : 0 ≤ k) : (tenTo k.toNat : ℚ) = 10 ^ k := by
  obtain ⟨n, rfl⟩ := Int.eq_ofNat_of_zero_le hk
  simp [tenTo]

/-- A number at a smaller exponent. -/
theorem scale_value (c : ℕ) {e e' : ℤ} (h : e' ≤ e) :
    ((c * tenTo (e - e').toNat : ℕ) : ℚ) * 10 ^ e' = c * 10 ^ e := by
  rw [Nat.cast_mul, cast_tenTo (by omega), mul_assoc, ← zpow_add₀ (by norm_num), sub_add_cancel]

/-! ### Leading digits -/

theorem le_log_iff {x : ℚ} (hx : 0 < x) {k : ℤ} : k ≤ Int.log 10 x ↔ (10 : ℚ) ^ k ≤ x := by
  rw [← Int.zpow_le_iff_le_log (by norm_num) hx, Nat.cast_ofNat]

/-- **The place of the leading digit.** -/
theorem log_scaled {c : ℕ} (hc : c ≠ 0) (e : ℤ) :
    Int.log 10 ((c : ℚ) * 10 ^ e) = e + digitCount c - 1 := by
  have hpos : (0 : ℚ) < c := by exact_mod_cast Nat.pos_of_ne_zero hc
  have hlog : Int.log 10 (c : ℚ) = digitCount c - 1 := by
    rw [Int.log_natCast, digitCount_eq, Nat.cast_succ, add_sub_cancel_right]
  refine eq_of_forall_le_iff fun k => ?_
  have hshift : (10 : ℚ) ^ k = 10 ^ (k - e) * 10 ^ e := by
    rw [← zpow_add₀ (by norm_num), sub_add_cancel]
  rw [le_log_iff (mul_pos hpos (ten_zpow_pos e)), hshift, mul_le_mul_iff_left₀ (ten_zpow_pos e),
    ← le_log_iff hpos, hlog]
  omega

theorem zpow_le_scaled_iff {c : ℕ} (hc : c ≠ 0) {e k : ℤ} :
    (10 : ℚ) ^ k ≤ c * 10 ^ e ↔ k < e + digitCount c := by
  have hpos : (0 : ℚ) < c * 10 ^ e :=
    mul_pos (by exact_mod_cast Nat.pos_of_ne_zero hc) (ten_zpow_pos e)
  rw [← le_log_iff hpos, log_scaled hc]
  omega

/-! ### Comparisons -/

/-- Numbers whose leading digits are at different places are compared by these places. -/
theorem scaled_lt_of_place_lt {c₁ c₂ : ℕ} {e₁ e₂ : ℤ} (h₂ : c₂ ≠ 0)
    (h : e₁ + digitCount c₁ < e₂ + digitCount c₂) : (c₁ : ℚ) * 10 ^ e₁ < c₂ * 10 ^ e₂ := by
  by_cases h₁ : c₁ = 0
  · subst h₁
    rw [Nat.cast_zero, zero_mul]
    exact mul_pos (by exact_mod_cast Nat.pos_of_ne_zero h₂) (ten_zpow_pos e₂)
  · refine lt_of_lt_of_le ?_ ((zpow_le_scaled_iff h₂).mpr h)
    rw [← not_le, zpow_le_scaled_iff h₁]
    exact lt_irrefl _

/-- Numbers at a common exponent are compared by their coefficients. -/
theorem compare_scaled (c₁ c₂ : ℕ) {e e₁ e₂ : ℤ} (h₁ : e ≤ e₁) (h₂ : e ≤ e₂) :
    compare (c₁ * tenTo (e₁ - e).toNat) (c₂ * tenTo (e₂ - e).toNat) =
      compare ((c₁ : ℚ) * 10 ^ e₁) (c₂ * 10 ^ e₂) := by
  rw [← scale_value c₁ h₁, ← scale_value c₂ h₂]
  generalize c₁ * tenTo (e₁ - e).toNat = a₁
  generalize c₂ * tenTo (e₂ - e).toNat = a₂
  have hmono {a b : ℕ} (hab : a < b) : (a : ℚ) * 10 ^ e < b * 10 ^ e :=
    mul_lt_mul_of_pos_right (by exact_mod_cast hab) (ten_zpow_pos e)
  rcases lt_trichotomy a₁ a₂ with hlt | rfl | hgt
  · rw [compare_lt_iff_lt.mpr hlt, compare_lt_iff_lt.mpr (hmono hlt)]
  · rw [compare_eq_iff_eq.mpr rfl, compare_eq_iff_eq.mpr rfl]
  · rw [compare_gt_iff_gt.mpr hgt, compare_gt_iff_gt.mpr (hmono hgt)]

/-- **Magnitudes are compared as numbers.** -/
theorem compareMagnitude_eq (c₁ : ℕ) (e₁ : ℤ) (c₂ : ℕ) (e₂ : ℤ) :
    compareMagnitude c₁ e₁ c₂ e₂ = compare ((c₁ : ℚ) * 10 ^ e₁) (c₂ * 10 ^ e₂) := by
  have hpos {c : ℕ} (hc : c ≠ 0) (e : ℤ) : (0 : ℚ) < c * 10 ^ e :=
    mul_pos (by exact_mod_cast Nat.pos_of_ne_zero hc) (ten_zpow_pos e)
  unfold compareMagnitude
  dsimp only
  split_ifs with h₁ h₂ h₂ hlt hgt
  · simp [h₁, h₂]
  · simpa [h₁] using (compare_lt_iff_lt.mpr (hpos h₂ e₂)).symm
  · simpa [h₂] using (compare_gt_iff_gt.mpr (hpos h₁ e₁)).symm
  · exact (compare_lt_iff_lt.mpr (scaled_lt_of_place_lt h₂ hlt)).symm
  · exact (compare_gt_iff_gt.mpr (scaled_lt_of_place_lt h₁ hgt)).symm
  · exact compare_scaled c₁ c₂ (min_le_left _ _) (min_le_right _ _)

theorem compare_neg_neg (x y : ℚ) : compare (-x) (-y) = compare y x := by
  rcases lt_trichotomy x y with hlt | rfl | hgt
  · rw [compare_gt_iff_gt.mpr (neg_lt_neg hlt), compare_gt_iff_gt.mpr hlt]
  · rw [compare_eq_iff_eq.mpr rfl, compare_eq_iff_eq.mpr rfl]
  · rw [compare_lt_iff_lt.mpr (neg_lt_neg hgt), compare_lt_iff_lt.mpr hgt]

/-- A number that is not below zero, or has the sign of zero, is its magnitude. -/
theorem value_of_not_negative {neg : Bool} {c : ℕ} (e : ℤ)
    (h : (neg && decide (c ≠ 0)) = false) : (finite neg c e).value = c * 10 ^ e := by
  cases neg with
  | false => simp [value, signed]
  | true =>
    have hc : c = 0 := by simpa using h
    simp [value, signed, hc]

theorem value_of_negative {neg : Bool} {c : ℕ} (e : ℤ) (h : (neg && decide (c ≠ 0)) = true) :
    (finite neg c e).value = -(c * 10 ^ e) ∧ (0 : ℚ) < c * 10 ^ e := by
  obtain ⟨rfl, hc⟩ := Bool.and_eq_true_iff.mp h
  refine ⟨by simp [value, signed], mul_pos ?_ (ten_zpow_pos e)⟩
  exact_mod_cast Nat.pos_of_ne_zero (of_decide_eq_true hc)

section Comparisons

variable (n₁ n₂ : Bool) (c₁ c₂ : ℕ) (e₁ e₂ : ℤ)

/-- **Finite numbers are compared by their values.** -/
theorem compare?_eq : compare? (.finite n₁ c₁ e₁) (.finite n₂ c₂ e₂) =
    some (compare (finite n₁ c₁ e₁).value (finite n₂ c₂ e₂).value) := by
  have hnonneg (c : ℕ) (e : ℤ) : (0 : ℚ) ≤ c * 10 ^ e :=
    mul_nonneg c.cast_nonneg (ten_zpow_pos e).le
  rw [compare?]
  split_ifs with hzero
  · simp only [Bool.and_eq_true, decide_eq_true_eq] at hzero
    simp [value, signed, hzero.1, hzero.2]
  · split
    · next h₁ h₂ =>
      rw [(value_of_negative e₁ h₁).1, (value_of_negative e₂ h₂).1, compare_neg_neg,
        compareMagnitude_eq]
    · next h₁ h₂ =>
      obtain ⟨hv₁, hpos⟩ := value_of_negative e₁ h₁
      rw [hv₁, value_of_not_negative e₂ h₂, compare_lt_iff_lt.mpr]
      exact lt_of_lt_of_le (neg_neg_of_pos hpos) (hnonneg c₂ e₂)
    · next h₁ h₂ =>
      obtain ⟨hv₂, hpos⟩ := value_of_negative e₂ h₂
      rw [hv₂, value_of_not_negative e₁ h₁, compare_gt_iff_gt.mpr]
      exact lt_of_lt_of_le (neg_neg_of_pos hpos) (hnonneg c₁ e₁)
    · next h₁ h₂ =>
      rw [value_of_not_negative e₁ h₁, value_of_not_negative e₂ h₂, compareMagnitude_eq]

theorem less_eq : less (.finite n₁ c₁ e₁) (.finite n₂ c₂ e₂) =
    .ok (decide ((finite n₁ c₁ e₁).value < (finite n₂ c₂ e₂).value)) := by
  simp only [less, compare?_eq, compare_lt_iff_lt]

end Comparisons

/-! ### Integers -/

section Integers

variable {neg : Bool} {c : ℕ} {e : ℤ}

/-- A coefficient without its last digits. -/
theorem quotient_value {c : ℕ} (he : e < 0) (hc : c % tenTo (-e).toNat = 0) :
    ((c / tenTo (-e).toNat : ℕ) : ℚ) = c * 10 ^ e := by
  have hexact : c / tenTo (-e).toNat * tenTo (-e).toNat = c :=
    Nat.div_mul_cancel (Nat.dvd_of_mod_eq_zero hc)
  have hcast : ((c / tenTo (-e).toNat : ℕ) : ℚ) * 10 ^ (-e) = c := by
    rw [← cast_tenTo (by omega)]
    exact_mod_cast hexact
  rw [← hcast, mul_assoc, ← zpow_add₀ (by norm_num), neg_add_cancel, zpow_zero, mul_one]

/-- The integer part of a number without a fractional part is the number. -/
theorem toInt_eq_value (h : (finite neg c e).isIntegral = true) :
    ((finite neg c e).toInt : ℚ) = (finite neg c e).value := by
  have hsigned {m : ℕ} (hm : (m : ℚ) = c * 10 ^ e) :
      ((if neg then -(m : ℤ) else m : ℤ) : ℚ) = (finite neg c e).value := by
    cases neg <;> simp [value, signed, hm]
  simp only [isIntegral, Bool.or_eq_true, Bool.and_eq_true, decide_eq_true_eq] at h
  rw [toInt]
  refine hsigned ?_
  split_ifs with he hshort
  · rw [scale_eq, Nat.cast_mul, cast_tenTo he]
  · rcases h with (he' | hc) | ⟨hlong, -⟩
    · exact absurd he' he
    · simp [hc]
    · omega
  · refine quotient_value (by omega) ?_
    rcases h with (he' | rfl) | ⟨-, hc⟩
    · exact absurd he' he
    · exact Nat.zero_mod _
    · exact hc

/-- A number that is an integer has no fractional part. -/
theorem isIntegral_of_value {n : ℤ} (h : (finite neg c e).value = n) :
    (finite neg c e).isIntegral = true := by
  simp only [isIntegral, Bool.or_eq_true, Bool.and_eq_true, decide_eq_true_eq]
  by_cases hdone : 0 ≤ e ∨ c = 0
  · exact Or.inl hdone
  · obtain ⟨he, hc⟩ := not_or.mp hdone
    have hmagnitude : c = n.natAbs * tenTo (-e).toNat := by
      have habs := abs_value neg c e
      rw [h, ← Int.cast_abs, Int.abs_eq_natAbs, Int.cast_natCast] at habs
      have hcast : (n.natAbs : ℚ) * 10 ^ (-e) = c := by
        rw [habs, mul_assoc, ← zpow_add₀ (by norm_num), add_neg_cancel, zpow_zero, mul_one]
      rw [← cast_tenTo (by omega)] at hcast
      exact_mod_cast hcast.symm
    refine Or.inr ⟨?_, ?_⟩
    · have hn : 0 < n.natAbs := by
        refine Nat.pos_of_ne_zero fun hn => hc ?_
        rw [hmagnitude, hn, Nat.zero_mul]
      have hle : tenTo (-e).toNat ≤ c := by
        rw [hmagnitude]
        exact Nat.le_mul_of_pos_left _ hn
      exact (Nat.pow_lt_pow_iff_right (by decide)).mp
        (Nat.lt_of_le_of_lt hle (lt_tenTo_digitCount c))
    · rw [hmagnitude, Nat.mul_mod_left]

/-- **Which numbers are integers, and which integers they are.** -/
theorem toInt_eq_iff {n : ℤ} : (finite neg c e).isIntegral = true ∧ (finite neg c e).toInt = n ↔
    (finite neg c e).value = n := by
  constructor
  · rintro ⟨hint, rfl⟩
    exact (toInt_eq_value hint).symm
  · intro h
    have hint := isIntegral_of_value h
    exact ⟨hint, by exact_mod_cast (toInt_eq_value hint).trans h⟩

end Integers

/-! ### Infinities -/

/-- The place of a number among all numbers, with the infinities at both ends. A not-a-number has
none. -/
def rank : Decimal → WithBot (WithTop ℚ)
  | .infinite true => ⊥
  | .infinite false => (⊤ : WithTop ℚ)
  | d => (d.value : WithTop ℚ)

section Ranks

variable {x y : Decimal}

theorem compare_coe (p q : ℚ) :
    compare ((p : WithTop ℚ) : WithBot (WithTop ℚ)) (q : WithTop ℚ) = compare p q := by
  rcases lt_trichotomy p q with hlt | rfl | hgt
  · rw [compare_lt_iff_lt.mpr hlt, compare_lt_iff_lt.mpr]
    exact WithBot.coe_lt_coe.mpr (WithTop.coe_lt_coe.mpr hlt)
  · rw [compare_eq_iff_eq.mpr rfl, compare_eq_iff_eq.mpr rfl]
  · rw [compare_gt_iff_gt.mpr hgt, compare_gt_iff_gt.mpr]
    exact WithBot.coe_lt_coe.mpr (WithTop.coe_lt_coe.mpr hgt)

theorem compare_bot_coe (p : WithTop ℚ) : compare ⊥ (p : WithBot (WithTop ℚ)) = .lt :=
  compare_lt_iff_lt.mpr (WithBot.bot_lt_coe p)

theorem compare_coe_bot (p : WithTop ℚ) : compare (p : WithBot (WithTop ℚ)) ⊥ = .gt :=
  compare_gt_iff_gt.mpr (WithBot.bot_lt_coe p)

theorem compare_top_coe (p : ℚ) :
    compare ((⊤ : WithTop ℚ) : WithBot (WithTop ℚ)) (p : WithTop ℚ) = .gt :=
  compare_gt_iff_gt.mpr (WithBot.coe_lt_coe.mpr (WithTop.coe_lt_top p))

theorem compare_coe_top (p : ℚ) :
    compare ((p : WithTop ℚ) : WithBot (WithTop ℚ)) (⊤ : WithTop ℚ) = .lt :=
  compare_lt_iff_lt.mpr (WithBot.coe_lt_coe.mpr (WithTop.coe_lt_top p))

/-- **Numbers are compared by their places**, the infinities included. -/
theorem compare?_rank (hx : x.isNaN = false) (hy : y.isNaN = false) :
    compare? x y = some (compare x.rank y.rank) := by
  rcases x with ⟨n₁, c₁, e₁⟩ | (_ | _) | _ <;> rcases y with ⟨n₂, c₂, e₂⟩ | (_ | _) | _
  case nan | nan | nan | nan => cases hy
  all_goals try cases hx
  · exact (compare?_eq ..).trans (congrArg some (compare_coe _ _).symm)
  · exact congrArg some (compare_coe_top _).symm
  · exact congrArg some (compare_coe_bot _).symm
  · exact congrArg some (compare_top_coe _).symm
  · exact congrArg some (compare_eq_iff_eq.mpr rfl).symm
  · exact congrArg some (compare_coe_bot _).symm
  · exact congrArg some (compare_bot_coe _).symm
  · exact congrArg some (compare_bot_coe _).symm
  · exact congrArg some (compare_eq_iff_eq.mpr rfl).symm

theorem isSignaling_of_isNaN (hx : x.isNaN = false) : x.isSignaling = false := by
  cases x with
  | nan => cases hx
  | finite | infinite => rfl

theorem equal_rank (hx : x.isNaN = false) (hy : y.isNaN = false) :
    equal x y = .ok (decide (x.rank = y.rank)) := by
  simp [equal, isSignaling_of_isNaN hx, isSignaling_of_isNaN hy, compare?_rank hx hy]

theorem less_rank (hx : x.isNaN = false) (hy : y.isNaN = false) :
    less x y = .ok (decide (x.rank < y.rank)) := by
  simp [less, compare?_rank hx hy, compare_lt_iff_lt]

/-- Numbers at one place equal the same numbers, and a not-a-number does not tell them apart. -/
theorem equal_congr (w : Decimal) (hx : x.isNaN = false) (hy : y.isNaN = false)
    (hxy : x.rank = y.rank) : equal w x = equal w y := by
  cases w with
  | nan neg s p => simp [equal, compare?, isSignaling_of_isNaN hx, isSignaling_of_isNaN hy]
  | finite | infinite => rw [equal_rank rfl hx, equal_rank rfl hy, hxy]

end Ranks

end Scriptlet.Decimal
