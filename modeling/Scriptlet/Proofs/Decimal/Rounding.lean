import Mathlib.Tactic.SplitIfs
import Scriptlet.Decimal.Arithmetic

/-! # Results of arithmetic on finite numbers

Rounding gives a finite number or overflows, and nothing else can happen in arithmetic on finite
numbers, except that a remainder whose quotient has too many digits is refused. A number overflows
only if it has more digits in front of the point than exponents count (`round_ne_overflow`). -/

namespace Scriptlet.Decimal

/-- Whether a result is a finite number or an overflow. -/
def IsRounded (r : Except Signal Decimal) : Prop :=
  (∃ neg c e, r = .ok (.finite neg c e)) ∨ r = .error .overflow

theorem isRounded_round (f : Format) (neg : Bool) (c : Nat) (e : Int) :
    IsRounded (round f neg c e) := by
  unfold round
  dsimp only
  split_ifs
  · exact Or.inl ⟨_, _, _, rfl⟩
  · exact Or.inr rfl
  · exact Or.inl ⟨_, _, _, rfl⟩
  · exact Or.inr rfl
  · exact Or.inl ⟨_, _, _, rfl⟩
  · exact Or.inr rfl
  · exact Or.inl ⟨_, _, _, rfl⟩

variable {f : Format} {n₁ n₂ : Bool} {c₁ c₂ : Nat} {e₁ e₂ : Int}

theorem isRounded_add : IsRounded (add f (.finite n₁ c₁ e₁) (.finite n₂ c₂ e₂)) := by
  simp only [add, spread?, Option.getD_none, addNumbers]
  exact isRounded_round ..

theorem isRounded_sub : IsRounded (sub f (.finite n₁ c₁ e₁) (.finite n₂ c₂ e₂)) := by
  simp only [sub, spread?, Option.getD_none, flip, addNumbers]
  exact isRounded_round ..

theorem isRounded_mul : IsRounded (mul f (.finite n₁ c₁ e₁) (.finite n₂ c₂ e₂)) := by
  simp only [mul, spread?, Option.getD_none, mulNumbers]
  exact isRounded_round ..

theorem isRounded_div (hc : c₂ ≠ 0) :
    IsRounded (div f (.finite n₁ c₁ e₁) (.finite n₂ c₂ e₂)) := by
  simp only [div, spread?, Option.getD_none, divNumbers, if_neg hc]
  split_ifs
  · exact isRounded_round ..
  · exact isRounded_round ..

theorem rem_cases (hc : c₂ ≠ 0) :
    IsRounded (rem f (.finite n₁ c₁ e₁) (.finite n₂ c₂ e₂)) ∨
      rem f (.finite n₁ c₁ e₁) (.finite n₂ c₂ e₂) = .error .divisionImpossible := by
  simp only [rem, spread?, Option.getD_none, remNumbers, if_neg hc]
  split_ifs
  · exact Or.inl (isRounded_round ..)
  · exact Or.inl (isRounded_round ..)
  · exact Or.inr rfl
  · exact Or.inl (isRounded_round ..)
  · exact Or.inr rfl

/-! ### Comparisons of finite numbers -/

/-- Finite numbers are always comparable. -/
theorem compare?_finite (n₁ : Bool) (c₁ : Nat) (e₁ : Int) (n₂ : Bool) (c₂ : Nat) (e₂ : Int) :
    ∃ o, compare? (.finite n₁ c₁ e₁) (.finite n₂ c₂ e₂) = some o := by
  simp only [compare?]
  split_ifs
  · exact ⟨_, rfl⟩
  · split <;> exact ⟨_, rfl⟩

theorem less_finite (n₁ : Bool) (c₁ : Nat) (e₁ : Int) (n₂ : Bool) (c₂ : Nat) (e₂ : Int) :
    ∃ b, less (.finite n₁ c₁ e₁) (.finite n₂ c₂ e₂) = .ok b := by
  obtain ⟨o, ho⟩ := compare?_finite n₁ c₁ e₁ n₂ c₂ e₂
  exact ⟨_, by rw [less, ho]⟩

/-- A finite number equals zero exactly if its coefficient is zero. -/
theorem equal_zero (neg : Bool) (c : Nat) (e : Int) :
    equal (.finite neg c e) (.ofInt 0) = .ok (decide (c = 0)) := by
  have hcmp : (compare? (.finite neg c e) (.ofInt 0) = some .eq) ↔ c = 0 := by
    by_cases hc : c = 0
    · simp [compare?, ofInt, hc]
    · cases neg <;> simp [compare?, ofInt, hc, compareMagnitude]
  rw [equal]
  simpa [isSignaling, ofInt] using hcmp

/-! ### Digits of a coefficient -/

theorem tenTo_le_tenTo {j k : Nat} (h : j ≤ k) : tenTo j ≤ tenTo k :=
  Nat.pow_le_pow_right (by decide) h

theorem tenTo_topPower_le {n lo : Nat} (hlo : tenTo lo ≤ n) (fuel hi : Nat) :
    tenTo (topPower n fuel lo hi) ≤ n := by
  induction fuel generalizing lo hi with
  | zero => exact hlo
  | succ fuel ih =>
    rw [topPower]
    dsimp only
    split_ifs with hclose hmid
    · exact hlo
    · exact ih hmid hi
    · exact ih hlo _

/-- A bound on one power bounds all powers in the same ratio. -/
theorem pow_le_pow_of_ratio {x y a b k l : Nat} (hx : 0 < x) (hratio : x.pow a ≤ y.pow b)
    (hb : b ≠ 0) (hkl : k * b ≤ a * l) : x.pow k ≤ y.pow l := by
  have hpow : (x ^ k) ^ b ≤ (y ^ l) ^ b :=
    calc (x ^ k) ^ b
      _ = x ^ (k * b) := (Nat.pow_mul x k b).symm
      _ ≤ x ^ (a * l) := Nat.pow_le_pow_right hx hkl
      _ = (x ^ a) ^ l := Nat.pow_mul x a l
      _ ≤ (y ^ b) ^ l := Nat.pow_le_pow_left hratio l
      _ = (y ^ l) ^ b := by rw [← Nat.pow_mul, ← Nat.pow_mul, Nat.mul_comm]
  exact (Nat.pow_le_pow_iff_left hb).mp hpow

/-- The search for the first digit starts below it. -/
theorem tenTo_log2_le {n : Nat} (hn : n ≠ 0) : tenTo (n.log2 * 3010 / 10000) ≤ n := by
  have hle : tenTo (n.log2 * 3010 / 10000) ≤ twoTo n.log2 :=
    pow_le_pow_of_ratio (a := 301) (b := 1000) (by decide) (by decide +kernel) (by decide)
      (by omega)
  exact Nat.le_trans hle (Nat.log2_self_le hn)

theorem digitCount_le {n k : Nat} (hk : 0 < k) (hn : n < tenTo k) : digitCount n ≤ k := by
  unfold digitCount
  split_ifs with hzero
  · exact hk
  · have hle := tenTo_topPower_le (tenTo_log2_le hzero) (n.log2 + 1)
      ((n.log2 + 1) * 3011 / 10000 + 1)
    exact Nat.succ_le_of_lt ((Nat.pow_lt_pow_iff_right (by decide)).mp (Nat.lt_of_le_of_lt hle hn))

/-! ### Overflow -/

/-- Rounding off gives at most a power of ten if a power of ten bounds the coefficient. -/
theorem roundOff_le {c k : Nat} (hc : c < tenTo k) (j : Nat) : roundOff c j ≤ tenTo (k - j) := by
  have hquotient : c / tenTo j < tenTo (k - j) := by
    refine Nat.div_lt_of_lt_mul (Nat.lt_of_lt_of_le hc ?_)
    calc tenTo k
      _ ≤ tenTo (j + (k - j)) := tenTo_le_tenTo (by omega)
      _ = tenTo j * tenTo (k - j) := Nat.pow_add 10 j (k - j)
  unfold roundOff
  dsimp only
  split_ifs <;> omega

/-- **A number below the largest power of ten does not overflow.** -/
theorem round_ne_overflow {neg : Bool} {c k : Nat} {e : Int} (hc : c < tenTo k) (hk : 0 < k)
    (he : e + k ≤ 999999) : round .working neg c e ≠ .error .overflow := by
  have hcount := digitCount_le hk hc
  have hdigits {n i : Nat} (hn : n ≤ tenTo i) : digitCount n ≤ i + 1 := by
    refine digitCount_le (Nat.succ_pos i) (Nat.lt_of_le_of_lt hn ?_)
    exact Nat.pow_lt_pow_right (by decide) (Nat.lt_succ_self i)
  intro hover
  unfold round at hover
  dsimp only at hover
  split_ifs at hover with _ hlarge _ hcarry hsum hsum
  all_goals simp only [Format.working, Format.lastPlace] at *
  · omega
  -- the place of the last digit that is kept, and the digits that are lost
  all_goals
    generalize hplace : max (e + digitCount c - 28) (-999999 - 28 + 1) = place at *
    generalize hlost : (place - e).toNat = lost at *
    have hq := roundOff_le hc lost
    generalize roundOff c lost = q at *
    have hqdigits := hdigits hq
  · have hshort : q / 10 ≤ tenTo (k - lost - 1) := by
      rw [show k - lost = k - lost - 1 + 1 by omega, tenTo_succ] at hq
      omega
    have hshortdigits := hdigits hshort
    omega
  · omega

end Scriptlet.Decimal
