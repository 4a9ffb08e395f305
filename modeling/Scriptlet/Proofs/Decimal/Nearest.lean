import Mathlib.Algebra.Order.Floor.Ring
import Scriptlet.Proofs.Decimal.Magnitudes

/-! # Nearest numbers

What a result of arithmetic is rounded to: the nearest number that keeps no digit after the last
place, and of two the one whose last digit is even. The last place is given by the number of digits
or, for tiny numbers, by the format.

* `Format.nearest`: the number that another one is rounded to.
* `Gap.nearest_eq`: all numbers between two multiples of five units at a place that is not kept are
  rounded to the same number.
* `round_roundsTo`: rounding gives the nearest number, or overflows if that is too large. -/

namespace Scriptlet.Decimal

/-! ### Nearest integers -/

/-- The nearest integer, and of two the even one. -/
def halfEven (x : ℚ) : ℤ :=
  if 2 * Int.fract x < 1 then ⌊x⌋ else if 1 < 2 * Int.fract x then ⌊x⌋ + 1 else ⌊x⌋ + ⌊x⌋ % 2

/-- Whether an integer is nearest to a number, and even if another one is as near. -/
def IsHalfEven (x : ℚ) (n : ℤ) : Prop :=
  |x - n| < 1 / 2 ∨ |x - n| = 1 / 2 ∧ Even n

namespace IsHalfEven

variable {x : ℚ} {m n : ℤ}

theorem bounds (h : IsHalfEven x n) : n - 1 / 2 ≤ x ∧ x ≤ n + 1 / 2 := by
  have hle : |x - n| ≤ 1 / 2 := h.elim le_of_lt fun h => h.1.le
  obtain ⟨hlow, hhigh⟩ := abs_le.mp hle
  exact ⟨by linarith, by linarith⟩

/-- Two nearest integers would be one apart, and both even. -/
theorem le (hm : IsHalfEven x m) (hn : IsHalfEven x n) : m ≤ n := by
  by_contra hlt
  obtain ⟨hlow, -⟩ := hm.bounds
  obtain ⟨-, hhigh⟩ := hn.bounds
  have hnext : m ≤ n + 1 := by
    have : (m : ℚ) ≤ n + 1 := by linarith
    exact_mod_cast this
  obtain rfl : m = n + 1 := by omega
  push_cast at hlow
  obtain rfl : x = n + 1 / 2 := by linarith
  have hn2 : Even n := (hn.resolve_left (by simp)).2
  have hm2 : Even (n + 1) := by
    refine (hm.resolve_left ?_).2
    rw [show ((n : ℚ) + 1 / 2 - ((n + 1 : ℤ) : ℚ)) = -(1 / 2) by push_cast; ring, abs_neg]
    norm_num
  rw [Int.even_iff] at hn2 hm2
  omega

theorem eq (hm : IsHalfEven x m) (hn : IsHalfEven x n) : m = n :=
  le_antisymm (hm.le hn) (hn.le hm)

end IsHalfEven

theorem isHalfEven_halfEven (x : ℚ) : IsHalfEven x (halfEven x) := by
  have hx := Int.floor_add_fract x
  have hnonneg := Int.fract_nonneg x
  have hlt := Int.fract_lt_one x
  unfold halfEven
  split_ifs with hlow hhigh
  · exact Or.inl (abs_lt.mpr ⟨by linarith, by linarith⟩)
  · exact Or.inl (abs_lt.mpr ⟨by push_cast; linarith, by push_cast; linarith⟩)
  · have htie : x = ⌊x⌋ + 1 / 2 := by linarith
    refine Or.inr ⟨?_, Int.even_iff.mpr (by omega)⟩
    rcases Int.emod_two_eq_zero_or_one ⌊x⌋ with hmod | hmod
    · rw [hmod, Int.add_zero, abs_of_nonneg (by linarith)]
      linarith
    · rw [hmod, Int.cast_add, Int.cast_one, abs_of_nonpos (by linarith)]
      linarith

/-- **There is one nearest integer.** -/
theorem halfEven_eq_iff {x : ℚ} {n : ℤ} : halfEven x = n ↔ IsHalfEven x n :=
  ⟨fun h => h ▸ isHalfEven_halfEven x, (isHalfEven_halfEven x).eq⟩

theorem halfEven_of_lt {x : ℚ} {n : ℤ} (hlow : n - 1 / 2 < x) (hhigh : x < n + 1 / 2) :
    halfEven x = n :=
  halfEven_eq_iff.mpr (Or.inl (abs_lt.mpr ⟨by linarith, by linarith⟩))

@[simp]
theorem halfEven_intCast (n : ℤ) : halfEven n = n :=
  halfEven_of_lt (by linarith) (by linarith)

theorem halfEven_neg (x : ℚ) : halfEven (-x) = -halfEven x := by
  rw [halfEven_eq_iff, IsHalfEven, Int.cast_neg, show -x - -(halfEven x : ℚ) =
    -(x - halfEven x) by ring, abs_neg, even_neg]
  exact isHalfEven_halfEven x

theorem le_halfEven {x : ℚ} {n : ℤ} (h : (n : ℚ) ≤ x) : n ≤ halfEven x := by
  have hhigh := (isHalfEven_halfEven x).bounds.2
  have hlt : (n : ℚ) < halfEven x + 1 := by linarith
  exact Int.lt_add_one_iff.mp (by exact_mod_cast hlt)

theorem halfEven_le {x : ℚ} {n : ℤ} (h : x ≤ n) : halfEven x ≤ n := by
  have hlow := (isHalfEven_halfEven x).bounds.1
  have hlt : (halfEven x : ℚ) < n + 1 := by linarith
  exact Int.lt_add_one_iff.mp (by exact_mod_cast hlt)

/-- A half below an even integer is rounded up to it. -/
theorem le_halfEven_iff {x : ℚ} {n : ℤ} (hn : Even n) : n ≤ halfEven x ↔ (n : ℚ) - 1 / 2 ≤ x := by
  have hround := isHalfEven_halfEven x
  obtain ⟨hlow, hhigh⟩ := hround.bounds
  constructor
  · intro hle
    have hcast : (n : ℚ) ≤ halfEven x := by exact_mod_cast hle
    linarith
  · intro hx
    by_contra hlt
    have hcast : (halfEven x : ℚ) + 1 ≤ n := by exact_mod_cast not_le.mp hlt
    have hdist : x - halfEven x = 1 / 2 := by linarith
    have hnext : n = halfEven x + 1 := by
      have : (n : ℚ) = halfEven x + 1 := by linarith
      exact_mod_cast this
    have heven : Even (halfEven x) := (hround.resolve_left (by rw [hdist]; norm_num)).2
    rw [Int.even_iff] at hn heven
    omega

/-! ### Nearest numbers of a format -/

namespace Format

variable (f : Format)

/-- The place of the last digit that a number keeps. -/
def place (x : ℚ) : ℤ :=
  if |x| < 10 ^ f.minExponent then f.lastPlace else Int.log 10 |x| - f.digits + 1

/-- The nearest number with no digit after the last place, and of two the one whose last digit is
even. -/
def nearest (x : ℚ) : ℚ :=
  halfEven (x / 10 ^ f.place x) * 10 ^ f.place x

/-- Whether there is a digit to keep, and small numbers do not overflow. -/
structure IsSound : Prop where
  digits_pos : 0 < f.digits
  lastPlace_le : f.lastPlace ≤ f.maxExponent

/-- Whether a coefficient and an exponent fit into a format. -/
structure Holds (c : ℕ) (e : ℤ) : Prop where
  short : c < tenTo f.digits
  lastPlace_le : f.lastPlace ≤ e
  le_maxExponent : e + digitCount c - 1 ≤ f.maxExponent

theorem isSound_working : working.IsSound :=
  ⟨by decide, by decide⟩

theorem place_neg (x : ℚ) : f.place (-x) = f.place x := by
  rw [place, abs_neg, ← place]

theorem nearest_neg (x : ℚ) : f.nearest (-x) = -f.nearest x := by
  rw [nearest, place_neg, neg_div, halfEven_neg, Int.cast_neg, neg_mul, ← nearest]

@[simp]
theorem nearest_zero : f.nearest 0 = 0 := by
  have h : halfEven 0 = 0 := halfEven_intCast 0
  rw [nearest, zero_div, h, Int.cast_zero, zero_mul]

theorem nearest_signed (neg : Bool) (c : ℕ) (e : ℤ) : f.nearest (finite neg c e).value =
    if neg then -f.nearest (c * 10 ^ e) else f.nearest (c * 10 ^ e) := by
  cases neg
  · simp [value, signed]
  · simp [value, signed, nearest_neg]

theorem nearest_nonneg {x : ℚ} (h : 0 ≤ x) : 0 ≤ f.nearest x := by
  have hpos := ten_zpow_pos (f.place x)
  have hround : 0 ≤ halfEven (x / 10 ^ f.place x) := le_halfEven (by push_cast; positivity)
  exact mul_nonneg (by exact_mod_cast hround) hpos.le

theorem abs_nearest_value (neg : Bool) (c : ℕ) (e : ℤ) :
    |f.nearest (finite neg c e).value| = f.nearest (c * 10 ^ e) := by
  have hnonneg : 0 ≤ f.nearest (c * 10 ^ e) :=
    f.nearest_nonneg (mul_nonneg c.cast_nonneg (ten_zpow_pos e).le)
  rw [nearest_signed]
  split_ifs
  · rw [abs_neg, abs_of_nonneg hnonneg]
  · rw [abs_of_nonneg hnonneg]

variable {f}

/-- The place of a number is that of its last digit or the last one of the format. -/
theorem place_scaled {c : ℕ} (hc : c ≠ 0) (e : ℤ) :
    f.place (c * 10 ^ e) = max (e + digitCount c - f.digits) f.lastPlace := by
  have hpos : (0 : ℚ) < c * 10 ^ e :=
    mul_pos (by exact_mod_cast Nat.pos_of_ne_zero hc) (ten_zpow_pos e)
  rw [place, abs_of_pos hpos, log_scaled hc]
  split_ifs with htiny
  · rw [← not_le, zpow_le_scaled_iff hc] at htiny
    rw [max_eq_right]
    rw [lastPlace]
    omega
  · rw [not_lt, zpow_le_scaled_iff hc] at htiny
    rw [max_eq_left]
    · omega
    · rw [lastPlace]
      omega

/-- A number without digits after the last place is nearest to itself. -/
theorem nearest_of_exact {x : ℚ} {n : ℤ} (h : x = n * 10 ^ f.place x) : f.nearest x = x := by
  have hdiv : x / 10 ^ f.place x = n := by
    rw [div_eq_iff (ten_zpow_pos _).ne']
    exact h
  rw [nearest, hdiv, halfEven_intCast, ← h]

theorem nearest_of_place_le {c : ℕ} {e : ℤ} (h : f.place (c * 10 ^ e) ≤ e) :
    f.nearest (c * 10 ^ e) = c * 10 ^ e := by
  refine nearest_of_exact (n := (c * tenTo (e - f.place (c * 10 ^ e)).toNat : ℕ)) ?_
  rw [Int.cast_natCast, scale_value c h]

/-- Numbers of a format are nearest to themselves. -/
theorem nearest_of_holds {c : ℕ} {e : ℤ} (hf : f.IsSound) (h : f.Holds c e) (neg : Bool) :
    f.nearest (finite neg c e).value = (finite neg c e).value := by
  have hmagnitude : f.nearest (c * 10 ^ e) = c * 10 ^ e := by
    by_cases hc : c = 0
    · simp [hc]
    · have hcount := digitCount_le hf.digits_pos h.short
      have hlast := h.lastPlace_le
      refine nearest_of_place_le ?_
      rw [place_scaled hc]
      omega
  rw [nearest_signed, hmagnitude]
  cases neg <;> simp [value, signed]

/-- A power of ten in units of a place. -/
theorem zpow_eq_mul {p k : ℤ} (h : p ≤ k) : (10 : ℚ) ^ k = (tenTo (k - p).toNat : ℤ) * 10 ^ p := by
  rw [Int.cast_natCast, cast_tenTo (by omega), ← zpow_add₀ (by norm_num), sub_add_cancel]

/-- The place of a number is not before its leading digit, unless it is the last one. -/
theorem place_le {x : ℚ} {k : ℤ} (hf : 0 < f.digits) (hk : f.lastPlace ≤ k) (hx : 0 < x)
    (hlog : Int.log 10 x ≤ k) : f.place x ≤ k := by
  rw [place, abs_of_pos hx]
  split_ifs
  · exact hk
  · omega

/-- Numbers that are no less than a power of ten are not rounded below it. -/
theorem zpow_le_nearest {x : ℚ} {k : ℤ} (hf : 0 < f.digits) (hk : f.lastPlace ≤ k)
    (hx : (10 : ℚ) ^ k ≤ x) : 10 ^ k ≤ f.nearest x := by
  have hpos : 0 < x := (ten_zpow_pos k).trans_le hx
  have hlog : k ≤ Int.log 10 x := (le_log_iff hpos).mpr hx
  have hlead : (10 : ℚ) ^ Int.log 10 x ≤ x := (le_log_iff hpos).mp le_rfl
  have hplace : f.place x ≤ Int.log 10 x := place_le hf (by omega) hpos le_rfl
  refine (zpow_le_zpow_right₀ (by norm_num) hlog).trans ?_
  rw [zpow_eq_mul hplace] at hlead ⊢
  rw [← le_div_iff₀ (ten_zpow_pos _)] at hlead
  exact mul_le_mul_of_nonneg_right (by exact_mod_cast le_halfEven hlead) (ten_zpow_pos _).le

/-- Numbers that are no greater than a power of ten are not rounded above it. -/
theorem nearest_le_zpow {x : ℚ} {k : ℤ} (hf : 0 < f.digits) (hk : f.lastPlace ≤ k)
    (hnonneg : 0 ≤ x) (hx : x ≤ 10 ^ k) : f.nearest x ≤ 10 ^ k := by
  rcases hnonneg.eq_or_lt with rfl | hpos
  · rw [nearest_zero]
    exact (ten_zpow_pos k).le
  have hlog : Int.log 10 x ≤ k := by
    have hlead : (10 : ℚ) ^ Int.log 10 x ≤ 10 ^ k := ((le_log_iff hpos).mp le_rfl).trans hx
    exact (zpow_le_zpow_iff_right₀ (by norm_num)).mp hlead
  rw [zpow_eq_mul (place_le hf hk hpos hlog)] at hx ⊢
  rw [← div_le_iff₀ (ten_zpow_pos _)] at hx
  exact mul_le_mul_of_nonneg_right (by exact_mod_cast halfEven_le hx) (ten_zpow_pos _).le

end Format

/-! ### Numbers that are rounded alike -/

/-- Whether a number lies between two neighbouring multiples of five units at a place, and above
all zeros. -/
structure Gap (p : ℤ) (a : ℕ) (x : ℚ) : Prop where
  pos : 0 < a
  low : a * (5 * 10 ^ p) < x
  high : x < (a + 1) * (5 * 10 ^ p)

namespace Gap

variable {f : Format} {p : ℤ} {a : ℕ} {x y : ℚ}

theorem unit_pos (p : ℤ) : (0 : ℚ) < 5 * 10 ^ p :=
  mul_pos (by norm_num) (ten_zpow_pos p)

theorem number_pos (hx : Gap p a x) : 0 < x :=
  lt_of_le_of_lt (mul_nonneg a.cast_nonneg (unit_pos p).le) hx.low

theorem mul_lt (hx : Gap p a x) {m : ℤ} (h : m ≤ a) : m * (5 * 10 ^ p) < x := by
  have hcast : (m : ℚ) ≤ a := by exact_mod_cast h
  exact (mul_le_mul_of_nonneg_right hcast (unit_pos p).le).trans_lt hx.low

theorem lt_mul (hx : Gap p a x) {m : ℤ} (h : a < m) : x < m * (5 * 10 ^ p) := by
  have hcast : (a : ℚ) + 1 ≤ m := by exact_mod_cast h
  exact hx.high.trans_le (mul_le_mul_of_nonneg_right hcast (unit_pos p).le)

theorem mul_le_iff (hx : Gap p a x) {m : ℤ} : m * (5 * 10 ^ p) ≤ x ↔ m ≤ a :=
  ⟨fun h => not_lt.mp fun hlt => (hx.lt_mul hlt).not_ge h, fun h => (hx.mul_lt h).le⟩

theorem le_mul_iff (hx : Gap p a x) {m : ℤ} : x ≤ m * (5 * 10 ^ p) ↔ a < m :=
  ⟨fun h => not_le.mp fun hle => (hx.mul_lt hle).not_ge h, fun h => (hx.lt_mul h).le⟩

/-- A half at a place that is kept is a multiple of five units. -/
theorem half_zpow {r : ℤ} (hr : p < r) :
    (10 : ℚ) ^ r / 2 = (tenTo (r - p - 1).toNat : ℤ) * (5 * 10 ^ p) := by
  rw [Int.cast_natCast, cast_tenTo (by omega), show r = (r - p - 1) + 1 + p by omega]
  simp only [zpow_add₀ (show (10 : ℚ) ≠ 0 by norm_num), add_sub_cancel_right]
  ring

theorem zpow_le_iff (hx : Gap p a x) (hy : Gap p a y) {k : ℤ} : (10 : ℚ) ^ k ≤ x ↔ 10 ^ k ≤ y := by
  by_cases hk : k ≤ p
  · have hle {z : ℚ} (hz : Gap p a z) : (10 : ℚ) ^ k ≤ z := by
      have ha : (1 : ℚ) ≤ a := by exact_mod_cast hz.pos
      have hunit := unit_pos p
      calc (10 : ℚ) ^ k
        _ ≤ 10 ^ p := zpow_le_zpow_right₀ (by norm_num) hk
        _ ≤ 1 * (5 * 10 ^ p) := by linarith
        _ ≤ a * (5 * 10 ^ p) := mul_le_mul_of_nonneg_right ha hunit.le
        _ ≤ z := hz.low.le
    exact iff_of_true (hle hx) (hle hy)
  · have hsplit : (10 : ℚ) ^ k = (2 * tenTo (k - p - 1).toNat : ℤ) * (5 * 10 ^ p) := by
      rw [Int.cast_mul, mul_assoc, ← half_zpow (not_le.mp hk)]
      push_cast
      ring
    rw [hsplit, hx.mul_le_iff, hy.mul_le_iff]

theorem place_eq (hx : Gap p a x) (hy : Gap p a y) : f.place x = f.place y := by
  have hlog : Int.log 10 x = Int.log 10 y := by
    refine eq_of_forall_le_iff fun k => ?_
    rw [le_log_iff hx.number_pos, le_log_iff hy.number_pos, hx.zpow_le_iff hy]
  have htiny : x < 10 ^ f.minExponent ↔ y < 10 ^ f.minExponent := by
    rw [← not_le, ← not_le, hx.zpow_le_iff hy]
  simp only [Format.place, abs_of_pos hx.number_pos, abs_of_pos hy.number_pos, hlog, htiny]

theorem halfEven_eq (hx : Gap p a x) (hy : Gap p a y) {r : ℤ} (hr : p < r) :
    halfEven (x / 10 ^ r) = halfEven (y / 10 ^ r) := by
  have hpos := ten_zpow_pos r
  have hhalf := half_zpow hr
  obtain ⟨hlow, hhigh⟩ := (isHalfEven_halfEven (x / 10 ^ r)).bounds
  rw [le_div_iff₀ hpos] at hlow
  rw [div_le_iff₀ hpos] at hhigh
  generalize halfEven (x / 10 ^ r) = n at *
  have hbelow : (n - 1 / 2 : ℚ) * 10 ^ r =
      ((2 * n - 1) * tenTo (r - p - 1).toNat : ℤ) * (5 * 10 ^ p) := by
    rw [Int.cast_mul, mul_assoc, ← hhalf]
    push_cast
    ring
  have habove : (n + 1 / 2 : ℚ) * 10 ^ r =
      ((2 * n + 1) * tenTo (r - p - 1).toNat : ℤ) * (5 * 10 ^ p) := by
    rw [Int.cast_mul, mul_assoc, ← hhalf]
    push_cast
    ring
  rw [hbelow, hx.mul_le_iff] at hlow
  rw [habove, hx.le_mul_iff] at hhigh
  -- the bounds are multiples of five units, so that no number of the gap is a tie
  refine (halfEven_of_lt ?_ ?_).symm
  · rw [lt_div_iff₀ hpos, hbelow]
    exact hy.mul_lt hlow
  · rw [div_lt_iff₀ hpos, habove]
    exact hy.lt_mul hhigh

/-- **Numbers in a gap at a place that is not kept are rounded to the same number.** -/
theorem nearest_eq (hx : Gap p a x) (hy : Gap p a y) (hp : p < f.place x) :
    f.nearest x = f.nearest y := by
  rw [Format.nearest, Format.nearest, ← hx.place_eq hy, hx.halfEven_eq hy hp]

end Gap

/-! ### Rounding -/

/-- Digits are rounded off to the nearest integer. -/
theorem roundOff_eq (c k : ℕ) : (roundOff c k : ℤ) = halfEven (c / tenTo k) := by
  have hpos : (0 : ℚ) < tenTo k := by exact_mod_cast tenTo_pos k
  unfold roundOff
  dsimp only
  by_cases hshort : digitCount c < k
  · rw [if_pos hshort]
    have hsmall : 10 * c < tenTo k :=
      calc 10 * c
        _ < 10 * tenTo (digitCount c) :=
          Nat.mul_lt_mul_of_pos_left (lt_tenTo_digitCount c) (by decide)
        _ = tenTo (digitCount c + 1) := by rw [tenTo_succ, Nat.mul_comm]
        _ ≤ tenTo k := tenTo_le_tenTo hshort
    have htenth : (c : ℚ) / tenTo k < 1 / 10 := by
      rw [div_lt_div_iff₀ hpos (by norm_num)]
      exact_mod_cast by omega
    have hnonneg : (0 : ℚ) ≤ c / tenTo k := by positivity
    exact (halfEven_of_lt (by push_cast; linarith) (by push_cast; linarith)).symm
  · have hfloor : ⌊(c : ℚ) / tenTo k⌋ = ((c / tenTo k : ℕ) : ℤ) :=
      Rat.floor_intCast_div_natCast c (tenTo k)
    have hbelow : 2 * (((c % tenTo k : ℕ) : ℚ) / tenTo k) < 1 ↔ 2 * (c % tenTo k) < tenTo k := by
      rw [← mul_div_assoc, div_lt_one hpos]
      exact_mod_cast Iff.rfl
    have habove : 1 < 2 * (((c % tenTo k : ℕ) : ℚ) / tenTo k) ↔ tenTo k < 2 * (c % tenTo k) := by
      rw [← mul_div_assoc, one_lt_div hpos]
      exact_mod_cast Iff.rfl
    rw [if_neg hshort, halfEven, hfloor, Int.fract_div_natCast_eq_div_natCast_mod]
    simp only [hbelow, habove]
    split_ifs <;> push_cast <;> rfl

section Rounding

variable {f : Format} {c : ℕ} {e : ℤ}

theorem nearest_scaled (h : e ≤ f.place (c * 10 ^ e)) : f.nearest (c * 10 ^ e) =
    (roundOff c (f.place (c * 10 ^ e) - e).toNat : ℕ) * 10 ^ f.place (c * 10 ^ e) := by
  generalize hp : f.place (c * 10 ^ e) = p at *
  have hdiv : (c : ℚ) * 10 ^ e / 10 ^ p = c / tenTo (p - e).toNat := by
    rw [cast_tenTo (by omega), zpow_sub₀ (by norm_num), div_div_eq_mul_div]
  rw [Format.nearest, hp, hdiv, ← roundOff_eq, Int.cast_natCast]

/-- A number overflows if its leading digit is too far to the left. -/
theorem overflows_iff (he : c = 0 → e ≤ f.maxExponent) :
    f.maxExponent < e + digitCount c - 1 ↔ (10 : ℚ) ^ (f.maxExponent + 1) ≤ c * 10 ^ e := by
  by_cases hc : c = 0
  · subst hc
    have hcount : digitCount 0 = 1 := rfl
    have hpos := ten_zpow_pos (f.maxExponent + 1)
    have := he rfl
    rw [hcount, Nat.cast_zero, zero_mul]
    exact iff_of_false (by omega) (not_le.mpr hpos)
  · rw [zpow_le_scaled_iff hc]
    omega

/-- A coefficient that has become a power of ten gives up its last digit, which is zero. -/
theorem exists_carried {d q : ℕ} (p : ℤ) (hd : 0 < d) (hq : q ≤ tenTo d) :
    ∃ q' p', (if digitCount q = d + 1 then (q / 10, p + 1) else (q, p)) = (q', p') ∧
      q' < tenTo d ∧ (q' : ℚ) * 10 ^ p' = q * 10 ^ p ∧ p ≤ p' ∧ (q' = 0 → p' = p) := by
  by_cases hcarry : digitCount q = d + 1
  · obtain ⟨k, rfl⟩ := Nat.exists_eq_succ_of_ne_zero hd.ne'
    have hle : tenTo (k + 1) ≤ q := by
      by_contra hlt
      have := digitCount_le hd (Nat.not_le.mp hlt)
      omega
    obtain rfl : q = tenTo (k + 1) := Nat.le_antisymm hq hle
    have hdiv : tenTo (k + 1) / 10 = tenTo k := Nat.mul_div_cancel _ (by decide)
    have hpos := tenTo_pos k
    refine ⟨tenTo k, p + 1, by rw [if_pos hcarry, hdiv], ?_, ?_, by omega, by omega⟩
    · rw [Nat.succ_eq_add_one, tenTo_succ]
      omega
    · rw [tenTo_succ, Nat.cast_mul, zpow_add₀ (by norm_num)]
      push_cast
      ring
  · refine ⟨q, p, if_neg hcarry, lt_of_le_of_ne hq fun h => hcarry ?_, rfl, le_rfl, fun _ => rfl⟩
    rw [h, digitCount_eq, tenTo, Nat.pow_eq, Nat.log_pow (by decide)]

/-- Whether a result is a number rounded to the nearest one of a format, or an overflow if that is
too large. -/
def RoundsTo (f : Format) (x : ℚ) (r : Except Signal Decimal) : Prop :=
  if 10 ^ (f.maxExponent + 1) ≤ |f.nearest x| then r = .error .overflow
  else ∃ neg c e, r = .ok (.finite neg c e) ∧ f.Holds c e ∧ (finite neg c e).value = f.nearest x

theorem roundsTo_overflow (neg : Bool)
    (h : (10 : ℚ) ^ (f.maxExponent + 1) ≤ f.nearest (c * 10 ^ e)) :
    RoundsTo f (finite neg c e).value (.error .overflow) := by
  have habs : (10 : ℚ) ^ (f.maxExponent + 1) ≤ |f.nearest (finite neg c e).value| := by
    rw [Format.abs_nearest_value]
    exact h
  rw [RoundsTo, if_pos habs]

theorem roundsTo_ok (neg : Bool) {c' : ℕ} {e' : ℤ} (hholds : f.Holds c' e')
    (h : (c' : ℚ) * 10 ^ e' = f.nearest (c * 10 ^ e)) :
    RoundsTo f (finite neg c e).value (.ok (.finite neg c' e')) := by
  have hcount := digitCount_pos c'
  have hsmall : ¬ (10 : ℚ) ^ (f.maxExponent + 1) ≤ |f.nearest (finite neg c e).value| := by
    rw [Format.abs_nearest_value, ← h, ← overflows_iff fun _ => ?_]
    · have := hholds.le_maxExponent
      omega
    · have := hholds.le_maxExponent
      omega
  rw [RoundsTo, if_neg hsmall]
  refine ⟨neg, c', e', rfl, hholds, ?_⟩
  rw [Format.nearest_signed, ← h]
  cases neg <;> simp [value, signed]

/-- **Numbers are rounded to the nearest one, or overflow.** -/
theorem round_roundsTo (hf : f.IsSound) (neg : Bool) (c : ℕ) (e : ℤ) :
    RoundsTo f (finite neg c e).value (round f neg c e) := by
  obtain ⟨hdigits, hlast⟩ := hf
  by_cases hc : c = 0
  · subst hc
    have hcount : digitCount 0 = 1 := rfl
    rw [round, if_pos rfl]
    refine roundsTo_ok neg ⟨tenTo_pos _, by omega, by omega⟩ ?_
    simp
  · have hplace := Format.place_scaled (f := f) hc e
    rw [round, if_neg hc, ← hplace]
    dsimp only
    by_cases hlarge : f.maxExponent < e + digitCount c - 1
    · rw [if_pos hlarge]
      refine roundsTo_overflow neg (Format.zpow_le_nearest hdigits (by omega) ?_)
      rwa [← overflows_iff (absurd · hc)]
    rw [if_neg hlarge]
    by_cases hexact : f.place (c * 10 ^ e) ≤ e
    · rw [if_pos hexact]
      refine roundsTo_ok neg ⟨?_, by omega, by omega⟩ (Format.nearest_of_place_le hexact).symm
      exact Nat.lt_of_lt_of_le (lt_tenTo_digitCount c) (tenTo_le_tenTo (by omega))
    · have hlost := nearest_scaled (f := f) (c := c) (not_le.mp hexact).le
      generalize f.place (c * 10 ^ e) = p at *
      have hq : roundOff c (p - e).toNat ≤ tenTo f.digits := by
        refine Nat.le_trans (roundOff_le (lt_tenTo_digitCount c) _) ?_
        exact tenTo_le_tenTo (by omega)
      obtain ⟨q, p', hcarried, hshort, hvalue, hp', hzero⟩ := exists_carried p hdigits hq
      have hover := overflows_iff (f := f) (c := q) (e := p') (by omega)
      rw [if_neg hexact, hcarried]
      dsimp only
      rw [← hvalue] at hlost
      split_ifs with hsum
      · exact roundsTo_overflow neg (hlost ▸ hover.mp hsum)
      · exact roundsTo_ok neg ⟨hshort, by omega, by omega⟩ hlost.symm

/-- Numbers of a format are not changed by rounding. -/
theorem round_of_holds (neg : Bool) (h : f.Holds c e) :
    round f neg c e = .ok (.finite neg c e) := by
  obtain ⟨hshort, hlast, hmax⟩ := h
  have hcount := digitCount_pos c
  rw [round]
  dsimp only
  split_ifs with hc hlarge hexact
  · rw [hc, max_eq_left hlast, min_eq_left (by omega)]
  · exact absurd hmax (by omega)
  · rfl
  all_goals
    have hdigits : 0 < f.digits := by
      by_contra hzero
      rw [Nat.eq_zero_of_not_pos hzero, tenTo_zero] at hshort
      omega
    have := digitCount_le hdigits hshort
    omega

end Rounding

end Scriptlet.Decimal
