import Scriptlet.Proofs.Decimal.Operations
import Scriptlet.Proofs.Value.Operators

/-! # Arithmetic on numbers

The numbers that values are, and what the operators compute with them: sums, differences, products
and quotients are exact up to one rounding, sums of integers are exact, and remainders obey the law
of division.

* `binary_exact`: the four operations on any finite numbers.
* `binary_remainder`: remainders of numbers with no more digits than decimals keep. -/

namespace Scriptlet.Value

open Decimal (Format)

/-- The number that a value is. -/
def toRat : Value → ℚ
  | .int n => n
  | .decimal d => d.value
  | _ => 0

theorem toRat_eq {v : Value} {d : Decimal} (h : v.number? = some d) : v.toRat = d.value := by
  cases v with
  | int n =>
    cases h
    exact (Decimal.value_ofInt n).symm
  | decimal d =>
    cases h
    rfl
  | _ => cases h

/-- Whether a value is a whole number. -/
def IsWhole (v : Value) (n : ℤ) : Prop :=
  v.IsFinite ∧ v.toRat = n

theorem integer?_eq_some_iff {v : Value} {n : ℤ} : v.integer? = some n ↔ v.IsWhole n := by
  unfold IsWhole
  cases v with
  | int m => simp [integer?, IsFinite, toRat]
  | decimal d =>
    cases d with
    | finite neg c e =>
      rw [toRat, ← Decimal.toInt_eq_iff, integer?, Option.ite_none_right_eq_some, Option.some_inj]
      exact (and_iff_right rfl).symm
    | infinite _ | nan => simp [integer?, IsFinite, Decimal.isFinite, Decimal.isIntegral]
  | _ => simp [integer?, IsFinite]

/-- Whether a value is an integer. -/
def IsInteger (v : Value) : Prop :=
  ∃ n, v = .int n

/-! ### Rounded results -/

/-- The exact results of the four basic operations. -/
inductive Exact : String → ℚ → ℚ → ℚ → Prop
  | sum (x y : ℚ) : Exact "+" x y (x + y)
  | difference (x y : ℚ) : Exact "-" x y (x - y)
  | product (x y : ℚ) : Exact "*" x y (x * y)
  | quotient (x : ℚ) {y : ℚ} (hy : y ≠ 0) : Exact "/" x y (x / y)

/-- Whether a result is the nearest number to another one, as a decimal of at most twenty-eight
digits, or an overflow if that is too large. -/
def RoundsTo (x : ℚ) (r : Except Failure Value) : Prop :=
  if 10 ^ (1000000 : ℤ) ≤ |Format.working.nearest x| then r = .error (.signal .overflow)
  else ∃ neg c e, r = .ok (.decimal (.finite neg c e)) ∧ Format.working.Holds c e ∧
    (Decimal.finite neg c e).value = Format.working.nearest x

theorem roundsTo_map {x : ℚ} {r : Except Decimal.Signal Decimal}
    (h : Decimal.RoundsTo .working x r) : RoundsTo x ((orSignal r).map .decimal) := by
  have hbound : Format.working.maxExponent + 1 = 1000000 := rfl
  rw [Decimal.RoundsTo, hbound] at h
  rw [RoundsTo]
  split_ifs at h ⊢ with hlarge
  · rw [h]
    rfl
  · obtain ⟨neg, c, e, rfl, hholds⟩ := h
    exact ⟨neg, c, e, rfl, hholds⟩

/-- Integers of at most twenty-eight digits are decimals, and so is the next power of ten. -/
theorem nearest_intCast {n : ℤ} (h : n.natAbs ≤ tenTo 28) : Format.working.nearest n = n := by
  obtain ⟨c, e, hholds, hvalue⟩ : ∃ c e, Format.working.Holds c e ∧
      (Decimal.finite (n < 0) c e).value = n := by
    rcases h.lt_or_eq with hlt | heq
    · have hcount := Decimal.digitCount_le (k := 28) (by decide) hlt
      exact ⟨n.natAbs, 0, ⟨hlt, by decide, by simp only [Format.working]; omega⟩,
        Decimal.value_ofInt n⟩
    · refine ⟨tenTo 27, 1, ⟨by decide +kernel, by decide, by decide +kernel⟩, ?_⟩
      rw [← Decimal.value_ofInt n, Decimal.ofInt, Decimal.value_eq_ite, Decimal.value_eq_ite, heq,
        tenTo_succ 27]
      simp
  rw [← hvalue]
  exact Decimal.Format.nearest_of_holds Format.isSound_working hholds _

section Operations

variable {h : Heap} {a b : Value}

/-- Sums with a decimal are rounded. -/
theorem sum_roundsTo (ha : a.IsFinite) (hb : b.IsFinite) (hint : ¬ (a.IsInteger ∧ b.IsInteger)) :
    RoundsTo (a.toRat + b.toRat) (sum h a b) := by
  obtain ⟨n₁, c₁, e₁, hx⟩ := ha.number
  obtain ⟨n₂, c₂, e₂, hy⟩ := hb.number
  have hsum : sum h a b =
      (orSignal (Decimal.add .working (.finite n₁ c₁ e₁) (.finite n₂ c₂ e₂))).map .decimal := by
    rcases ha.cases with ⟨m, rfl⟩ | ⟨m₁, d₁, g₁, rfl⟩ <;>
      rcases hb.cases with ⟨n, rfl⟩ | ⟨m₂, d₂, g₂, rfl⟩
    · exact absurd ⟨⟨m, rfl⟩, n, rfl⟩ hint
    all_goals
      cases hx
      cases hy
      rfl
  rw [hsum, toRat_eq hx, toRat_eq hy]
  exact roundsTo_map (Decimal.add_roundsTo Format.isSound_working ..)

/-- All results that are no sums of integers are rounded. -/
theorem binary_roundsTo (h : Heap) {op : String} {x : ℚ} (ha : a.IsFinite) (hb : b.IsFinite)
    (hx : Exact op a.toRat b.toRat x) (hint : ¬ (op = "+" ∧ a.IsInteger ∧ b.IsInteger)) :
    RoundsTo x (binary h op a b) := by
  obtain ⟨n₁, c₁, e₁, ha'⟩ := ha.number
  obtain ⟨n₂, c₂, e₂, hb'⟩ := hb.number
  cases hx with
  | sum => exact sum_roundsTo ha hb fun hab => hint ⟨rfl, hab⟩
  | difference =>
    have harith : binary h "-" a b = arithmetic "-" a b := rfl
    rw [harith, arithmetic_minus ha' hb', toRat_eq ha', toRat_eq hb']
    exact roundsTo_map (Decimal.sub_roundsTo Format.isSound_working ..)
  | product =>
    have harith : binary h "*" a b = arithmetic "*" a b := rfl
    rw [harith, arithmetic_times ha' hb', toRat_eq ha', toRat_eq hb']
    exact roundsTo_map (Decimal.mul_roundsTo Format.isSound_working ..)
  | quotient _ hy =>
    have harith : binary h "/" a b = arithmetic "/" a b := rfl
    rw [toRat_eq hb', Decimal.value_ne_zero_iff] at hy
    rw [harith, arithmetic_quotient ha' hb', if_neg hy, toRat_eq ha', toRat_eq hb']
    exact roundsTo_map (Decimal.div_roundsTo Format.isSound_working _ _ _ hy _ _)

/-- Results that are integers of at most twenty-eight digits are exact. -/
theorem RoundsTo.exact {n : ℤ} {r : Except Failure Value} (hr : RoundsTo n r)
    (hn : n.natAbs ≤ tenTo 28) :
    ∃ neg c e, r = .ok (.decimal (.finite neg c e)) ∧ (Decimal.finite neg c e).value = n := by
  have hsmall : ¬ (10 : ℚ) ^ (1000000 : ℤ) ≤ |(n : ℚ)| := by
    rw [not_le, ← Int.cast_abs, Int.abs_eq_natAbs, Int.cast_natCast]
    calc (n.natAbs : ℚ)
      _ ≤ tenTo 28 := by exact_mod_cast hn
      _ = 10 ^ (28 : ℤ) := Decimal.cast_tenTo (k := 28) (by decide)
      _ < 10 ^ (1000000 : ℤ) := zpow_lt_zpow_right₀ (by norm_num) (by decide)
  rw [RoundsTo, nearest_intCast hn, if_neg hsmall] at hr
  obtain ⟨neg, c, e, rfl, -, hvalue⟩ := hr
  exact ⟨neg, c, e, rfl, hvalue⟩

/-- **Arithmetic is exact up to one rounding.** Sums of integers are not rounded, and differences
and products of integers are exact as long as they have no more than twenty-eight digits. -/
theorem binary_exact (h : Heap) {op : String} {x : ℚ} (ha : a.IsFinite) (hb : b.IsFinite)
    (hx : Exact op a.toRat b.toRat x) :
    (op = "+" ∧ a.IsInteger ∧ b.IsInteger → ∃ n : ℤ, binary h op a b = .ok (.int n) ∧ n = x) ∧
    (¬ (op = "+" ∧ a.IsInteger ∧ b.IsInteger) → RoundsTo x (binary h op a b)) ∧
    (op = "-" ∨ op = "*" → a.IsInteger → b.IsInteger → |x| ≤ 10 ^ 28 →
      ∃ neg c e, binary h op a b = .ok (.decimal (.finite neg c e)) ∧
        (Decimal.finite neg c e).value = x) := by
  have hrounds := binary_roundsTo h ha hb hx
  refine ⟨?_, hrounds, ?_⟩
  · rintro ⟨hop, ⟨m, rfl⟩, n, rfl⟩
    cases hx with
    | sum => exact ⟨m + n, rfl, by simp [toRat]⟩
    | difference | product | quotient => exact absurd hop (by decide)
  · rintro hop ⟨m, rfl⟩ ⟨n, rfl⟩ hsmall
    obtain ⟨k, rfl⟩ : ∃ k : ℤ, k = x := by
      cases hx with
      | difference => exact ⟨m - n, by simp [toRat]⟩
      | product => exact ⟨m * n, by simp [toRat]⟩
      | sum | quotient => exact absurd hop (by decide)
    refine (hrounds ?_).exact ?_
    · rintro ⟨rfl, -⟩
      exact absurd hop (by decide)
    · rw [← Int.cast_abs, Int.abs_eq_natAbs, Int.cast_natCast] at hsmall
      exact_mod_cast hsmall

/-- Two thirds are rounded up, the sum of two integers is an integer, and their product is exact. -/
theorem binary_exact_small :
    RoundsTo (2 / 3) (binary {} "/" (.int 2) (.int 3)) ∧
      binary {} "/" (.int 2) (.int 3) =
        .ok (.decimal (.finite false 6666666666666666666666666667 (-28))) ∧
      (∃ n : ℤ, binary {} "+" (.int 2) (.int 3) = .ok (.int n) ∧ n = (2 + 3 : ℚ)) ∧
      ∃ neg c e, binary {} "*" (.int 2) (.int 3) = .ok (.decimal (.finite neg c e)) ∧
        (Decimal.finite neg c e).value = 2 * 3 := by
  have hfinite (n : ℤ) : (int n).IsFinite := trivial
  have hthirds : Exact "/" (int 2).toRat (int 3).toRat (2 / 3) :=
    .quotient 2 (by norm_num [toRat])
  have hsum : Exact "+" (int 2).toRat (int 3).toRat (2 + 3) := .sum 2 3
  have hproduct : Exact "*" (int 2).toRat (int 3).toRat (2 * 3) := .product 2 3
  refine ⟨(binary_exact {} (hfinite 2) (hfinite 3) hthirds).2.1 (by simp), rfl,
    (binary_exact {} (hfinite 2) (hfinite 3) hsum).1 ⟨rfl, ⟨2, rfl⟩, 3, rfl⟩,
    (binary_exact {} (hfinite 2) (hfinite 3) hproduct).2.2 (.inr rfl) ⟨2, rfl⟩ ⟨3, rfl⟩ ?_⟩
  norm_num

end Operations

/-! ### Remainders -/

/-- Remainders are rounded, unless the integer part of the quotient has too many digits. -/
theorem remainder_roundsTo (h : Heap) {a b : Value} (ha : a.IsFinite) (hb : b.IsFinite)
    (hzero : b.toRat ≠ 0) :
    let q := Decimal.truncate (a.toRat / b.toRat)
    if tenTo 28 ≤ q.natAbs then binary h "%" a b = .error (.signal .divisionImpossible)
    else RoundsTo (a.toRat - b.toRat * q) (binary h "%" a b) := by
  obtain ⟨n₁, c₁, e₁, ha'⟩ := ha.number
  obtain ⟨n₂, c₂, e₂, hb'⟩ := hb.number
  rw [toRat_eq ha', toRat_eq hb']
  rw [toRat_eq hb', Decimal.value_ne_zero_iff] at hzero
  have harith : binary h "%" a b = arithmetic "%" a b := rfl
  rw [harith, arithmetic_remainder ha' hb', if_neg hzero]
  have hrem := Decimal.rem_roundsTo Format.isSound_working n₁ n₂ c₁ hzero e₁ e₂
  dsimp only at hrem ⊢
  by_cases hlarge : tenTo 28 ≤
      (Decimal.truncate ((Decimal.finite n₁ c₁ e₁).value / (Decimal.finite n₂ c₂ e₂).value)).natAbs
  · rw [if_pos (show tenTo Format.working.digits ≤ _ from hlarge)] at hrem
    rw [if_pos hlarge, hrem]
    rfl
  · rw [if_neg (show ¬ tenTo Format.working.digits ≤ _ from hlarge)] at hrem
    rw [if_neg hlarge]
    exact roundsTo_map hrem

/-- Whether a number has no more digits than decimals keep, and an exponent that they can have. -/
def IsShort : Value → Prop
  | .int n => n.natAbs < tenTo 28
  | .decimal (.finite _ c e) => Format.working.Holds c e
  | _ => False

/-- Whether a number has a minus sign, which zeros can have, too. -/
def hasMinus : Value → Bool
  | .int n => n < 0
  | .decimal (.finite neg _ _) => neg
  | _ => false

theorem IsShort.number {v : Value} (hv : v.IsShort) :
    ∃ c e, v.number? = some (.finite v.hasMinus c e) ∧ Format.working.Holds c e := by
  rcases v with _ | _ | n | (⟨neg, c, e⟩ | _ | _) | _ | _ | _ | _ <;> try exact hv.elim
  · have hcount := Decimal.digitCount_le (k := 28) (by decide) hv
    exact ⟨n.natAbs, 0, rfl, hv, by decide, by simp only [Format.working]; omega⟩
  · exact ⟨c, e, rfl, hv⟩

/-- **The law of division.** The remainder of short numbers is exact, less than the divisor and has
the sign of the dividend, unless the integer part of the quotient has too many digits. -/
theorem binary_remainder (h : Heap) {a b : Value} (ha : a.IsShort) (hb : b.IsShort)
    (hzero : b.toRat ≠ 0) :
    let q := Decimal.truncate (a.toRat / b.toRat)
    (tenTo 28 ≤ q.natAbs → binary h "%" a b = .error (.signal .divisionImpossible)) ∧
    (q.natAbs < tenTo 28 →
      ∃ c e, binary h "%" a b = .ok (.decimal (.finite a.hasMinus c e)) ∧
        a.toRat = b.toRat * q + (Decimal.finite a.hasMinus c e).value ∧
        |(Decimal.finite a.hasMinus c e).value| < |b.toRat|) := by
  obtain ⟨c₁, e₁, ha', h₁⟩ := ha.number
  obtain ⟨c₂, e₂, hb', h₂⟩ := hb.number
  rw [toRat_eq ha', toRat_eq hb']
  rw [toRat_eq hb', Decimal.value_ne_zero_iff] at hzero
  have harith : binary h "%" a b = arithmetic "%" a b := rfl
  rw [harith, arithmetic_remainder ha' hb', if_neg hzero]
  have hlaw := Decimal.rem_law h₁ h₂ hzero a.hasMinus b.hasMinus
  dsimp only at hlaw ⊢
  constructor
  · intro hlarge
    rw [if_pos (show tenTo Format.working.digits ≤ _ from hlarge)] at hlaw
    rw [hlaw]
    rfl
  · intro hsmall
    rw [if_neg (show ¬ tenTo Format.working.digits ≤ _ from Nat.not_le.mpr hsmall)] at hlaw
    obtain ⟨c, e, hrem, hsplit, hlt⟩ := hlaw
    exact ⟨c, e, by rw [hrem]; rfl, hsplit, hlt⟩

/-- A negative dividend that is a multiple leaves a zero with a minus sign. -/
theorem binary_remainder_negative :
    (int (-6)).IsShort ∧ (int 3).IsShort ∧ (int 3).toRat ≠ 0 ∧
      (∃ c e, binary {} "%" (.int (-6)) (.int 3) = .ok (.decimal (.finite true c e)) ∧
        (int (-6)).toRat = (int 3).toRat * Decimal.truncate ((int (-6)).toRat / (int 3).toRat) +
          (Decimal.finite true c e).value ∧
        |(Decimal.finite true c e).value| < |(int 3).toRat|) ∧
      binary {} "%" (.int (-6)) (.int 3) = .ok (.decimal (.finite true 0 0)) := by
  have hshort (n : ℤ) (hn : n.natAbs < tenTo 28) : (int n).IsShort := hn
  have h₁ : (int (-6)).IsShort := hshort (-6) (by decide +kernel)
  have h₂ : (int 3).IsShort := hshort 3 (by decide +kernel)
  have hzero : (int 3).toRat ≠ 0 := by norm_num [toRat]
  have hq : Decimal.truncate ((int (-6)).toRat / (int 3).toRat) = -2 := by
    norm_num [toRat, Decimal.truncate]
  refine ⟨h₁, h₂, hzero, (binary_remainder {} h₁ h₂ hzero).2 ?_, rfl⟩
  rw [hq]
  decide +kernel

end Scriptlet.Value
