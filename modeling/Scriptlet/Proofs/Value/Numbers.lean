import Scriptlet.Machine.Basic
import Scriptlet.Proofs.Value.Arithmetic

/-! # Numbers and their representations

Equal numbers have many representations: an integer is also a decimal with any number of zeros after
the point, and zero has two signs. Operators see the number only: representations make a difference
to the exponent of a result and to the wording of a failure, and to sums of two integers, which are
not rounded.

* `equalAt_ranked`, `compare_ranked`: numbers are compared by their places among all numbers.
* `binary_sees_numbers`: on equal numbers, operators have equal results or fail alike. -/

namespace Scriptlet

/-- Whether two failures are of one kind. Violated rules of execution are of one kind, whatever
their wording is. -/
inductive Failure.SameKind : Failure → Failure → Prop
  | refl (f : Failure) : SameKind f f
  | run (p q : RunProblem) : SameKind (.run p) (.run q)

/-- Whether two outcomes are alike: they are related results, or failures of one kind. -/
inductive Alike {α : Type} (R : α → α → Prop) : Except Failure α → Except Failure α → Prop
  | ok {a b : α} : R a b → Alike R (.ok a) (.ok b)
  | error {f g : Failure} : f.SameKind g → Alike R (.error f) (.error g)

theorem Alike.refl {α : Type} {R : α → α → Prop} (hR : ∀ a, R a a) (r : Except Failure α) :
    Alike R r r := by
  cases r with
  | ok a => exact .ok (hR a)
  | error f => exact .error (.refl f)

namespace Value

variable {h : Heap} {a a' b b' : Value}

/-! ### Places -/

/-- Whether a value is a number that has a place among all numbers. -/
def IsRanked : Value → Prop
  | .int _ => True
  | .decimal d => d.isNaN = false
  | _ => False

/-- The place of a number among all numbers. -/
def rank : Value → WithBot (WithTop ℚ)
  | .int n => ((n : ℚ) : WithTop ℚ)
  | .decimal d => d.rank
  | _ => ⊥

theorem rank_ofInt (n : ℤ) : (Decimal.ofInt n).rank = (int n).rank := by
  rw [rank, ← Decimal.value_ofInt n]
  rfl

theorem IsRanked.cases (ha : a.IsRanked) :
    (∃ n, a = .int n) ∨ ∃ d : Decimal, a = .decimal d ∧ d.isNaN = false := by
  cases a with
  | int n => exact Or.inl ⟨n, rfl⟩
  | decimal d => exact Or.inr ⟨d, rfl, ha⟩
  | _ => exact ha.elim

theorem IsFinite.isRanked (ha : a.IsFinite) : a.IsRanked := by
  rcases ha.cases with ⟨n, rfl⟩ | ⟨neg, c, e, rfl⟩
  · trivial
  · rfl

theorem rank_of_isFinite (ha : a.IsFinite) : a.rank = ((a.toRat : ℚ) : WithTop ℚ) := by
  rcases ha.cases with ⟨n, rfl⟩ | ⟨neg, c, e, rfl⟩ <;> rfl

theorem rank_int_eq_iff {m n : ℤ} : (int m).rank = (int n).rank ↔ m = n := by
  simp [rank]

theorem rank_int_lt_iff {m n : ℤ} : (int m).rank < (int n).rank ↔ m < n := by
  simp [rank]

/-- **Numbers are equal exactly if they have one place.** -/
theorem equalAt_ranked (d : Nat) (ha : a.IsRanked) (hb : b.IsRanked) :
    h.equalAt d a b = .ok (decide (a.rank = b.rank)) := by
  have hint (n : ℤ) : (Decimal.ofInt n).isNaN = false := rfl
  have hdecimal {x y : Decimal} (hx : x.isNaN = false) (hy : y.isNaN = false) :
      orSignal (Decimal.equal x y) = .ok (decide (x.rank = y.rank)) := by
    rw [Decimal.equal_rank hx hy]
    rfl
  rcases ha.cases with ⟨m, rfl⟩ | ⟨x, rfl, hx⟩ <;> rcases hb.cases with ⟨n, rfl⟩ | ⟨y, rfl, hy⟩
  · simp only [Heap.equalAt, rank_int_eq_iff]
  · rw [Heap.equalAt, hdecimal (hint m) hy, rank_ofInt]
    rfl
  · rw [Heap.equalAt, hdecimal hx (hint n), rank_ofInt]
    rfl
  · rw [Heap.equalAt, hdecimal hx hy]
    rfl

/-- **The order of numbers is that of their places.** -/
theorem compare_ranked (q : Json.Comparison) (ha : a.IsRanked) (hb : b.IsRanked) :
    compare q a b = .ok (q.ask (fun x y => decide (x < y)) a.rank b.rank) := by
  have hint (n : ℤ) : (Decimal.ofInt n).isNaN = false := rfl
  have hless {x y : Decimal} (hx : x.isNaN = false) (hy : y.isNaN = false) :
      orSignal (Decimal.less x y) = .ok (decide (x.rank < y.rank)) := by
    rw [Decimal.less_rank hx hy]
    rfl
  rcases ha.cases with ⟨m, rfl⟩ | ⟨x, rfl, hx⟩ <;> rcases hb.cases with ⟨n, rfl⟩ | ⟨y, rfl, hy⟩
  · cases q <;> simp only [compare, Json.Comparison.ask, rank_int_lt_iff]
  · rw [← rank_ofInt]
    cases q with
    | less => exact hless (hint m) hy
    | greater => exact hless hy (hint m)
  · rw [← rank_ofInt n]
    cases q with
    | less => exact hless hx (hint n)
    | greater => exact hless (hint n) hx
  · cases q with
    | less => exact hless hx hy
    | greater => exact hless hy hx

/-! ### Operators see numbers -/

/-- Whether two values are equal for a program. -/
def Equal (h : Heap) (v w : Value) : Prop :=
  h.equal v w = .ok true

theorem equal_of_toRat (ha : a.IsFinite) (ha' : a'.IsFinite) (haa : a.toRat = a'.toRat) :
    Equal h a a' := by
  rw [Equal, Heap.equal, equalAt_ranked _ ha.isRanked ha'.isRanked, rank_of_isFinite ha,
    rank_of_isFinite ha', haa, decide_eq_true rfl]

theorem equal_bool (r : Bool) : Equal h (.bool r) (.bool r) := by
  simp [Equal, Heap.equal, Heap.depth, Heap.equalAt]

theorem equal_int (n : ℤ) : Equal h (.int n) (.int n) :=
  equal_of_toRat trivial trivial rfl

/-- Results that are nearest to one number are equal. -/
theorem RoundsTo.alike {x : ℚ} {r r' : Except Failure Value} (hr : RoundsTo x r)
    (hr' : RoundsTo x r') : Alike (Equal h) r r' := by
  unfold RoundsTo at hr hr'
  split_ifs at hr hr' with hlarge
  · rw [hr, hr']
    exact .error (.refl _)
  · obtain ⟨neg, c, e, rfl, -, hvalue⟩ := hr
    obtain ⟨neg', c', e', rfl, -, hvalue'⟩ := hr'
    exact .ok (equal_of_toRat rfl rfl (hvalue.trans hvalue'.symm))

theorem isZero_iff_toRat (hb : b.IsFinite) : b.IsZero ↔ b.toRat = 0 := by
  obtain ⟨neg, c, e, hnumber⟩ := hb.number
  rw [isZero_iff hnumber, toRat_eq hnumber, ← not_iff_not]
  exact Decimal.value_ne_zero_iff.symm

theorem isNegative_iff_toRat (ha : a.IsFinite) : a.isNegative = true ↔ a.toRat < 0 := by
  rcases ha.cases with ⟨n, rfl⟩ | ⟨neg, c, e, rfl⟩
  · simp [isNegative, toRat]
  · have hten := Decimal.ten_zpow_pos e
    rw [toRat, Decimal.value_eq_ite]
    cases neg with
    | false => simp [isNegative, mul_nonneg c.cast_nonneg hten.le]
    | true => simp [isNegative, hten, Nat.pos_iff_ne_zero]

theorem isIntegral_eq_isSome (v : Value) : v.isIntegral = v.integer?.isSome := by
  cases v with
  | decimal d => cases hd : d.isIntegral <;> simp [isIntegral, integer?, hd]
  | _ => rfl

/-- Equal numbers are the same integer, or none of them is one. -/
theorem integer?_eq_of_toRat (ha : a.IsFinite) (ha' : a'.IsFinite) (haa : a.toRat = a'.toRat) :
    a.integer? = a'.integer? := by
  refine Option.ext fun n => ?_
  rw [integer?_eq_some_iff, integer?_eq_some_iff, IsWhole, IsWhole, haa]
  exact and_congr_left' (iff_of_true ha ha')

section Operators

variable (ha : a.IsFinite) (ha' : a'.IsFinite) (hb : b.IsFinite) (hb' : b'.IsFinite)
  (haa : a.toRat = a'.toRat) (hbb : b.toRat = b'.toRat)

include ha ha' hb hb' haa hbb

theorem binary_alike_of_exact {op : String} {x : ℚ} (hx : Exact op a.toRat b.toRat x)
    (hint : ¬ (op = "+" ∧ a.IsInteger ∧ b.IsInteger))
    (hint' : ¬ (op = "+" ∧ a'.IsInteger ∧ b'.IsInteger)) :
    Alike (Equal h) (binary h op a b) (binary h op a' b') := by
  have hx' : Exact op a'.toRat b'.toRat x := by rwa [← haa, ← hbb]
  exact (binary_roundsTo h ha hb hx hint).alike (binary_roundsTo h ha' hb' hx' hint')

omit haa in
/-- Divisions by zero fail, whatever represents it. -/
theorem binary_alike_of_zero {op : String} (hop : op = "/" ∨ op = "%") (hzero : b.toRat = 0) :
    Alike (Equal h) (binary h op a b) (binary h op a' b') := by
  have hz := (isZero_iff_toRat hb).mpr hzero
  have hz' := (isZero_iff_toRat hb').mpr (hbb ▸ hzero)
  have hfails : binary h op a b = .error .divisionByZero ∧
      binary h op a' b' = .error .divisionByZero := by
    rcases hop with rfl | rfl
    · exact ⟨arithmetic_zero (.inl rfl) ha hb hz, arithmetic_zero (.inl rfl) ha' hb' hz'⟩
    · exact ⟨arithmetic_zero (.inr rfl) ha hb hz, arithmetic_zero (.inr rfl) ha' hb' hz'⟩
  rw [hfails.1, hfails.2]
  exact .error (.refl _)

theorem quotient_alike : Alike (Equal h) (binary h "/" a b) (binary h "/" a' b') := by
  by_cases hzero : b.toRat = 0
  · exact binary_alike_of_zero ha ha' hb hb' hbb (.inl rfl) hzero
  · exact binary_alike_of_exact ha ha' hb hb' haa hbb (.quotient _ hzero) (by simp) (by simp)

theorem remainder_alike : Alike (Equal h) (binary h "%" a b) (binary h "%" a' b') := by
  by_cases hzero : b.toRat = 0
  · exact binary_alike_of_zero ha ha' hb hb' hbb (.inr rfl) hzero
  · have hrem := remainder_roundsTo h ha hb hzero
    have hrem' := remainder_roundsTo h ha' hb' (hbb ▸ hzero)
    rw [← haa, ← hbb] at hrem'
    dsimp only at hrem hrem'
    split_ifs at hrem hrem' with hlarge
    · rw [hrem, hrem']
      exact .error (.refl _)
    · exact hrem.alike hrem'

theorem power_alike : Alike (Equal h) (power a b) (power a' b') := by
  have hnegative : b.isNegative = b'.isNegative := by
    rw [Bool.eq_iff_iff, isNegative_iff_toRat hb, isNegative_iff_toRat hb', hbb]
  unfold power
  rw [isIntegral_eq_isSome, isIntegral_eq_isSome, isIntegral_eq_isSome, isIntegral_eq_isSome,
    integer?_eq_of_toRat ha ha' haa, integer?_eq_of_toRat hb hb' hbb, hnegative]
  split_ifs
  · exact .error (.run _ _)
  · exact .error (.refl _)
  · exact .ok (equal_int _)

theorem compare_eq_of_toRat (q : Json.Comparison) : compare q a b = compare q a' b' := by
  rw [compare_ranked q ha.isRanked hb.isRanked, compare_ranked q ha'.isRanked hb'.isRanked,
    rank_of_isFinite ha, rank_of_isFinite ha', rank_of_isFinite hb, rank_of_isFinite hb', haa, hbb]

theorem equal_eq_of_toRat : h.equal a b = h.equal a' b' := by
  rw [Heap.equal, Heap.equal, equalAt_ranked _ ha.isRanked hb.isRanked,
    equalAt_ranked _ ha'.isRanked hb'.isRanked, rank_of_isFinite ha, rank_of_isFinite ha',
    rank_of_isFinite hb, rank_of_isFinite hb', haa, hbb]

end Operators

theorem alike_map_bool (r : Except Failure Bool) (f : Bool → Bool) :
    Alike (Equal h) (r.map fun o => .bool (f o)) (r.map fun o => .bool (f o)) := by
  cases r with
  | ok o => exact .ok (equal_bool (f o))
  | error e => exact .error (.refl e)

/-- Equal numbers select the same place of a list, or fail alike. -/
theorem position_alike (ha : a.IsFinite) (ha' : a'.IsFinite) (haa : a.toRat = a'.toRat)
    (size : Nat) : Alike Eq (Machine.position a size) (Machine.position a' size) := by
  unfold Machine.position
  rw [integer?_eq_of_toRat ha ha' haa]
  cases a'.integer? with
  | none => exact .error (.run _ _)
  | some n => exact .refl (fun _ => rfl) _

/-- **Operators see the number only.** Two runs of an operator on equal numbers give equal numbers,
or fail with failures of one kind; sums of two integers alone are not rounded, and so have to be
told apart from sums with a decimal. Equal numbers are the same index. -/
theorem binary_sees_numbers (h : Heap) (ha : a.IsFinite) (ha' : a'.IsFinite) (hb : b.IsFinite)
    (hb' : b'.IsFinite) (haa : a.toRat = a'.toRat) (hbb : b.toRat = b'.toRat) :
    (∀ op ∈ ["-", "*", "/", "%", "^", "<", ">", "==", "!="],
      Alike (Equal h) (binary h op a b) (binary h op a' b')) ∧
    (¬ (a.IsInteger ∧ b.IsInteger) → ¬ (a'.IsInteger ∧ b'.IsInteger) →
      Alike (Equal h) (binary h "+" a b) (binary h "+" a' b')) ∧
    ∀ size, Alike Eq (Machine.position a size) (Machine.position a' size) := by
  refine ⟨?_, fun hint hint' => ?_, position_alike ha ha' haa⟩
  · have hcompare (q : Json.Comparison) : Alike (Equal h) ((compare q a b).map .bool)
        ((compare q a' b').map .bool) := by
      rw [compare_eq_of_toRat ha ha' hb hb' haa hbb]
      exact alike_map_bool _ id
    have hequal (f : Bool → Bool) : Alike (Equal h) ((h.equal a b).map fun o => .bool (f o))
        ((h.equal a' b').map fun o => .bool (f o)) := by
      rw [equal_eq_of_toRat ha ha' hb hb' haa hbb]
      exact alike_map_bool _ f
    simp only [List.forall_mem_cons]
    exact ⟨binary_alike_of_exact ha ha' hb hb' haa hbb (.difference _ _) (by simp) (by simp),
      binary_alike_of_exact ha ha' hb hb' haa hbb (.product _ _) (by simp) (by simp),
      quotient_alike ha ha' hb hb' haa hbb, remainder_alike ha ha' hb hb' haa hbb,
      power_alike ha ha' hb hb' haa hbb, hcompare .less, hcompare .greater, hequal id, hequal not,
      List.forall_mem_nil _⟩
  · exact binary_alike_of_exact ha ha' hb hb' haa hbb (.sum _ _) (fun hop => hint hop.2)
      fun hop => hint' hop.2

/-- Two by three, and by two representations of zero. -/
theorem binary_sees_numbers_two : (int 2).toRat = (decimal (.finite false 20 (-1))).toRat ∧
    (int 0).toRat = (decimal (.finite true 0 (-2))).toRat ∧
    Alike (Equal {}) (binary {} "-" (.int 2) (.int 0))
      (binary {} "-" (.decimal (.finite false 20 (-1))) (.decimal (.finite true 0 (-2)))) ∧
    binary {} "-" (.int 2) (.int 0) = .ok (.decimal (.finite false 2 0)) ∧
    binary {} "-" (.decimal (.finite false 20 (-1))) (.decimal (.finite true 0 (-2))) =
      .ok (.decimal (.finite false 200 (-2))) ∧
    Alike (Equal {}) (binary {} "%" (.int 2) (.int 0))
      (binary {} "%" (.decimal (.finite false 20 (-1))) (.decimal (.finite true 0 (-2)))) := by
  have htwo : (int 2).toRat = (decimal (.finite false 20 (-1))).toRat := by
    norm_num [toRat, Decimal.value_eq_ite]
  have hzero : (int 0).toRat = (decimal (.finite true 0 (-2))).toRat := by
    norm_num [toRat, Decimal.value_eq_ite]
  have hinteger (n : ℤ) : (int n).IsFinite := trivial
  have hdecimal (neg : Bool) (c : ℕ) (e : ℤ) : (decimal (.finite neg c e)).IsFinite := rfl
  have hsees := (binary_sees_numbers {} (hinteger 2) (hdecimal false 20 (-1)) (hinteger 0)
    (hdecimal true 0 (-2)) htwo hzero).1
  exact ⟨htwo, hzero, hsees "-" (by simp), rfl, rfl, hsees "%" (by simp)⟩

end Value

end Scriptlet
