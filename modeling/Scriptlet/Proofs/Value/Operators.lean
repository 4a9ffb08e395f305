import Scriptlet.Proofs.Decimal.Rounding
import Scriptlet.Proofs.Value.Containment

/-! # What the operators do

For each family of operators, the results and the failures on operands of the kinds that belong to
it: finite numbers for arithmetic, comparable values for comparisons, a string and anything else for
concatenation. -/

namespace Scriptlet

namespace Value

/-- Whether a value is a number equal to zero. -/
def IsZero (v : Value) : Prop :=
  ∃ d, v.number? = some d ∧ d.isZero = true

/-- Whether two values have an order: both are numbers, characters or strings. -/
def IsOrderedWith (a b : Value) : Prop :=
  a.IsFinite ∧ b.IsFinite ∨ a.IsCharacter ∧ b.IsCharacter ∨ a.IsString ∧ b.IsString

variable {h : Heap} {a b : Value}

/-! ### Arithmetic -/

/-- What decimal arithmetic on finite numbers leads to, as a value. -/
theorem decimal_cases {r : Except Decimal.Signal Decimal} (hr : Decimal.IsRounded r) :
    (∃ v, (orSignal r).map Value.decimal = .ok v ∧ v.IsFinite) ∨
      (orSignal r).map Value.decimal = .error (.signal .overflow) := by
  rcases hr with ⟨neg, c, e, rfl⟩ | rfl
  · exact Or.inl ⟨_, rfl, rfl⟩
  · exact Or.inr rfl

theorem sum_finite (ha : a.IsFinite) (hb : b.IsFinite) :
    (∃ v, sum h a b = .ok v ∧ v.IsFinite) ∨ sum h a b = .error (.signal .overflow) := by
  rcases ha.cases with ⟨m, rfl⟩ | ⟨n₁, c₁, e₁, rfl⟩ <;>
    rcases hb.cases with ⟨n, rfl⟩ | ⟨n₂, c₂, e₂, rfl⟩
  · exact Or.inl ⟨_, rfl, trivial⟩
  · exact decimal_cases Decimal.isRounded_add
  · exact decimal_cases Decimal.isRounded_add
  · exact decimal_cases Decimal.isRounded_add

theorem isZero_iff {neg : Bool} {c : Nat} {e : Int} (hb : b.number? = some (.finite neg c e)) :
    b.IsZero ↔ c = 0 := by
  constructor
  · rintro ⟨d, hd, hz⟩
    rw [hb] at hd
    cases hd
    simpa [Decimal.isZero] using hz
  · rintro rfl
    exact ⟨_, hb, rfl⟩

section Arithmetic

variable {x y : Decimal} {n₁ n₂ : Bool} {c₁ c₂ : Nat} {e₁ e₂ : Int}

theorem arithmetic_minus (hx : a.number? = some x) (hy : b.number? = some y) :
    arithmetic "-" a b = (orSignal (Decimal.sub .working x y)).map .decimal := by
  rw [arithmetic, hx, hy]; rfl

theorem arithmetic_times (hx : a.number? = some x) (hy : b.number? = some y) :
    arithmetic "*" a b = (orSignal (Decimal.mul .working x y)).map .decimal := by
  rw [arithmetic, hx, hy]; rfl

theorem arithmetic_quotient (hx : a.number? = some x)
    (hy : b.number? = some (.finite n₂ c₂ e₂)) :
    arithmetic "/" a b = if c₂ = 0 then .error .divisionByZero
      else (orSignal (Decimal.div .working x (.finite n₂ c₂ e₂))).map .decimal := by
  rw [arithmetic, hx, hy]
  simp only [Decimal.equal_zero]
  by_cases hc : c₂ = 0
  · simp only [hc, if_true]; rfl
  · simp only [hc, if_false]; rfl

theorem arithmetic_remainder (hx : a.number? = some x)
    (hy : b.number? = some (.finite n₂ c₂ e₂)) :
    arithmetic "%" a b = if c₂ = 0 then .error .divisionByZero
      else (orSignal (Decimal.rem .working x (.finite n₂ c₂ e₂))).map .decimal := by
  rw [arithmetic, hx, hy]
  simp only [Decimal.equal_zero]
  by_cases hc : c₂ = 0
  · simp only [hc, if_true]; rfl
  · simp only [hc, if_false]; rfl

/-- Differences and products of finite numbers are finite numbers or overflow. -/
theorem arithmetic_finite {op : String} (hop : op = "-" ∨ op = "*") (ha : a.IsFinite)
    (hb : b.IsFinite) :
    (∃ v, arithmetic op a b = .ok v ∧ v.IsFinite) ∨
      arithmetic op a b = .error (.signal .overflow) := by
  obtain ⟨n₁, c₁, e₁, hx⟩ := ha.number
  obtain ⟨n₂, c₂, e₂, hy⟩ := hb.number
  rcases hop with rfl | rfl
  · rw [arithmetic_minus hx hy]
    exact decimal_cases Decimal.isRounded_sub
  · rw [arithmetic_times hx hy]
    exact decimal_cases Decimal.isRounded_mul

/-- Division by zero is refused. -/
theorem arithmetic_zero {op : String} (hop : op = "/" ∨ op = "%") (ha : a.IsFinite)
    (hb : b.IsFinite) (hz : b.IsZero) : arithmetic op a b = .error .divisionByZero := by
  obtain ⟨n₁, c₁, e₁, hx⟩ := ha.number
  obtain ⟨n₂, c₂, e₂, hy⟩ := hb.number
  have hc : c₂ = 0 := (isZero_iff hy).mp hz
  rcases hop with rfl | rfl
  · rw [arithmetic_quotient hx hy, if_pos hc]
  · rw [arithmetic_remainder hx hy, if_pos hc]

/-- Quotients and remainders by numbers other than zero are finite numbers or signals. -/
theorem arithmetic_nonzero {op : String} (hop : op = "/" ∨ op = "%") (ha : a.IsFinite)
    (hb : b.IsFinite) (hz : ¬ b.IsZero) :
    (∃ v, arithmetic op a b = .ok v ∧ v.IsFinite) ∨
      arithmetic op a b = .error (.signal .overflow) ∨
      op = "%" ∧ arithmetic op a b = .error (.signal .divisionImpossible) := by
  obtain ⟨n₁, c₁, e₁, hx⟩ := ha.number
  obtain ⟨n₂, c₂, e₂, hy⟩ := hb.number
  have hc : c₂ ≠ 0 := fun hc => hz ((isZero_iff hy).mpr hc)
  rcases hop with rfl | rfl
  · rw [arithmetic_quotient hx hy, if_neg hc]
    rcases decimal_cases (Decimal.isRounded_div hc) with h | h
    · exact Or.inl h
    · exact Or.inr (Or.inl h)
  · rw [arithmetic_remainder hx hy, if_neg hc]
    rcases Decimal.rem_cases hc with h | h
    · rcases decimal_cases h with h | h
      · exact Or.inl h
      · exact Or.inr (Or.inl h)
    · exact Or.inr (Or.inr ⟨rfl, by rw [h]; rfl⟩)

end Arithmetic

theorem power_cases (a b : Value) :
    (∃ n, power a b = .ok (.int n) ∧ (a.isIntegral = true ∧ b.isIntegral = true) ∧
        b.isNegative = false) ∨
      (¬ (a.isIntegral = true ∧ b.isIntegral = true) ∧
        power a b = .error (.run (.powerOperands a.kindName b.kindName))) ∨
      ((a.isIntegral = true ∧ b.isIntegral = true) ∧ b.isNegative = true ∧
        power a b = .error (.run .negativeExponent)) := by
  unfold power
  by_cases hab : a.isIntegral = true ∧ b.isIntegral = true
  · cases hb : b.isNegative with
    | false =>
      exact Or.inl ⟨integerPower (a.integer?.getD 0) (b.integer?.getD 0).toNat,
        by simp [hab.1, hab.2], hab, rfl⟩
    | true => exact Or.inr (Or.inr ⟨hab, rfl, by simp [hab.1, hab.2]⟩)
  · have hnot : (!a.isIntegral || !b.isIntegral) = true := by
      cases ha : a.isIntegral with
      | false => rfl
      | true =>
        cases hb : b.isIntegral with
        | false => rfl
        | true => exact absurd ⟨ha, hb⟩ hab
    exact Or.inr (Or.inl ⟨hab, by rw [if_pos hnot]⟩)

/-! ### Comparisons -/

/-- Two comparable values are equal or not, without a failure. -/
theorem equal_comparable (ha : Ty.comparable.Inhabits h a) (hb : Ty.comparable.Inhabits h b) :
    ∃ e, h.equal a b = .ok e := by
  rcases ha with ha | ⟨s, rfl⟩ | ⟨s, rfl⟩ <;> rcases hb with hb | ⟨t, rfl⟩ | ⟨t, rfl⟩
  · rcases ha.cases with ⟨m, rfl⟩ | ⟨n₁, c₁, e₁, rfl⟩ <;>
      rcases hb.cases with ⟨n, rfl⟩ | ⟨n₂, c₂, e₂, rfl⟩ <;> exact ⟨_, rfl⟩
  · rcases ha.cases with ⟨m, rfl⟩ | ⟨n₁, c₁, e₁, rfl⟩ <;> exact ⟨_, rfl⟩
  · rcases ha.cases with ⟨m, rfl⟩ | ⟨n₁, c₁, e₁, rfl⟩ <;> exact ⟨_, rfl⟩
  · rcases hb.cases with ⟨n, rfl⟩ | ⟨n₂, c₂, e₂, rfl⟩ <;> exact ⟨_, rfl⟩
  · exact ⟨_, rfl⟩
  · exact ⟨_, rfl⟩
  · rcases hb.cases with ⟨n, rfl⟩ | ⟨n₂, c₂, e₂, rfl⟩ <;> exact ⟨_, rfl⟩
  · exact ⟨_, rfl⟩
  · exact ⟨_, rfl⟩

theorem orSignal_less (n₁ : Bool) (c₁ : Nat) (e₁ : Int) (n₂ : Bool) (c₂ : Nat) (e₂ : Int) :
    ∃ o, orSignal (Decimal.less (.finite n₁ c₁ e₁) (.finite n₂ c₂ e₂)) = .ok o := by
  obtain ⟨o, ho⟩ := Decimal.less_finite n₁ c₁ e₁ n₂ c₂ e₂
  exact ⟨o, by rw [ho]; rfl⟩

/-- Two values of one ordered kind have an order. -/
theorem compare_ordered (q : Json.Comparison) (hab : a.IsOrderedWith b) :
    ∃ o, compare q a b = .ok o := by
  rcases hab with ⟨ha, hb⟩ | ⟨⟨s, rfl⟩, t, rfl⟩ | ⟨⟨s, rfl⟩, t, rfl⟩
  · rcases ha.cases with ⟨m, rfl⟩ | ⟨n₁, c₁, e₁, rfl⟩ <;>
      rcases hb.cases with ⟨n, rfl⟩ | ⟨n₂, c₂, e₂, rfl⟩
    · exact ⟨_, rfl⟩
    · cases q <;> exact orSignal_less ..
    · cases q <;> exact orSignal_less ..
    · cases q <;> exact orSignal_less ..
  · cases q <;> exact ⟨_, rfl⟩
  · exact ⟨_, rfl⟩

/-- Comparable values that are not of one ordered kind have no order. -/
theorem compare_unordered (q : Json.Comparison) (ha : Ty.comparable.Inhabits h a)
    (hb : Ty.comparable.Inhabits h b) (hab : ¬ a.IsOrderedWith b) :
    compare q a b = .error (.run (.notOrdered a.kindName b.kindName)) := by
  rcases ha with ha | ha | ha <;> rcases hb with hb | hb | hb
  · exact absurd (Or.inl ⟨ha, hb⟩) hab
  · obtain ⟨t, rfl⟩ := hb
    rcases ha.cases with ⟨m, rfl⟩ | ⟨n₁, c₁, e₁, rfl⟩ <;> rfl
  · obtain ⟨t, rfl⟩ := hb
    rcases ha.cases with ⟨m, rfl⟩ | ⟨n₁, c₁, e₁, rfl⟩ <;> rfl
  · obtain ⟨s, rfl⟩ := ha
    rcases hb.cases with ⟨n, rfl⟩ | ⟨n₂, c₂, e₂, rfl⟩ <;> rfl
  · exact absurd (Or.inr (Or.inl ⟨ha, hb⟩)) hab
  · obtain ⟨s, rfl⟩ := ha
    obtain ⟨t, rfl⟩ := hb
    rfl
  · obtain ⟨s, rfl⟩ := ha
    rcases hb.cases with ⟨n, rfl⟩ | ⟨n₂, c₂, e₂, rfl⟩ <;> rfl
  · obtain ⟨s, rfl⟩ := ha
    obtain ⟨t, rfl⟩ := hb
    rfl
  · exact absurd (Or.inr (Or.inr ⟨ha, hb⟩)) hab

/-! ### Concatenation -/

theorem sum_texts {s t : Text} (hs : a.IsString ∨ b.IsString) (ha : h.render a = .ok (.str s))
    (hb : h.render b = .ok (.str t)) : sum h a b = .ok (.string (s ++ t)) := by
  rcases hs with ⟨u, rfl⟩ | ⟨u, rfl⟩
  · simp only [sum, ha, hb]; rfl
  · cases a <;> simp only [sum, ha, hb] <;> rfl

theorem sum_error_left {f : Failure} (hs : a.IsString ∨ b.IsString) (ha : h.render a = .error f) :
    sum h a b = .error f := by
  rcases hs with ⟨u, rfl⟩ | ⟨u, rfl⟩
  · simp only [sum, ha]; rfl
  · cases a <;> simp only [sum, ha] <;> rfl

theorem sum_error_right {j : Json} {f : Failure} (hs : a.IsString ∨ b.IsString)
    (ha : h.render a = .ok j) (hb : h.render b = .error f) : sum h a b = .error f := by
  rcases hs with ⟨u, rfl⟩ | ⟨u, rfl⟩
  · simp only [sum, ha, hb]; rfl
  · cases a <;> simp only [sum, ha, hb] <;> rfl

/-- A string contains nothing but itself, and so no integer. -/
theorem IsString.not_isUnwritable (ha : a.IsString) : ¬ h.IsUnwritable a := by
  obtain ⟨s, rfl⟩ := ha
  rintro ⟨n, hn, -⟩
  rcases Heap.contains_int hn with h | ⟨x, ⟨a, h, -⟩, -⟩ <;> cases h

/-- A sum with a string is a string, or an operand contains an integer that is too long. -/
theorem sum_isString (hc : h.IsClosed) (ha : h.Owns a) (hb : h.Owns b)
    (hs : a.IsString ∨ b.IsString) :
    (∃ v, sum h a b = .ok v ∧ v.IsString) ∨
      sum h a b = .error .tooManyDigits ∧
        (a.IsString ∧ h.IsUnwritable b ∨ b.IsString ∧ h.IsUnwritable a) := by
  rcases Heap.render_closed hc ha with ⟨s, hra⟩ | ⟨hra, hu⟩
  · rcases Heap.render_closed hc hb with ⟨t, hrb⟩ | ⟨hrb, hu⟩
    · exact Or.inl ⟨_, sum_texts hs hra hrb, _, rfl⟩
    · exact Or.inr ⟨sum_error_right hs hra hrb,
        Or.inl ⟨hs.resolve_right fun hb => hb.not_isUnwritable hu, hu⟩⟩
  · exact Or.inr ⟨sum_error_left hs hra,
      Or.inr ⟨hs.resolve_left fun ha => ha.not_isUnwritable hu, hu⟩⟩

/-- A sum of a string with a founded value that contains too long an integer fails. -/
theorem sum_unwritable (hc : h.IsClosed) (ha : h.Owns a) (hb : h.Owns b) (hfa : h.IsFounded a)
    (hfb : h.IsFounded b)
    (hab : a.IsString ∧ h.IsUnwritable b ∨ b.IsString ∧ h.IsUnwritable a) :
    sum h a b = .error .tooManyDigits := by
  rcases hab with ⟨hs, hu⟩ | ⟨hs, hu⟩
  · have hrb := (Heap.render_eq_error_iff hc hb hfb).mpr hu
    rcases Heap.render_closed hc ha with ⟨s, hra⟩ | ⟨hra, -⟩
    · exact sum_error_right (Or.inl hs) hra hrb
    · exact sum_error_left (Or.inl hs) hra
  · exact sum_error_left (Or.inr hs) ((Heap.render_eq_error_iff hc ha hfa).mpr hu)

end Value

end Scriptlet
