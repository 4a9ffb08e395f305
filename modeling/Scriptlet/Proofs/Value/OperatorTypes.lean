import Scriptlet.Proofs.Typing.Operators
import Scriptlet.Proofs.Value.Operators

/-! # Operators on values of known types

The types that the typing rules give to operators against what the operators do with values of
these types. For every operator, an application to inhabitants of the operand types gives an
inhabitant of the result type or fails, and `OperatorFailure` lists all ways to fail.

* `operatorOutcome_of_binaryType`: the two agree for all operators, types and values. -/

namespace Scriptlet

/-- The ways in which an operator on operands `a` and `b` of types `l` and `r` can fail. -/
inductive OperatorFailure (h : Heap) (op : String) (l r : Ty) (a b : Value) : Failure → Prop where
  | divisionByZero (hop : op = "/" ∨ op = "%") (hb : b.IsZero) :
    OperatorFailure h op l r a b .divisionByZero
  | powerOperands (hop : op = "^") (hab : ¬ (a.isIntegral = true ∧ b.isIntegral = true)) :
    OperatorFailure h op l r a b (.run (.powerOperands a.kindName b.kindName))
  | negativeExponent (hop : op = "^") (hab : a.isIntegral = true ∧ b.isIntegral = true)
    (hb : b.isNegative = true) : OperatorFailure h op l r a b (.run .negativeExponent)
  | notOrdered (hop : op = "<" ∨ op = ">") (hl : l = .comparable) (hr : r = .comparable)
    (hab : ¬ a.IsOrderedWith b) :
    OperatorFailure h op l r a b (.run (.notOrdered a.kindName b.kindName))
  | overflow (hop : op = "+" ∨ op = "-" ∨ op = "*" ∨ op = "/" ∨ op = "%") :
    OperatorFailure h op l r a b (.signal .overflow)
  | divisionImpossible (hop : op = "%") :
    OperatorFailure h op l r a b (.signal .divisionImpossible)
  | tooManyDigits (hop : op = "+")
    (hab : a.IsString ∧ h.IsUnwritable b ∨ b.IsString ∧ h.IsUnwritable a) :
    OperatorFailure h op l r a b .tooManyDigits

/-- Whether an operator on founded operands has to fail in a listed way that is not a signal. -/
structure MustFail (h : Heap) (op : String) (l r : Ty) (a b : Value) (f : Failure) : Prop where
  listed : OperatorFailure h op l r a b f
  not_signal : ∀ s, f ≠ .signal s
  left_founded : h.IsFounded a
  right_founded : h.IsFounded b

/-- How an operator on operands `a` and `b` of types `l` and `r` may end when its type is `t`. -/
structure OperatorOutcome (h : Heap) (op : String) (l r t : Ty) (a b : Value) : Prop where
  /-- A result inhabits the type. -/
  result : ∀ v, Value.binary h op a b = .ok v → t.Inhabits h v
  /-- A failure is one of the listed ones. -/
  failure : ∀ f, Value.binary h op a b = .error f → OperatorFailure h op l r a b f
  /-- Each listed failure occurs when its condition holds, on operands that contain no list that
  contains itself. The signals of decimal arithmetic depend on the sizes of the numbers. -/
  fails : ∀ f, MustFail h op l r a b f → Value.binary h op a b = .error f

/-! ### The outcomes of the operators -/

section Outcome

variable {h : Heap} {op : String} {l r t : Ty} {a b : Value}

/-- An operator that gives a value of its type where nothing makes it fail. -/
theorem OperatorOutcome.of_ok {v : Value} (hv : Value.binary h op a b = .ok v)
    (ht : t.Inhabits h v) (hno : ∀ f, ¬ MustFail h op l r a b f) :
    OperatorOutcome h op l r t a b where
  result := by
    intro w hw
    rw [hv] at hw
    cases hw
    exact ht
  failure := by
    intro f hf
    rw [hv] at hf
    cases hf
  fails := fun f hf => absurd hf (hno f)

/-- An operator that fails in a listed way where nothing makes it fail in another way. -/
theorem OperatorOutcome.of_error {f : Failure} (hf : Value.binary h op a b = .error f)
    (hlisted : OperatorFailure h op l r a b f)
    (honly : ∀ g, MustFail h op l r a b g → g = f) : OperatorOutcome h op l r t a b where
  result := by
    intro v hv
    rw [hf] at hv
    cases hv
  failure := by
    intro g hg
    rw [hf] at hg
    cases hg
    exact hlisted
  fails := by
    intro g hg
    rw [honly g hg]
    exact hf

/-- The conditions under which an operator has to fail, by operator. -/
theorem MustFail.cases {f : Failure} (hf : MustFail h op l r a b f) :
    (op = "/" ∨ op = "%") ∧ b.IsZero ∧ f = .divisionByZero ∨
      op = "^" ∧ ¬ (a.isIntegral = true ∧ b.isIntegral = true) ∧
        f = .run (.powerOperands a.kindName b.kindName) ∨
      op = "^" ∧ b.isNegative = true ∧ f = .run .negativeExponent ∧
        (a.isIntegral = true ∧ b.isIntegral = true) ∨
      (op = "<" ∨ op = ">") ∧ ¬ a.IsOrderedWith b ∧
        f = .run (.notOrdered a.kindName b.kindName) ∨
      op = "+" ∧ (a.IsString ∧ h.IsUnwritable b ∨ b.IsString ∧ h.IsUnwritable a) ∧
        f = .tooManyDigits := by
  obtain ⟨hf, hsig, -, -⟩ := hf
  cases hf with
  | divisionByZero hop hb => exact Or.inl ⟨hop, hb, rfl⟩
  | powerOperands hop hab => exact Or.inr (Or.inl ⟨hop, hab, rfl⟩)
  | negativeExponent hop hab hb => exact Or.inr (Or.inr (Or.inl ⟨hop, hb, rfl, hab⟩))
  | notOrdered hop _ _ hab => exact Or.inr (Or.inr (Or.inr (Or.inl ⟨hop, hab, rfl⟩)))
  | overflow => exact absurd rfl (hsig _)
  | divisionImpossible => exact absurd rfl (hsig _)
  | tooManyDigits hop hab => exact Or.inr (Or.inr (Or.inr (Or.inr ⟨hop, hab, rfl⟩)))

/-- Nothing makes the logical operators and the tests of equality fail. -/
theorem not_mustFail (hop : op = "&&" ∨ op = "||" ∨ op = "==" ∨ op = "!=") (f : Failure) :
    ¬ MustFail h op l r a b f := by
  intro hf
  rcases hop with rfl | rfl | rfl | rfl <;> simpa using hf.cases

theorem outcome_logic (hop : op = "&&" ∨ op = "||") (ha : Ty.boolean.Inhabits h a)
    (hb : Ty.boolean.Inhabits h b) : OperatorOutcome h op .boolean .boolean .boolean a b := by
  obtain ⟨x, rfl⟩ := ha
  obtain ⟨y, rfl⟩ := hb
  rcases hop with rfl | rfl
  · exact .of_ok rfl ⟨_, rfl⟩ (not_mustFail (by simp))
  · exact .of_ok rfl ⟨_, rfl⟩ (not_mustFail (by simp))

theorem outcome_equality (hop : op = "==" ∨ op = "!=") (ha : Ty.comparable.Inhabits h a)
    (hb : Ty.comparable.Inhabits h b) : OperatorOutcome h op l r .boolean a b := by
  obtain ⟨e, he⟩ := Value.equal_comparable ha hb
  rcases hop with rfl | rfl
  · have hv : Value.binary h "==" a b = .ok (.bool e) := by simp [Value.binary, he, Except.map]
    exact .of_ok hv ⟨_, rfl⟩ (not_mustFail (by simp))
  · have hv : Value.binary h "!=" a b = .ok (.bool !e) := by simp [Value.binary, he, Except.map]
    exact .of_ok hv ⟨_, rfl⟩ (not_mustFail (by simp))

/-! #### Order -/

theorem binary_symbol (q : Json.Comparison) :
    Value.binary h q.symbol a b = (Value.compare q a b).map .bool := by
  cases q <;> rfl

/-- Only the lack of an order makes a comparison fail. -/
theorem MustFail.of_symbol {q : Json.Comparison} {f : Failure}
    (hf : MustFail h q.symbol l r a b f) :
    ¬ a.IsOrderedWith b ∧ f = .run (.notOrdered a.kindName b.kindName) := by
  cases q <;> simpa [Json.Comparison.symbol] using hf.cases

/-- Values of one comparable type have an order, unless the type is `Comparable` itself. -/
theorem isOrderedWith_of_inhabits (ht : Ty.comparable.assignable t = true) (hne : t ≠ .comparable)
    (ha : t.Inhabits h a) (hb : t.Inhabits h b) : a.IsOrderedWith b := by
  rcases Ty.assignable_iff.mp ht with h | rfl | ⟨-, rfl | rfl | rfl | rfl⟩
  · cases h
  · exact absurd rfl hne
  · exact Or.inl ⟨ha, hb⟩
  · exact Or.inl ⟨ha, hb⟩
  · exact Or.inr (Or.inl ⟨ha, hb⟩)
  · exact Or.inr (Or.inr ⟨ha, hb⟩)

theorem outcome_order (q : Json.Comparison) (ht : Ty.comparable.assignable t = true)
    (ha : t.Inhabits h a) (hb : t.Inhabits h b) :
    OperatorOutcome h q.symbol t t .boolean a b := by
  by_cases hab : a.IsOrderedWith b
  · obtain ⟨o, ho⟩ := Value.compare_ordered q hab
    have hv : Value.binary h q.symbol a b = .ok (.bool o) := by rw [binary_symbol, ho]; rfl
    exact .of_ok hv ⟨o, rfl⟩ fun f hf => hf.of_symbol.1 hab
  · have hcomp : t = .comparable := by
      by_contra hne
      exact hab (isOrderedWith_of_inhabits ht hne ha hb)
    subst hcomp
    have hf : Value.binary h q.symbol a b =
        .error (.run (.notOrdered a.kindName b.kindName)) := by
      rw [binary_symbol, Value.compare_unordered q ha hb hab]; rfl
    have hsym : q.symbol = "<" ∨ q.symbol = ">" := by cases q <;> simp [Json.Comparison.symbol]
    exact .of_error hf (.notOrdered hsym rfl rfl hab) fun g hg => hg.of_symbol.2

theorem outcome_comparison (hop : op = "<" ∨ op = ">" ∨ op = "==" ∨ op = "!=")
    (ht : Ty.comparable.assignable t = true) (ha : t.Inhabits h a) (hb : t.Inhabits h b) :
    OperatorOutcome h op t t .boolean a b := by
  have ha' := Ty.inhabits_of_assignable ht ha
  have hb' := Ty.inhabits_of_assignable ht hb
  rcases hop with rfl | rfl | rfl | rfl
  · exact outcome_order .less ht ha hb
  · exact outcome_order .greater ht ha hb
  · exact outcome_equality (by simp) ha' hb'
  · exact outcome_equality (by simp) ha' hb'

/-! #### Sums -/

/-- Only an integer that is too long makes a sum fail. -/
theorem MustFail.of_plus {f : Failure} (hf : MustFail h "+" l r a b f) :
    (a.IsString ∧ h.IsUnwritable b ∨ b.IsString ∧ h.IsUnwritable a) ∧ f = .tooManyDigits := by
  simpa using hf.cases

theorem outcome_concatenation (hc : h.IsClosed) (hlr : l = .string ∨ r = .string)
    (ha : l.Inhabits h a) (hb : r.Inhabits h b) : OperatorOutcome h "+" l r .string a b := by
  have hoa : h.Owns a := Ty.inhabits_any ha
  have hob : h.Owns b := Ty.inhabits_any hb
  have hs : a.IsString ∨ b.IsString := by
    rcases hlr with rfl | rfl
    · exact Or.inl ha
    · exact Or.inr hb
  rcases Value.sum_isString hc hoa hob hs with ⟨v, hv, hstr⟩ | ⟨hf, hu⟩
  · refine .of_ok (v := v) hv hstr fun f hf => ?_
    have herr := Value.sum_unwritable hc hoa hob hf.left_founded hf.right_founded
      hf.of_plus.1
    rw [hv] at herr
    cases herr
  · exact .of_error hf (.tooManyDigits rfl hu) fun g hg => hg.of_plus.2

theorem outcome_sum (ht : t = .integer ∨ t = .decimal) (ha : t.Inhabits h a)
    (hb : t.Inhabits h b) : OperatorOutcome h "+" t t t a b := by
  have hin : ∀ v : Value, t.Inhabits h v ↔ v.IsFinite := by
    intro v
    rcases ht with rfl | rfl <;> rfl
  rw [hin] at ha hb
  have hno : ∀ f, ¬ MustFail h "+" t t a b f := by
    intro f hf
    rcases hf.of_plus.1 with ⟨⟨s, rfl⟩, -⟩ | ⟨⟨s, rfl⟩, -⟩
    · exact ha
    · exact hb
  rcases Value.sum_finite (h := h) ha hb with ⟨v, hv, hfin⟩ | hf
  · exact .of_ok (v := v) hv ((hin v).mpr hfin) hno
  · exact .of_error hf (.overflow (by simp)) fun g hg => absurd hg (hno g)

/-! #### The other arithmetic -/

theorem outcome_difference (hop : op = "-" ∨ op = "*")
    (hin : ∀ v : Value, v.IsFinite → t.Inhabits h v)
    (ha : a.IsFinite) (hb : b.IsFinite) : OperatorOutcome h op l r t a b := by
  have hbin : Value.binary h op a b = Value.arithmetic op a b := by
    rcases hop with rfl | rfl <;> rfl
  have hno : ∀ f, ¬ MustFail h op l r a b f := by
    intro f hf
    rcases hop with rfl | rfl <;> simpa using hf.cases
  rcases Value.arithmetic_finite hop ha hb with ⟨v, hv, hfin⟩ | hf
  · exact .of_ok (hbin.trans hv) (hin v hfin) hno
  · exact .of_error (hbin.trans hf) (.overflow (by tauto)) fun g hg => absurd hg (hno g)

theorem outcome_quotient (hop : op = "/" ∨ op = "%")
    (hin : ∀ v : Value, v.IsFinite → t.Inhabits h v)
    (ha : a.IsFinite) (hb : b.IsFinite) : OperatorOutcome h op l r t a b := by
  have hbin : Value.binary h op a b = Value.arithmetic op a b := by
    rcases hop with rfl | rfl <;> rfl
  have hmust : ∀ f, MustFail h op l r a b f → b.IsZero ∧ f = .divisionByZero := by
    intro f hf
    rcases hop with rfl | rfl <;> simpa using hf.cases
  by_cases hz : b.IsZero
  · exact .of_error (hbin.trans (Value.arithmetic_zero hop ha hb hz)) (.divisionByZero hop hz)
      fun g hg => (hmust g hg).2
  · rcases Value.arithmetic_nonzero hop ha hb hz with ⟨v, hv, hfin⟩ | hf | ⟨rfl, hf⟩
    · exact .of_ok (hbin.trans hv) (hin v hfin) fun f hf => hz (hmust f hf).1
    · exact .of_error (hbin.trans hf) (.overflow (by tauto)) fun g hg => absurd (hmust g hg).1 hz
    · exact .of_error (hbin.trans hf) (.divisionImpossible rfl) fun g hg => absurd (hmust g hg).1 hz

theorem outcome_arithmetic (hop : op = "-" ∨ op = "*" ∨ op = "/" ∨ op = "%")
    (hl : l = .integer ∨ l = .decimal) (hr : r = .integer ∨ r = .decimal) (ha : l.Inhabits h a)
    (hb : r.Inhabits h b) : OperatorOutcome h op l r l a b := by
  have hin : ∀ v : Value, v.IsFinite → l.Inhabits h v := by
    intro v hv
    rcases hl with rfl | rfl <;> exact hv
  have ha' : a.IsFinite := by rcases hl with rfl | rfl <;> exact ha
  have hb' : b.IsFinite := by rcases hr with rfl | rfl <;> exact hb
  rcases hop with hop | hop | hop | hop
  · exact outcome_difference (Or.inl hop) hin ha' hb'
  · exact outcome_difference (Or.inr hop) hin ha' hb'
  · exact outcome_quotient (Or.inl hop) hin ha' hb'
  · exact outcome_quotient (Or.inr hop) hin ha' hb'

theorem outcome_power : OperatorOutcome h "^" l r .integer a b := by
  have hmust : ∀ f, MustFail h "^" l r a b f →
      ¬ (a.isIntegral = true ∧ b.isIntegral = true) ∧
          f = .run (.powerOperands a.kindName b.kindName) ∨
        b.isNegative = true ∧ f = .run .negativeExponent ∧
          (a.isIntegral = true ∧ b.isIntegral = true) := by
    intro f hf
    simpa using hf.cases
  rcases Value.power_cases a b with ⟨n, hv, hab, hneg⟩ | ⟨hab, hf⟩ | ⟨hab, hneg, hf⟩
  · refine .of_ok hv trivial fun f hf => ?_
    rcases hmust f hf with ⟨hnot, -⟩ | ⟨hpos, -, -⟩
    · exact hnot hab
    · rw [hneg] at hpos
      cases hpos
  · refine .of_error hf (.powerOperands rfl hab) fun g hg => ?_
    rcases hmust g hg with ⟨-, hg⟩ | ⟨-, -, hint⟩
    · exact hg
    · exact absurd hint hab
  · refine .of_error hf (.negativeExponent rfl hab hneg) fun g hg => ?_
    rcases hmust g hg with ⟨hnot, -⟩ | ⟨-, hg, -⟩
    · exact absurd hab hnot
    · exact hg

/-- The outcome of an operator on operands of the types that its rule asks for. -/
theorem outcome_of_rule (hrule : OperatorRule op l r t) (hc : h.IsClosed) (ha : l.Inhabits h a)
    (hb : r.Inhabits h b) : OperatorOutcome h op l r t a b := by
  cases hrule with
  | logic hop => exact outcome_logic hop ha hb
  | comparison hop ht => exact outcome_comparison hop ht ha hb
  | concatenation hlr => exact outcome_concatenation hc hlr ha hb
  | sum ht => exact outcome_sum ht ha hb
  | arithmetic hop hl hr => exact outcome_arithmetic hop hl hr ha hb
  | power => exact outcome_power

end Outcome

/-- **The types of the operators and the operators agree.** On inhabitants of the operand types, in
a heap that holds only values of the language, an operator gives an inhabitant of its type or fails
in one of the listed ways, and it does fail where their conditions hold. -/
theorem operatorOutcome_of_binaryType {h : Heap} {op : String} {l r t : Ty} {a b : Value}
    (hrule : binaryType op l r = .ok t) (hc : h.IsClosed) (ha : l.Inhabits h a)
    (hb : r.Inhabits h b) : OperatorOutcome h op l r t a b :=
  outcome_of_rule (rule_of_binaryType hrule) hc ha hb

/-- A string is joined with a list whose items are of different kinds. -/
theorem operatorOutcome_string_list :
    OperatorOutcome ⟨#[#[.int 7, .char (.str "x")]]⟩ "+" .string (.list .any) .string
      (.string "n = ") (.list 0) := by
  have hitems : ∀ a, ∀ v ∈ (⟨#[#[.int 7, .char (.str "x")]]⟩ : Heap).items a,
      v = .int 7 ∨ v = .char (.str "x") := by
    intro a v hv
    have ha : a < 1 := Heap.lt_size_of_mem_items hv
    obtain rfl : a = 0 := by omega
    simpa [Heap.items] using hv
  have howns : ∀ a, ∀ v ∈ (⟨#[#[.int 7, .char (.str "x")]]⟩ : Heap).items a,
      (⟨#[#[.int 7, .char (.str "x")]]⟩ : Heap).Owns v := by
    intro a v hv
    rcases hitems a v hv with rfl | rfl <;> trivial
  exact operatorOutcome_of_binaryType rfl howns ⟨_, rfl⟩ ⟨0, rfl, by decide, howns 0⟩

end Scriptlet
