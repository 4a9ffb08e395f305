import Scriptlet.Proofs.Text.Lines
import Scriptlet.Proofs.Value.OperatorTypes

/-! # What operations on values can fail with

Two classes of failures are told apart. *Static* failures are due to names that mean nothing,
assignments that are not allowed, calls of what is no function, and malformed trees. *Kind* failures
are due to values of the wrong kind. Operations on values of a closed heap never fail statically,
and operators on values of the types that the rules ask for never fail for their kinds. What they
fail with is told in one line. -/

namespace Scriptlet

namespace Failure

/-- Whether a failure is due to a name, an assignment, a call or a tree. -/
def IsStatic : Failure → Prop
  | .name _ => True
  | .type _ => True
  | .tree _ => True
  | .run .badReceiver => True
  | .run (.undeclared _) => True
  | .run (.immutable _) => True
  | .run (.notCallable _) => True
  | _ => False

/-- Whether a failure is due to the kind of a value. -/
def IsKind : Failure → Prop
  | .run (.notIndexable _ _) => True
  | .run (.conditionNotBoolean _ _) => True
  | .run (.unsupported _ _ _) => True
  | .run (.booleanOperands _ _ _) => True
  | .run (.notOrdered _ _) => True
  | .run (.unknownOperator _) => True
  | _ => False

/-- Whether a failure is not static and told in one line. -/
structure IsMild (f : Failure) : Prop where
  static : ¬ f.IsStatic
  line : f.IsLine

end Failure

/-- The names of the kinds of values are told in one line. -/
@[simp] theorem Value.not_mem_kindName (v : Value) : '\n' ∉ v.kindName.toList := by
  cases v with
  | foreign j => cases j <;> simp [Value.kindName, Json.kindName]
  | _ => simp [Value.kindName]

namespace Failure.IsMild

theorem signal (s : Decimal.Signal) : IsMild (.signal s) :=
  ⟨id, List.forall_mem_nil _⟩

theorem divisionByZero : IsMild .divisionByZero :=
  ⟨id, List.forall_mem_nil _⟩

theorem tooManyDigits : IsMild .tooManyDigits :=
  ⟨id, List.forall_mem_nil _⟩

theorem unwritable (flaw : Text.Flaw) : IsMild (.unwritable flaw) :=
  ⟨id, List.forall_mem_nil _⟩

/-- A problem of a run that shows only texts of one line. -/
theorem run {p : RunProblem} (hstatic : ¬ IsStatic (.run p))
    (hbare : ∀ s ∈ p.bare, '\n' ∉ s.toList) : IsMild (.run p) :=
  ⟨hstatic, hbare⟩

end Failure.IsMild

theorem error_of_orSignal {α : Type} {r : Except Decimal.Signal α} {f : Failure}
    (h : orSignal r = .error f) : ∃ s, f = .signal s := by
  cases r with
  | error s =>
    cases h
    exact ⟨s, rfl⟩
  | ok a => cases h

theorem error_of_bind {ε α β : Type} {x : Except ε α} {f : α → Except ε β} {e : ε}
    (h : x >>= f = .error e) : x = .error e ∨ ∃ a, x = .ok a ∧ f a = .error e := by
  cases x with
  | error e' =>
    cases h
    exact Or.inl rfl
  | ok a => exact Or.inr ⟨a, rfl, h⟩

/-! ### Equality -/

/-- A walk over a list of tests fails only with the failure of a test. -/
theorem error_of_allM {α ε : Type} {p : α → Except ε Bool} {e : ε} :
    ∀ {xs : List α}, xs.allM p = .error e → ∃ x ∈ xs, p x = .error e
  | [], h => by cases h
  | x :: xs, h => by
    rcases error_of_bind h with h | ⟨b, -, h⟩
    · exact ⟨x, by simp, h⟩
    · cases b with
      | false => cases h
      | true =>
        obtain ⟨y, hy, hp⟩ := error_of_allM h
        exact ⟨y, by simp [hy], hp⟩

/-- Only signals of decimal arithmetic make a test of equality fail. -/
theorem Heap.error_of_equalAt {h : Heap} {f : Failure} {d : Nat} {a b : Value}
    (hf : h.equalAt d a b = .error f) : ∃ s, f = .signal s := by
  fun_induction Heap.equalAt h d a b with
  | case2 | case3 | case4 => exact error_of_orSignal hf
  | case7 _ _ _ _ _ _ ih =>
    obtain ⟨p, -, hp⟩ := error_of_allM hf
    exact ih p hp
  | _ => cases hf

theorem Heap.isMild_of_equal {h : Heap} {a b : Value} {f : Failure}
    (hf : h.equal a b = .error f) : f.IsMild := by
  obtain ⟨s, rfl⟩ := Heap.error_of_equalAt hf
  exact .signal s

/-! ### Texts -/

/-- Only an integer with too many digits keeps a value of a closed heap from having a text. -/
theorem Heap.error_of_text {h : Heap} {v : Value} {f : Failure} (hc : h.IsClosed) (hv : h.Owns v)
    (hf : h.text v = .error f) : f = .tooManyDigits := by
  rcases render_closed hc hv with ⟨s, hs⟩ | ⟨hrender, -⟩
  · rw [text, hs] at hf
    cases hf
  · rw [text, hrender] at hf
    cases hf
    rfl

/-- The same for the texts of several values, which can be joined. -/
theorem Heap.renders_all {h : Heap} {vs : List Value} (hc : h.IsClosed)
    (hvs : ∀ v ∈ vs, h.Owns v) :
    (∃ js, vs.mapM h.render = .ok js ∧ ∃ t, joined js = .ok t) ∨
      vs.mapM h.render = .error .tooManyDigits := by
  rcases mapM_cases vs (fun v hv => rendersAt_of_owns hc h.depth v (hvs v hv)) with
    ⟨js, hjs, htexts⟩ | ⟨v, -, f, hf, rfl, -⟩
  · exact Or.inl ⟨js, hjs, joined_texts htexts⟩
  · exact Or.inr hf

/-! ### Operators on any values -/

/-- Whether a result belongs to a heap, and a failure is mild. -/
def Heap.IsMild (h : Heap) (r : Except Failure Value) : Prop :=
  (∀ v, r = .ok v → h.Owns v) ∧ ∀ f, r = .error f → f.IsMild

namespace Value

variable {h : Heap} {a b : Value}

theorem isMild_ok {v : Value} (hv : h.Owns v) : h.IsMild (.ok v) := by
  refine ⟨fun w hw => ?_, fun f hf => by cases hf⟩
  cases hw
  exact hv

theorem isMild_error {f : Failure} (hf : f.IsMild) : h.IsMild (.error f) := by
  refine ⟨fun v hv => (by cases hv), fun g hg => ?_⟩
  cases hg
  exact hf

theorem isMild_decimal (r : Except Decimal.Signal Decimal) :
    h.IsMild ((orSignal r).map .decimal) := by
  cases r with
  | error s => exact isMild_error (.signal s)
  | ok d => exact isMild_ok trivial

theorem isMild_bool {r : Except Failure Bool} {g : Bool → Bool}
    (hr : ∀ f, r = .error f → f.IsMild) : h.IsMild (r.map fun x => .bool (g x)) := by
  cases r with
  | error f => exact isMild_error (hr f rfl)
  | ok x => exact isMild_ok trivial

theorem isMild_unsupported {op : String} (hop : '\n' ∉ op.toList) :
    h.IsMild (unsupported op a b) :=
  isMild_error (.run id (by simp [RunProblem.bare, hop]))

theorem isMild_sum (hc : h.IsClosed) (ha : h.Owns a) (hb : h.Owns b) : h.IsMild (sum h a b) := by
  by_cases hs : a.IsString ∨ b.IsString
  · rcases sum_isString hc ha hb hs with ⟨v, hv, s, rfl⟩ | ⟨hv, -⟩
    · rw [hv]
      exact isMild_ok trivial
    · rw [hv]
      exact isMild_error .tooManyDigits
  · unfold sum
    split
    · exact (hs (Or.inl ⟨_, rfl⟩)).elim
    · exact (hs (Or.inr ⟨_, rfl⟩)).elim
    · exact isMild_ok trivial
    · split
      · exact isMild_decimal _
      · exact isMild_unsupported (by decide)

theorem isMild_arithmetic {op : String} (hop : '\n' ∉ op.toList) :
    h.IsMild (arithmetic op a b) := by
  unfold arithmetic
  split
  · next x y _ _ =>
    split_ifs
    · exact isMild_decimal _
    · exact isMild_decimal _
    all_goals
      cases Decimal.equal y (.ofInt 0) with
      | error s => exact isMild_error (.signal s)
      | ok zero =>
        cases zero with
        | true => exact isMild_error .divisionByZero
        | false => exact isMild_decimal _
  · exact isMild_unsupported hop

theorem isMild_power : h.IsMild (power a b) := by
  rcases power_cases a b with ⟨n, hn, -⟩ | ⟨-, hn⟩ | ⟨-, -, hn⟩
  · rw [hn]
    exact isMild_ok trivial
  · rw [hn]
    exact isMild_error (.run id (by simp [RunProblem.bare]))
  · rw [hn]
    exact isMild_error (.run id (by simp [RunProblem.bare]))

theorem isMild_of_compare {c : Json.Comparison} {f : Failure} (ha : h.Owns a) (hb : h.Owns b)
    (hf : compare c a b = .error f) : f.IsMild := by
  unfold compare at hf
  split at hf
  · cases hf
  · next s t =>
    cases s with
    | str s =>
      cases t with
      | str t => cases hf
      | _ => exact hb.elim
    | _ => exact ha.elim
  · cases hf
  · split at hf
    · obtain ⟨s, rfl⟩ := error_of_orSignal hf
      exact .signal s
    · cases hf
      exact .run id (by simp [RunProblem.bare])

theorem isMild_logic {op : String} (hop : '\n' ∉ op.toList) : h.IsMild (logic op a b) := by
  unfold logic
  split
  · exact isMild_ok trivial
  · exact isMild_error (.run id (by simp [RunProblem.bare, hop]))

/-- **Operators on values of a closed heap do not fail statically**, and what they fail with is told
in one line. -/
theorem isMild_binary (hc : h.IsClosed) (ha : h.Owns a) (hb : h.Owns b) {op : String}
    (hop : '\n' ∉ op.toList) : h.IsMild (binary h op a b) := by
  unfold binary
  split_ifs
  · exact isMild_sum hc ha hb
  · exact isMild_arithmetic hop
  · exact isMild_power
  · exact isMild_bool (g := id) fun f hf => Heap.isMild_of_equal hf
  · exact isMild_bool fun f hf => Heap.isMild_of_equal hf
  · exact isMild_bool (g := id) fun f hf => isMild_of_compare ha hb hf
  · exact isMild_bool (g := id) fun f hf => isMild_of_compare ha hb hf
  · exact isMild_logic hop
  · exact isMild_error (.run id (by simp [RunProblem.bare, hop]))

end Value

/-! ### Operators on values of the right types -/

theorem OperatorRule.not_mem_op {op : String} {l r t : Ty} (h : OperatorRule op l r t) :
    '\n' ∉ op.toList := by
  cases h with
  | logic hop => rcases hop with rfl | rfl <;> simp
  | comparison hop => rcases hop with rfl | rfl | rfl | rfl <;> simp
  | concatenation => simp
  | sum => simp
  | arithmetic hop => rcases hop with rfl | rfl | rfl | rfl <;> simp
  | power => simp

/-- Apart from `Comparable` operands, which may be of different kinds, no listed failure of an
operator is due to the kinds of its operands. -/
theorem OperatorFailure.not_isKind {h : Heap} {op : String} {l r : Ty} {a b : Value} {f : Failure}
    (hl : l ≠ .comparable) (hf : OperatorFailure h op l r a b f) : ¬ f.IsKind := by
  cases hf with
  | notOrdered _ hl' => exact absurd hl' hl
  | _ => exact id

end Scriptlet
