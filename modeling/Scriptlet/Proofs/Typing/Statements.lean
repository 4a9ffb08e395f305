import Scriptlet.Proofs.Typing.Expressions

/-! # Statements: the analysis and the rules

A statement in a scope that represents a context is accepted exactly if it is well typed by the
rules, and then the scope represents the context after the statement. Blocks are walked in scopes of
their own; when a block is left, the scope around it represents the old context again.

* `stmt_sound`, `block_sound`: what is accepted is derivable.
* `stmt_complete`, `block_complete`: what is derivable is accepted. -/

namespace Scriptlet

theorem typeNamed_eq_ok_iff {n : Name} {t : Ty} : typeNamed n = .ok t ↔ n.Denotes t := by
  constructor
  · intro h
    unfold typeNamed at h
    split at h
    · split at h
      · next u hu =>
        cases h
        have hname := List.find?_some hu
        rw [decide_eq_true_eq] at hname
        exact ⟨List.mem_of_find?_eq_some hu, by rw [hname]⟩
      · cases h
    · cases h
    · cases h
  · rintro ⟨ht, rfl⟩
    simp only [Ty.named, List.mem_cons, List.not_mem_nil, or_false] at ht
    rcases ht with rfl | rfl | rfl | rfl | rfl | rfl | rfl | rfl <;> rfl

theorem Name.Denotes.unique {n : Name} {t s : Ty} (h : n.Denotes t) (h' : n.Denotes s) : s = t :=
  Except.ok.inj ((typeNamed_eq_ok_iff.mpr h').symm.trans (typeNamed_eq_ok_iff.mpr h))

namespace Analysis

variable {level : Int} {s : Nat} {Γ : Context}

theorem declaredType_eq_ok_iff {n : Option Name} {t : Option Ty} :
    declaredType n = .ok t ↔
      n = none ∧ t = none ∨ ∃ m u, n = some m ∧ t = some u ∧ m.Denotes u := by
  cases n with
  | none => simp [declaredType, eq_comm]
  | some n =>
    simp only [declaredType, reduceCtorEq, false_and, false_or, Option.some.injEq]
    constructor
    · intro h
      cases hn : typeNamed n with
      | error e => simp [hn, Except.map] at h
      | ok u =>
        rw [hn] at h
        cases h
        exact ⟨n, u, rfl, rfl, typeNamed_eq_ok_iff.mp hn⟩
    · rintro ⟨m, u, rfl, rfl, hm⟩
      rw [typeNamed_eq_ok_iff.mpr hm]
      rfl

/-! ### Steps that change scopes -/

theorem run_number (a : Analyzer) : number a = (a.next, { a with next := a.next + 1 }) := rfl

theorem run_child (s : Nat) (a : Analyzer) :
    child s a = (a.scopes.size, { a with scopes := a.scopes.addChild s }) := rfl

theorem run_define {v : Variable} {n : Label} (hn : v.name.label = .ok n) (s : Nat)
    (a : Analyzer) :
    define s v a = (.ok (), { a with scopes := a.scopes.defineVariable s n (some v) }) := by
  rw [define, hn]
  rfl

theorem run_define_error {v : Variable} {f : Failure} (hn : v.name.label = .error f) (s : Nat)
    (a : Analyzer) : define s v a = (.error f, a) := by
  rw [define, hn]
  rfl

/-- A variable that is numbered and defined is declared. -/
theorem represents_declare {a : Analyzer} {v : Variable} {n : Label} (h : a.Represents s Γ)
    (hn : n.name = v.name) (l : Array String) :
    Analyzer.Represents
      { a with
        scopes := a.scopes.defineVariable s n (some v)
        next := Γ.next + 1
        trace := l } s (Γ.declare v) := by
  have h' := h.define hn
  exact ⟨h'.nested, h'.lt, h'.vars, h'.funs, rfl⟩

theorem grows_declare {a : Analyzer} {v : Variable} {n : Label} (i : Nat) (l : Array String) :
    Analyzer.Grows s a
      { a with
        scopes := a.scopes.defineVariable s n (some v)
        next := i
        trace := l } :=
  ⟨Forest.growsAt_defineVariable, rfl⟩

/-! ### Declarations with initial values -/

/-- An initial value must be assignable to the declared type, if there is one. -/
theorem value_sound {declared r : Option Ty} {e : Expr} {value : Option Expr} {a a' : Analyzer}
    (hΓ : a.Represents s Γ) (he : e.IsWritten)
    (h : initial level s declared (some e) a = ((value, .ok r), a')) :
    ∃ e' t, value = some e' ∧ e'.HasType Γ t ∧ e'.erase = e ∧ r = some (declared.getD t) ∧
      (declared.getD t).assignable t = true ∧ ∃ l, a' = { a with trace := l } := by
  rw [initial, run_bind] at h
  rcases h₁ : expr level s e a with ⟨⟨e₁, r₁⟩, a₁⟩
  rw [h₁] at h
  cases r₁ with
  | error f => cases h
  | ok t =>
    obtain ⟨ht, rfl, l, rfl⟩ := expr_sound hΓ he h₁
    simp only [ok_bind] at h
    cases hassign : requireAssignable (declared.getD t) t with
    | error f =>
      simp only [hassign, error_bind] at h
      cases h
    | ok _ =>
      simp only [hassign, ok_bind, pure_eq_ok] at h
      cases h
      exact ⟨e₁, t, rfl, ht, rfl, rfl, requireAssignable_eq_ok_iff.mp hassign, l, rfl⟩

variable (level) in
theorem value_complete (declared : Option Ty) {e : Expr} {t : Ty} {a : Analyzer}
    (hΓ : a.Represents s Γ) (he : e.HasType Γ t) (ht : (declared.getD t).assignable t = true) :
    ∃ l, initial level s declared (some e.erase) a =
      ((some e, .ok (some (declared.getD t))), { a with trace := l }) := by
  obtain ⟨l, hl⟩ := expr_complete level hΓ he
  have hassign := (requireAssignable_eq_ok_iff (u := ())).mpr ht
  refine ⟨l, ?_⟩
  rw [initial, run_bind, hl]
  simp only [ok_bind, pure_eq_ok, hassign]
  rfl

/-- A declaration that is accepted is well typed by the rules. -/
theorem initial_sound {n : Option Name} {declared r : Option Ty} {value value' : Option Expr}
    {a a' : Analyzer} (hΓ : a.Represents s Γ) (hvalue : Expr.MayBeWritten value)
    (hn : declaredType n = .ok declared) (hsome : ¬ (n = none ∧ value = none))
    (h : initial level s declared value a = ((value', .ok r), a')) :
    ∃ t, r = some t ∧ Declares Γ n value' t ∧ value'.map Expr.erase = value ∧
      ∃ l, a' = { a with trace := l } := by
  rw [declaredType_eq_ok_iff] at hn
  cases value with
  | none =>
    cases h
    rcases hn with ⟨rfl, rfl⟩ | ⟨m, u, rfl, rfl, hm⟩
    · exact (hsome ⟨rfl, rfl⟩).elim
    · exact ⟨u, rfl, .written hm, rfl, _, rfl⟩
  | some e =>
    obtain ⟨e', t, rfl, he, rfl, rfl, hassign, l, rfl⟩ := value_sound hΓ hvalue h
    rcases hn with ⟨rfl, rfl⟩ | ⟨m, u, rfl, rfl, hm⟩
    · exact ⟨t, rfl, .inferred he, rfl, l, rfl⟩
    · exact ⟨u, rfl, .checked hm he hassign, rfl, l, rfl⟩

variable (level) in
theorem initial_complete {n : Option Name} {value : Option Expr} {t : Ty} {a : Analyzer}
    (hΓ : a.Represents s Γ) (h : Declares Γ n value t) :
    ∃ declared l, declaredType n = .ok declared ∧
      initial level s declared (value.map Expr.erase) a =
        ((value, .ok (some t)), { a with trace := l }) := by
  cases h with
  | written hn =>
    exact ⟨some t, a.trace, declaredType_eq_ok_iff.mpr (.inr ⟨_, t, rfl, rfl, hn⟩), rfl⟩
  | inferred he =>
    obtain ⟨l, hl⟩ := value_complete level none hΓ he (Ty.assignable_refl t)
    exact ⟨none, l, rfl, hl⟩
  | checked hn he hts =>
    obtain ⟨l, hl⟩ := value_complete level (some t) hΓ he hts
    exact ⟨some t, l, declaredType_eq_ok_iff.mpr (.inr ⟨_, t, rfl, rfl, hn⟩), hl⟩

/-! ### What is accepted is derivable -/

/-- A written block counts as empty only if it has no statements. -/
theorem isEmptyBlock_cons {x : Stmt} {xs : List Stmt} (h : Stmt.AreWritten (x :: xs)) :
    isEmptyBlock (x :: xs) = false := by
  cases x with
  | hole _ => exact h.1.elim
  | _ => rfl

/-- The end of the analysis of an assignment, after its receiver. -/
theorem assigned_sound {r e : Expr} {v : Variable} {t : Ty} {n : Name} {x' : Stmt} {u : Unit}
    {a a' : Analyzer} (hΓ : a.Represents s Γ) (hr : r.HasType Γ t) (hv : r.receiver? = some v)
    (he : e.IsWritten)
    (h : (match (if v.mutable then .ok t else .error (.type (.immutable n.shown)) :
        Except Failure Ty) with
      | .error f => pure (.assign r e, .error f)
      | .ok wanted => do
        let (value, vt) ← expr level s e
        return (.assign r value, vt.bind (requireAssignable wanted)) :
          StateM Analyzer (Stmt × Except Failure Unit)) a = ((x', .ok u), a')) :
    ∃ e', x' = .assign r e' ∧ e'.erase = e ∧ Stmt.Typed Γ x' Γ ∧
      ∃ l, a' = { a with trace := l } := by
  cases hmut : v.mutable with
  | false =>
    rw [hmut] at h
    cases h
  | true =>
    simp only [hmut, if_true, run_bind] at h
    rcases h₁ : expr level s e a with ⟨⟨e₁, q⟩, a₁⟩
    rw [h₁] at h
    cases q with
    | error f => cases h
    | ok w =>
      obtain ⟨he', rfl, l, rfl⟩ := expr_sound hΓ he h₁
      obtain ⟨hresult, rfl⟩ := Prod.mk.inj h
      obtain ⟨rfl, hassign⟩ := Prod.mk.inj hresult
      exact ⟨e₁, rfl, rfl, .assign hr hv hmut he' (requireAssignable_eq_ok_iff.mp hassign), l, rfl⟩

/-- An accepted assignment changes a variable that can change, or an element of one. -/
theorem assign_sound {r e : Expr} {x' : Stmt} {u : Unit} {a a' : Analyzer}
    (hΓ : a.Represents s Γ) (hr : r.IsWritten) (he : e.IsWritten)
    (h : stmt level s (.assign r e) a = ((x', .ok u), a')) :
    Stmt.Typed Γ x' Γ ∧ x'.erase = .assign r e ∧ ∃ l, a' = { a with trace := l } := by
  have hplace : (∃ y m q, r = .name y m q) ∨ ∃ y o m q, r = .index y o m q := by
    cases r with
    | name y m q => exact .inl ⟨y, m, q, rfl⟩
    | index y o m q => exact .inr ⟨y, o, m, q, rfl⟩
    | _ => cases h
  have hrun : ∃ r₁ q a₁, expr level s r a = ((r₁, q), a₁) := ⟨_, _, _, rfl⟩
  obtain ⟨r₁, q, a₁, h₁⟩ := hrun
  rcases hplace with ⟨y, m, q', rfl⟩ | ⟨y, o, m, q', rfl⟩
  · rw [stmt] at h
    simp only [Bool.not_true, Bool.false_eq_true, if_false, run_bind, h₁] at h
    cases q with
    | error f => cases h
    | ok t =>
      obtain ⟨hr₁, herase, l, rfl⟩ := expr_sound hΓ hr h₁
      cases hr₁ with
      | name hk hv ht =>
        obtain ⟨e', rfl, rfl, hx', l', rfl⟩ :=
          assigned_sound (hΓ.traced l) (.name hk hv ht) rfl he h
        exact ⟨hx', by rw [Stmt.erase, herase], l', rfl⟩
      | _ => cases herase
  · rw [stmt] at h
    simp only [Bool.not_true, Bool.false_eq_true, if_false, run_bind, h₁] at h
    cases q with
    | error f => cases h
    | ok t =>
      obtain ⟨hr₁, herase, l, rfl⟩ := expr_sound hΓ hr h₁
      cases hr₁ with
      | index ho hi hk hv ht =>
        obtain ⟨e', rfl, rfl, hx', l', rfl⟩ :=
          assigned_sound (hΓ.traced l) (.index ho hi hk hv ht) rfl he h
        exact ⟨hx', by rw [Stmt.erase, herase], l', rfl⟩
      | _ => cases herase

/-- A declared variable is bound after its initial value. -/
theorem declare_sound {x : Name} {n : Option Name} {value : Option Expr} {slot : Option Variable}
    {x' : Stmt} {u : Unit} {a a' : Analyzer} (hΓ : a.Represents s Γ)
    (hx : (Stmt.declare x n value slot).IsWritten)
    (h : stmt level s (.declare x n value slot) a = ((x', .ok u), a')) :
    ∃ Γ', Stmt.Typed Γ x' Γ' ∧ x'.erase = .declare x n value slot ∧ a'.Represents s Γ' ∧
      a.Grows s a' := by
  rw [stmt] at h
  by_cases hsome : n = none ∧ value = none
  · simp only [hsome, Option.isNone_none, Bool.and_self, if_true] at h
    cases h
  have hcond : (n.isNone && value.isNone) = false := by
    cases n <;> cases value <;> simp_all
  simp only [hcond, Bool.false_eq_true, if_false] at h
  cases hn : declaredType n with
  | error f =>
    simp only [hn] at h
    cases h
  | ok declared =>
    simp only [hn, run_bind] at h
    rcases h₁ : initial level s declared value a with ⟨⟨value₁, r⟩, a₁⟩
    rw [h₁] at h
    cases r with
    | error f => cases h
    | ok r =>
      obtain ⟨t, rfl, hdecl, rfl, l, rfl⟩ := initial_sound hΓ (by exact hx) hn hsome h₁
      simp only [run_bind, run_number, Option.getD_some, hΓ.next] at h
      generalize hv : (⟨x, true, t, ⟨Γ.next, none⟩⟩ : Variable) = v at h
      cases hlabel : v.name.label with
      | error f =>
        simp only [run_define_error (v := v) hlabel] at h
        cases h
      | ok k =>
        obtain ⟨hkname, hkey⟩ := Name.of_label hlabel
        simp only [run_define (v := v) hlabel] at h
        cases slot with
        | some w => cases h
        | none =>
          obtain ⟨l', hl'⟩ := run_saying level _ _ _ _ _
          cases hl'.symm.trans h
          subst hv
          exact ⟨Γ.declare _, .declare hdecl hkey rfl, rfl, represents_declare hΓ hkname l',
            grows_declare _ l'⟩

/-- Both blocks are walked in scopes of their own, which are left again. -/
theorem branch_sound {c : Expr} {t e : List Stmt} {x' : Stmt} {u : Unit} {a a' : Analyzer}
    (hΓ : a.Represents s Γ) (hx : (Stmt.branch c t e).IsWritten)
    (iht : ∀ {xs' : List Stmt} {s : Nat} {Γ : Context} {u : Unit} {a a' : Analyzer},
      a.Represents s Γ → block level s t a = ((xs', .ok u), a') →
        ∃ Γ', Stmt.BlockTyped Γ xs' Γ' ∧ Stmt.eraseBlock xs' = t ∧ a'.Represents s Γ' ∧
          a.Grows s a')
    (ihe : ∀ {xs' : List Stmt} {s : Nat} {Γ : Context} {u : Unit} {a a' : Analyzer},
      a.Represents s Γ → block level s e a = ((xs', .ok u), a') →
        ∃ Γ', Stmt.BlockTyped Γ xs' Γ' ∧ Stmt.eraseBlock xs' = e ∧ a'.Represents s Γ' ∧
          a.Grows s a')
    (h : stmt level s (.branch c t e) a = ((x', .ok u), a')) :
    ∃ Γ', Stmt.Typed Γ x' Γ' ∧ x'.erase = .branch c t e ∧ a'.Represents s Γ' ∧ a.Grows s a' := by
  rw [stmt, run_bind] at h
  rcases h₁ : expr level s c a with ⟨⟨c₁, q⟩, a₁⟩
  rw [h₁] at h
  cases q with
  | error f => cases h
  | ok w =>
    obtain ⟨hc, rfl, l, rfl⟩ := expr_sound hΓ hx.1 h₁
    simp only [ok_bind] at h
    cases hbool : requireAssignable .boolean w with
    | error f =>
      simp only [hbool, error_bind] at h
      cases h
    | ok _ =>
      simp only [hbool, ok_bind] at h
      rw [requireAssignable_eq_ok_iff] at hbool
      cases t with
      | nil => cases h
      | cons x xs =>
        simp only [isEmptyBlock_cons hx.2.1, Bool.false_eq_true, if_false, pure_eq_ok, run_bind,
          run_child] at h
        rcases h₂ : block level a.scopes.size (x :: xs)
          { a with scopes := a.scopes.addChild s, trace := l } with ⟨⟨t₁, q⟩, a₂⟩
        simp only [h₂] at h
        cases q with
        | error f => cases h
        | ok _ =>
          have hΓl := hΓ.traced l
          obtain ⟨Γ₁, ht, herase, hΓ₁, hgrows₁⟩ := iht hΓl.child h₂
          obtain ⟨hleft₁, hgrown₁⟩ := Analyzer.Grows.leave hΓl hgrows₁ hΓ₁
          simp only [run_bind, run_child] at h
          rcases h₃ : block level a₂.scopes.size e
            { a₂ with scopes := a₂.scopes.addChild s } with ⟨⟨e₁, q⟩, a₃⟩
          simp only [h₃] at h
          cases h
          obtain ⟨Γ₂, he, rfl, hΓ₂, hgrows₂⟩ := ihe hleft₁.child h₃
          obtain ⟨hleft₂, hgrown₂⟩ := Analyzer.Grows.leave hleft₁ hgrows₂ hΓ₂
          have hgrown := ((Analyzer.Grows.traced s a l).trans hgrown₁).trans hgrown₂
          cases t₁ with
          | nil => cases herase
          | cons y ys =>
            refine ⟨_, .branch hc hbool ht he, ?_, hleft₂, hgrown⟩
            rw [Stmt.erase, herase]

mutual

/-- **An accepted statement is well typed by the rules.** -/
theorem stmt_sound : ∀ {x x' : Stmt} {s : Nat} {Γ : Context} {u : Unit} {a a' : Analyzer},
    a.Represents s Γ → x.IsWritten → stmt level s x a = ((x', .ok u), a') →
      ∃ Γ', Stmt.Typed Γ x' Γ' ∧ x'.erase = x ∧ a'.Represents s Γ' ∧ a.Grows s a'
  | .expr e, x', s, Γ, u, a, a', hΓ, hx, h => by
    rw [stmt, run_bind] at h
    rcases h₁ : expr level s e a with ⟨⟨e₁, r⟩, a₁⟩
    rw [h₁] at h
    cases r with
    | error f => cases h
    | ok t =>
      obtain ⟨he, rfl, l, rfl⟩ := expr_sound hΓ (by exact hx) h₁
      cases h
      exact ⟨Γ, .expr he, rfl, hΓ.traced l, .traced s a l⟩
  | .declare x n value slot, x', s, Γ, u, a, a', hΓ, hx, h => declare_sound hΓ hx h
  | .assign r e, x', s, Γ, u, a, a', hΓ, hx, h => by
    obtain ⟨hx', herase, l, rfl⟩ := assign_sound hΓ hx.1 hx.2 h
    exact ⟨Γ, hx', herase, hΓ.traced l, .traced s a l⟩
  | .branch c t e, x', s, Γ, u, a, a', hΓ, hx, h =>
    branch_sound hΓ hx (fun hΓ h => block_sound hΓ hx.2.1 h) (fun hΓ h => block_sound hΓ hx.2.2 h) h
  | .switch c cs, x', s, Γ, u, a, a', hΓ, hx, h => by
    rw [stmt, run_bind] at h
    rcases h₁ : expr level s c a with ⟨⟨c₁, q⟩, a₁⟩
    rw [h₁] at h
    cases q with
    | error f => cases h
    | ok t =>
      obtain ⟨hc, rfl, l, rfl⟩ := expr_sound hΓ hx.1 h₁
      simp only [run_bind] at h
      rcases h₂ : cases level s t cs { a with trace := l } with ⟨⟨cs₁, q⟩, a₂⟩
      rw [h₂] at h
      cases h
      obtain ⟨Γ', hcs, rfl, hΓ', hgrows⟩ := cases_sound (hΓ.traced l) hx.2 h₂
      exact ⟨Γ', .switch hc hcs, rfl, hΓ', (Analyzer.Grows.traced s a l).trans hgrows⟩
  | .loop c b, x', s, Γ, u, a, a', hΓ, hx, h => by
    rw [stmt, run_bind] at h
    rcases h₁ : expr level s c a with ⟨⟨c₁, q⟩, a₁⟩
    rw [h₁] at h
    cases q with
    | error f => cases h
    | ok w =>
      obtain ⟨hc, rfl, l, rfl⟩ := expr_sound hΓ hx.1 h₁
      cases hbool : requireAssignable .boolean w with
      | error f =>
        simp only [Except.bind, hbool] at h
        cases h
      | ok _ =>
        simp only [Except.bind, hbool, run_bind, run_child] at h
        rw [requireAssignable_eq_ok_iff] at hbool
        have hΓl := hΓ.traced l
        rcases h₂ : block level a.scopes.size b
          { a with scopes := a.scopes.addChild s, trace := l } with ⟨⟨b₁, q⟩, a₂⟩
        simp only [h₂] at h
        cases h
        obtain ⟨Γ₁, hb, rfl, hΓ₁, hgrows⟩ := block_sound hΓl.child hx.2 h₂
        obtain ⟨hleft, hgrown⟩ := Analyzer.Grows.leave hΓl hgrows hΓ₁
        exact ⟨_, .loop hc hbool hb, rfl, hleft, (Analyzer.Grows.traced s a l).trans hgrown⟩
  | .ret e, x', s, Γ, u, a, a', hΓ, hx, h => by
    rw [stmt, run_bind] at h
    rcases h₁ : expr level s e a with ⟨⟨e₁, r⟩, a₁⟩
    rw [h₁] at h
    cases r with
    | error f => cases h
    | ok t =>
      obtain ⟨he, rfl, l, rfl⟩ := expr_sound hΓ (by exact hx) h₁
      cases h
      exact ⟨Γ, .ret he, rfl, hΓ.traced l, .traced s a l⟩
  | .hole _, _, _, _, _, _, _, _, hx, _ => hx.elim
termination_by structural x => x

/-- An accepted block is well typed by the rules. -/
theorem block_sound : ∀ {xs xs' : List Stmt} {s : Nat} {Γ : Context} {u : Unit}
    {a a' : Analyzer}, a.Represents s Γ → Stmt.AreWritten xs →
    block level s xs a = ((xs', .ok u), a') →
      ∃ Γ', Stmt.BlockTyped Γ xs' Γ' ∧ Stmt.eraseBlock xs' = xs ∧ a'.Represents s Γ' ∧
        a.Grows s a'
  | [], xs', s, Γ, u, a, a', hΓ, _, h => by
    rw [block] at h
    cases h
    exact ⟨Γ, .nil, rfl, hΓ, .refl s a⟩
  | x :: xs, xs', s, Γ, u, a, a', hΓ, hx, h => by
    rw [block, run_bind] at h
    rcases h₁ : stmt level s x a with ⟨⟨x₁, q⟩, a₁⟩
    rw [h₁] at h
    cases q with
    | error f => cases h
    | ok _ =>
      obtain ⟨Γ₁, hx₁, rfl, hΓ₁, hgrows⟩ := stmt_sound hΓ hx.1 h₁
      simp only [run_bind] at h
      rcases h₂ : block level s xs a₁ with ⟨⟨xs₁, q⟩, a₂⟩
      rw [h₂] at h
      cases h
      obtain ⟨Γ₂, hxs, rfl, hΓ₂, hgrows₂⟩ := block_sound hΓ₁ hx.2 h₂
      exact ⟨Γ₂, .cons hx₁ hxs, rfl, hΓ₂, hgrows.trans hgrows₂⟩
termination_by structural x => x

/-- An accepted case is well typed by the rules. -/
theorem case_sound : ∀ {c c' : Case} {s : Nat} {Γ : Context} {t : Ty} {u : Unit}
    {a a' : Analyzer}, a.Represents s Γ → c.IsWritten → case level s t c a = ((c', .ok u), a') →
      ∃ Γ', Case.Typed Γ t c' Γ' ∧ c'.erase = c ∧ a'.Represents s Γ' ∧ a.Grows s a'
  | .equals e b, c', s, Γ, t, u, a, a', hΓ, hc, h => by
    rw [case, run_bind] at h
    rcases h₁ : expr level s e a with ⟨⟨e₁, q⟩, a₁⟩
    rw [h₁] at h
    cases q with
    | error f => cases h
    | ok w =>
      obtain ⟨he, rfl, l, rfl⟩ := expr_sound hΓ hc.1 h₁
      cases hassign : requireAssignable t w with
      | error f =>
        simp only [Except.bind, hassign] at h
        cases h
      | ok _ =>
        simp only [Except.bind, hassign, run_bind, run_child] at h
        rw [requireAssignable_eq_ok_iff] at hassign
        have hΓl := hΓ.traced l
        rcases h₂ : block level a.scopes.size b
          { a with scopes := a.scopes.addChild s, trace := l } with ⟨⟨b₁, q⟩, a₂⟩
        simp only [h₂] at h
        cases h
        obtain ⟨Γ₁, hb, rfl, hΓ₁, hgrows⟩ := block_sound hΓl.child hc.2 h₂
        obtain ⟨hleft, hgrown⟩ := Analyzer.Grows.leave hΓl hgrows hΓ₁
        exact ⟨_, .equals he hassign hb, rfl, hleft, (Analyzer.Grows.traced s a l).trans hgrown⟩
  | .otherwise b, c', s, Γ, t, u, a, a', hΓ, hc, h => by
    rw [case, run_bind, run_child] at h
    simp only [run_bind] at h
    rcases h₂ : block level a.scopes.size b { a with scopes := a.scopes.addChild s } with
      ⟨⟨b₁, q⟩, a₂⟩
    simp only [h₂] at h
    cases h
    obtain ⟨Γ₁, hb, rfl, hΓ₁, hgrows⟩ := block_sound hΓ.child hc h₂
    obtain ⟨hleft, hgrown⟩ := Analyzer.Grows.leave hΓ hgrows hΓ₁
    exact ⟨_, .otherwise hb, rfl, hleft, hgrown⟩
  | .blockless _, _, _, _, _, _, _, _, _, hc, _ => hc.elim
  | .hole _, _, _, _, _, _, _, _, _, hc, _ => hc.elim
termination_by structural x => x

/-- Accepted cases are well typed by the rules. -/
theorem cases_sound : ∀ {cs cs' : List Case} {s : Nat} {Γ : Context} {t : Ty} {u : Unit}
    {a a' : Analyzer}, a.Represents s Γ → Case.AreWritten cs →
    cases level s t cs a = ((cs', .ok u), a') →
      ∃ Γ', Case.ListTyped Γ t cs' Γ' ∧ Case.eraseAll cs' = cs ∧ a'.Represents s Γ' ∧
        a.Grows s a'
  | [], cs', s, Γ, t, u, a, a', hΓ, _, h => by
    rw [Analysis.cases] at h
    cases h
    exact ⟨Γ, .nil, rfl, hΓ, .refl s a⟩
  | c :: cs, cs', s, Γ, t, u, a, a', hΓ, hc, h => by
    rw [Analysis.cases, run_bind] at h
    rcases h₁ : case level s t c a with ⟨⟨c₁, q⟩, a₁⟩
    rw [h₁] at h
    cases q with
    | error f => cases h
    | ok _ =>
      obtain ⟨Γ₁, hc₁, rfl, hΓ₁, hgrows⟩ := case_sound hΓ hc.1 h₁
      simp only [run_bind] at h
      rcases h₂ : Analysis.cases level s t cs a₁ with ⟨⟨cs₁, q⟩, a₂⟩
      rw [h₂] at h
      cases h
      obtain ⟨Γ₂, hcs, rfl, hΓ₂, hgrows₂⟩ := cases_sound hΓ₁ hc.2 h₂
      exact ⟨Γ₂, .cons hc₁ hcs, rfl, hΓ₂, hgrows.trans hgrows₂⟩
termination_by structural x => x

end

/-! ### What is derivable is accepted -/

section Complete

variable (level)

/-- A well-typed declaration has a type or an initial value. -/
theorem isSome_of_declares {n : Option Name} {value : Option Expr} {t : Ty}
    (h : Declares Γ n value t) : (n.isNone && (value.map Expr.erase).isNone) = false := by
  cases h <;> rfl

/-- A well-typed block with a statement does not count as empty. -/
theorem isEmptyBlock_erase {x : Stmt} {xs : List Stmt} {Γ' : Context}
    (h : Stmt.BlockTyped Γ (x :: xs) Γ') : isEmptyBlock (Stmt.eraseBlock (x :: xs)) = false := by
  cases h with
  | cons hx _ =>
    rw [Stmt.eraseBlock]
    cases hx <;> rw [Stmt.erase] <;> rfl

/-- A well-typed assignment is accepted. -/
theorem assign_complete {r e : Expr} {v : Variable} {t w : Ty} {a : Analyzer}
    (hΓ : a.Represents s Γ) (hr : r.HasType Γ t) (hv : r.receiver? = some v)
    (hmut : v.mutable = true) (he : e.HasType Γ w) (hts : t.assignable w = true) :
    ∃ l, stmt level s (.assign r.erase e.erase) a =
      ((.assign r e, .ok ()), { a with trace := l }) := by
  obtain ⟨l, hl⟩ := expr_complete level hΓ hr
  obtain ⟨l', hl'⟩ := expr_complete level (hΓ.traced l) he
  have hassign := (requireAssignable_eq_ok_iff (u := ())).mpr hts
  refine ⟨l', ?_⟩
  cases hr with
  | name hk hfind ht =>
    cases hv
    rw [Expr.erase] at hl ⊢
    rw [stmt]
    simp only [Bool.not_true, Bool.false_eq_true, if_false, run_bind, hl, ok_bind, hmut, if_true,
      pure_eq_ok, hl', Except.bind, hassign]
    rfl
  | index ho hi hk hfind ht =>
    cases hv
    rw [Expr.erase] at hl ⊢
    rw [stmt]
    simp only [Bool.not_true, Bool.false_eq_true, if_false, run_bind, hl, ok_bind, hmut, if_true,
      pure_eq_ok, hl', Except.bind, hassign]
    rfl
  | _ => cases hv

mutual

/-- **A well-typed statement is accepted, and the slots are filled as in the derivation.** -/
theorem stmt_complete : ∀ {x : Stmt} {s : Nat} {Γ Γ' : Context} {a : Analyzer},
    a.Represents s Γ → Stmt.Typed Γ x Γ' →
      ∃ a', stmt level s x.erase a = ((x, .ok ()), a') ∧ a'.Represents s Γ' ∧ a.Grows s a'
  | _, s, _, _, a, hΓ, .expr he => by
    obtain ⟨l, hl⟩ := expr_complete level hΓ he
    refine ⟨_, ?_, hΓ.traced l, .traced s a l⟩
    rw [Stmt.erase, stmt, run_bind, hl]
    rfl
  | _, s, Γ, _, a, hΓ, .declare (k := k) (v := v) ht hk hv => by
    obtain ⟨declared, l, hdecl, hl⟩ := initial_complete level hΓ ht
    have hkey : v.name.key = .ok k := by
      rw [hv]
      exact hk
    have hlabel := Name.label_of_key hkey
    rw [Stmt.erase, stmt]
    simp only [isSome_of_declares ht, Bool.false_eq_true, if_false, hdecl, run_bind, hl, run_number,
      Option.getD_some, hΓ.next, ← hv, run_define hlabel]
    obtain ⟨l', hl'⟩ := run_saying level _ _ _ _ _
    exact ⟨_, hl', represents_declare hΓ rfl l', grows_declare _ l'⟩
  | _, s, Γ, _, a, hΓ, .assign hr hv hmut he hts => by
    obtain ⟨l, hl⟩ := assign_complete level hΓ hr hv hmut he hts
    rw [Stmt.erase]
    exact ⟨_, hl, hΓ.traced l, .traced s a l⟩
  | _, s, Γ, _, a, hΓ, .branch hc hs hthen helse => by
    obtain ⟨l, hl⟩ := expr_complete level hΓ hc
    have hΓl := hΓ.traced l
    obtain ⟨a₁, h₁, hΓ₁, hgrows₁⟩ := block_complete hΓl.child hthen
    obtain ⟨hleft₁, hgrown₁⟩ := Analyzer.Grows.leave hΓl hgrows₁ hΓ₁
    obtain ⟨a₂, h₂, hΓ₂, hgrows₂⟩ := block_complete hleft₁.child helse
    obtain ⟨hleft₂, hgrown₂⟩ := Analyzer.Grows.leave hleft₁ hgrows₂ hΓ₂
    refine ⟨a₂, ?_, hleft₂, ((Analyzer.Grows.traced s a l).trans hgrown₁).trans hgrown₂⟩
    have hbool := (requireAssignable_eq_ok_iff (u := ())).mpr hs
    rw [Stmt.erase, stmt, run_bind, hl]
    simp only [ok_bind, hbool, isEmptyBlock_erase hthen, Bool.false_eq_true, if_false, pure_eq_ok,
      run_bind, run_child, h₁, h₂]
    rfl
  | _, s, Γ, _, a, hΓ, .switch hc hcs => by
    obtain ⟨l, hl⟩ := expr_complete level hΓ hc
    obtain ⟨a', h, hΓ', hgrows⟩ := cases_complete (hΓ.traced l) hcs
    refine ⟨a', ?_, hΓ', (Analyzer.Grows.traced s a l).trans hgrows⟩
    rw [Stmt.erase, stmt, run_bind, hl]
    simp only [run_bind, h]
    rfl
  | _, s, Γ, _, a, hΓ, .loop hc hs hb => by
    obtain ⟨l, hl⟩ := expr_complete level hΓ hc
    have hΓl := hΓ.traced l
    obtain ⟨a₁, h₁, hΓ₁, hgrows⟩ := block_complete hΓl.child hb
    obtain ⟨hleft, hgrown⟩ := Analyzer.Grows.leave hΓl hgrows hΓ₁
    refine ⟨a₁, ?_, hleft, (Analyzer.Grows.traced s a l).trans hgrown⟩
    have hbool := (requireAssignable_eq_ok_iff (u := ())).mpr hs
    rw [Stmt.erase, stmt, run_bind, hl]
    simp only [Except.bind, hbool, run_bind, run_child, h₁]
    rfl
  | _, s, _, _, a, hΓ, .ret he => by
    obtain ⟨l, hl⟩ := expr_complete level hΓ he
    refine ⟨_, ?_, hΓ.traced l, .traced s a l⟩
    rw [Stmt.erase, stmt, run_bind, hl]
    rfl

/-- A well-typed block is accepted. -/
theorem block_complete : ∀ {xs : List Stmt} {s : Nat} {Γ Γ' : Context} {a : Analyzer},
    a.Represents s Γ → Stmt.BlockTyped Γ xs Γ' →
      ∃ a', block level s (Stmt.eraseBlock xs) a = ((xs, .ok ()), a') ∧ a'.Represents s Γ' ∧
        a.Grows s a'
  | _, s, _, _, a, hΓ, .nil => by
    refine ⟨a, ?_, hΓ, .refl s a⟩
    rw [Stmt.eraseBlock, block]
    rfl
  | _, s, _, _, a, hΓ, .cons hx hxs => by
    obtain ⟨a₁, h₁, hΓ₁, hgrows₁⟩ := stmt_complete hΓ hx
    obtain ⟨a₂, h₂, hΓ₂, hgrows₂⟩ := block_complete hΓ₁ hxs
    refine ⟨a₂, ?_, hΓ₂, hgrows₁.trans hgrows₂⟩
    rw [Stmt.eraseBlock, block, run_bind, h₁]
    simp only [run_bind, h₂]
    rfl

/-- A well-typed case is accepted. -/
theorem case_complete : ∀ {c : Case} {s : Nat} {Γ Γ' : Context} {t : Ty} {a : Analyzer},
    a.Represents s Γ → Case.Typed Γ t c Γ' →
      ∃ a', case level s t c.erase a = ((c, .ok ()), a') ∧ a'.Represents s Γ' ∧ a.Grows s a'
  | _, s, _, _, _, a, hΓ, .equals he hts hb => by
    obtain ⟨l, hl⟩ := expr_complete level hΓ he
    have hΓl := hΓ.traced l
    obtain ⟨a₁, h₁, hΓ₁, hgrows⟩ := block_complete hΓl.child hb
    obtain ⟨hleft, hgrown⟩ := Analyzer.Grows.leave hΓl hgrows hΓ₁
    refine ⟨a₁, ?_, hleft, (Analyzer.Grows.traced s a l).trans hgrown⟩
    have hassign := (requireAssignable_eq_ok_iff (u := ())).mpr hts
    rw [Case.erase, case, run_bind, hl]
    simp only [Except.bind, hassign, run_bind, run_child, h₁]
    rfl
  | _, s, _, _, _, a, hΓ, .otherwise hb => by
    obtain ⟨a₁, h₁, hΓ₁, hgrows⟩ := block_complete hΓ.child hb
    obtain ⟨hleft, hgrown⟩ := Analyzer.Grows.leave hΓ hgrows hΓ₁
    refine ⟨a₁, ?_, hleft, hgrown⟩
    rw [Case.erase, case, run_bind, run_child]
    simp only [run_bind, h₁]
    rfl

/-- Well-typed cases are accepted. -/
theorem cases_complete : ∀ {cs : List Case} {s : Nat} {Γ Γ' : Context} {t : Ty} {a : Analyzer},
    a.Represents s Γ → Case.ListTyped Γ t cs Γ' →
      ∃ a', cases level s t (Case.eraseAll cs) a = ((cs, .ok ()), a') ∧ a'.Represents s Γ' ∧
        a.Grows s a'
  | _, s, _, _, _, a, hΓ, .nil => by
    refine ⟨a, ?_, hΓ, .refl s a⟩
    rw [Case.eraseAll, Analysis.cases]
    rfl
  | _, s, _, _, _, a, hΓ, .cons hc hcs => by
    obtain ⟨a₁, h₁, hΓ₁, hgrows₁⟩ := case_complete hΓ hc
    obtain ⟨a₂, h₂, hΓ₂, hgrows₂⟩ := cases_complete hΓ₁ hcs
    refine ⟨a₂, ?_, hΓ₂, hgrows₁.trans hgrows₂⟩
    rw [Case.eraseAll, Analysis.cases, run_bind, h₁]
    simp only [run_bind, h₂]
    rfl

end

end Complete

end Analysis

end Scriptlet
