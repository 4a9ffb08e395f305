import Scriptlet.Proofs.Typing.Scopes

/-! # Expressions: the analysis and the rules

The analysis of an expression in a scope that represents a context accepts the expression exactly if
the rules give it a type, and the filled tree is the record of the derivation. Both directions are
proved along the syntax; expressions declare nothing, so the analysis changes its trace only.

* `expr_sound`, `exprs_sound`, `items_sound`: what is accepted is derivable.
* `expr_complete`, `exprs_complete`, `items_complete`: what is derivable is accepted. -/

namespace Scriptlet

/-! ### Rules without scopes -/

theorem requireAssignable_eq_ok_iff {t s : Ty} {u : Unit} :
    requireAssignable t s = .ok u ↔ t.assignable s = true := by
  unfold requireAssignable
  split
  · next h => simp [h]
  · next h => simp [h]

theorem Ty.assignable_refl (t : Ty) : t.assignable t = true := by
  cases t <;> simp [Ty.assignable, Ty.lineage]

theorem Ty.of_element? {t u : Ty} (h : t.element? = some u) : t = .list u := by
  cases t <;> simp [Ty.element?] at h
  rw [h]

theorem requireArguments_eq_ok_iff {u : Unit} :
    ∀ {ps ts : List Ty}, ps.length = ts.length →
      (requireArguments ps ts = .ok u ↔
        List.Forall₂ (fun p s => Ty.assignable p s = true) ps ts)
  | [], [], _ => by simp [requireArguments]
  | p :: ps, t :: ts, hlen => by
    have hlen' : ps.length = ts.length := by simpa using hlen
    rw [List.forall₂_cons, ← requireArguments_eq_ok_iff (u := u) hlen',
      ← requireAssignable_eq_ok_iff (u := ())]
    cases h : requireAssignable p t with
    | error e => simp [requireArguments, h, bind, Except.bind]
    | ok u => simp [requireArguments, h, bind, Except.bind]
  | [], _ :: _, hlen => by simp at hlen
  | _ :: _, [], hlen => by simp at hlen

theorem checkDecimal_eq_ok_iff {d : Decimal} {u : Unit} :
    checkDecimal (.decimal d) = .ok u ↔
      ∃ m, Decimal.abs .working d = .ok m ∧ Decimal.less maxDecimal m = .ok false := by
  constructor
  · intro h
    obtain ⟨m, hm, h⟩ := ok_of_bind h
    obtain ⟨b, hb, h⟩ := ok_of_bind h
    refine ⟨m, ?_, ?_⟩
    · cases habs : Decimal.abs .working d with
      | error e => simp [orSignal, Except.mapError, habs] at hm
      | ok m' => simpa [orSignal, Except.mapError, habs] using hm
    · cases hless : Decimal.less maxDecimal m with
      | error e => simp [orSignal, Except.mapError, hless] at hb
      | ok b' =>
        cases b' with
        | true =>
          obtain rfl : true = b := by simpa [orSignal, Except.mapError, hless] using hb
          cases h
        | false => rfl
  · rintro ⟨m, habs, hless⟩
    simp [checkDecimal, orSignal, habs, hless, Except.mapError, bind, Except.bind, pure,
      Except.pure]

/-- The rules for literals, for data of the kind of the literal. -/
theorem rule_of_literalType {v : Datum} {k : LiteralKind} {t : Ty} (hv : v.IsOf k)
    (h : literalType v k = .ok t) : LiteralRule v k t := by
  cases hv with
  | nil => cases h; exact .nil
  | boolean b => cases h; exact .boolean b
  | @integer n _ =>
    simp only [literalType, checkInteger] at h
    split at h
    · next hn =>
      cases h
      simp only [Bool.and_eq_true, decide_eq_true_eq] at hn
      exact .integer hn.1 hn.2
    · cases hn : showInt n with
      | error e => simp [hn, bind, Except.bind, Except.map] at h
      | ok s => simp [hn, bind, Except.bind, Except.map, throw, throwThe, MonadExceptOf.throw] at h
  | decimal d =>
    cases hd : checkDecimal (.decimal d) with
    | error e => simp [literalType, hd, Except.map] at h
    | ok u =>
      obtain ⟨m, habs, hless⟩ := checkDecimal_eq_ok_iff.mp hd
      obtain rfl : Ty.decimal = t := by simpa [literalType, hd, Except.map] using h
      exact .decimal habs hless
  | character s => cases h; exact .character s
  | string s => cases h; exact .string s

theorem literalType_of_rule {v : Datum} {k : LiteralKind} {t : Ty} (h : LiteralRule v k t) :
    literalType v k = .ok t := by
  cases h with
  | nil => rfl
  | boolean b => rfl
  | integer hmin hmax => simp [literalType, checkInteger, hmin, hmax, Except.map]
  | decimal habs hmax =>
    rw [literalType, checkDecimal_eq_ok_iff (u := ()) |>.mpr ⟨_, habs, hmax⟩]
    rfl
  | character s => rfl
  | string s => rfl

/-- A function that a name with a number of arguments means has that many parameters. -/
theorem Context.arity_of_findFunction? {Γ : Context} {k : Key} {n : Nat} {f : Signature}
    (h : Γ.findFunction? k n = some f) : f.params.length = n := by
  have := List.find?_some h
  simp only [Bool.and_eq_true, decide_eq_true_eq] at this
  exact this.2

theorem Expr.HaveTypes.length_eq {Γ : Context} :
    ∀ {es : List Expr} {ts : List Ty}, HaveTypes Γ es ts → es.length = ts.length
  | _, _, .nil => rfl
  | _, _, .cons _ hes => congrArg (· + 1) hes.length_eq

/-- The slot of an expression holds its type. -/
theorem Expr.HasType.type?_eq {Γ : Context} {e : Expr} {t : Ty} (h : e.HasType Γ t) :
    e.type? = some t := by
  cases h <;> rfl

namespace Analysis

variable {level : Int} {s : Nat} {Γ : Context}

/-! ### Steps of the analysis -/

theorem run_bind {α β : Type} (x : StateM Analyzer α) (f : α → StateM Analyzer β) (a : Analyzer) :
    (x >>= f) a = f (x a).1 (x a).2 := rfl

theorem run_pure {α : Type} (b : α) (a : Analyzer) :
    (pure b : StateM Analyzer α) a = (b, a) := rfl

theorem run_get (a : Analyzer) : (get : StateM Analyzer Analyzer) a = (a, a) := rfl

/-- Tracing to standard error changes the trace only. -/
theorem say_eq (level least : Int) (line : Text) (a : Analyzer) :
    ∃ l, say level least line a = (.ok (), { a with trace := l }) := by
  by_cases h : least ≤ level
  · exact ⟨a.trace.push line.shown, if_pos h⟩
  · exact ⟨a.trace, if_neg h⟩

theorem run_saying {α β : Type} (level least : Int) (line : Text) (tree : α) (verdict : β)
    (a : Analyzer) :
    ∃ l, saying level least line tree verdict a = ((tree, .ok verdict), { a with trace := l }) := by
  obtain ⟨l, hl⟩ := say_eq level least line a
  exact ⟨l, by rw [saying, run_bind, hl]; rfl⟩

/-- A slot is written if it is empty. -/
theorem settle_ok {tag : Tag} {slot : Option Ty} {t t' : Ty} {rebuild : Option Ty → Expr}
    {e : Expr} {a a' : Analyzer}
    (h : (pure (settle tag slot t rebuild) : StateM Analyzer _) a = ((e, .ok t'), a')) :
    slot = none ∧ e = rebuild (some t) ∧ t' = t ∧ a' = a := by
  cases slot with
  | none =>
    cases h
    exact ⟨rfl, rfl, rfl, rfl⟩
  | some u => cases h

theorem settleList_ok {vs : List Expr} {slot : Option Ty} {r : Except Failure (Option Ty)}
    {e : Expr} {t : Ty} (h : settleList vs slot r = (e, .ok t)) :
    ∃ u, r = .ok (some u) ∧ slot = none ∧ e = .list vs (some (.list u)) ∧ t = .list u := by
  cases r with
  | error f => cases h
  | ok r =>
    cases r with
    | none => cases h
    | some u =>
      cases slot with
      | none =>
        cases h
        exact ⟨u, rfl, rfl, rfl, rfl⟩
      | some w => cases h

/-! ### What is accepted is derivable -/

/-- An item is read at a place that is found first. -/
theorem index_sound {x : Name} {o e' : Expr} {m : Option Variable} {slot : Option Ty} {t : Ty}
    {a a' : Analyzer} (hΓ : a.Represents s Γ)
    (ih : ∀ {o' : Expr} {u : Ty} {a' : Analyzer}, expr level s o a = ((o', .ok u), a') →
      o'.HasType Γ u ∧ o'.erase = o ∧ ∃ l, a' = { a with trace := l })
    (h : expr level s (.index x o m slot) a = ((e', .ok t), a')) :
    e'.HasType Γ t ∧ e'.erase = .index x o m slot ∧ ∃ l, a' = { a with trace := l } := by
  rw [expr, run_bind] at h
  rcases h₁ : expr level s o a with ⟨⟨o₁, r⟩, a₁⟩
  rw [h₁] at h
  cases r with
  | error f => cases h
  | ok u =>
    obtain ⟨ho, rfl, l, rfl⟩ := ih h₁
    simp only [run_bind, run_get, ok_bind] at h
    cases hint : requireAssignable .integer u with
    | error f =>
      simp only [hint, error_bind] at h
      cases h
    | ok _ =>
      simp only [hint, ok_bind] at h
      cases hv : a.scopes.lookupVariable s x with
      | error f =>
        simp only [hv] at h
        cases h
      | ok v =>
        simp only [hv] at h
        obtain ⟨k, hk, hfind⟩ := Forest.lookupVariable_eq_ok_iff.mp hv
        rw [hΓ.vars] at hfind
        cases m with
        | some w => cases h
        | none =>
          cases hw : v.type.element? with
          | none =>
            simp only [hw] at h
            cases h
          | some w =>
            simp only [hw] at h
            obtain ⟨rfl, rfl, rfl, rfl⟩ := settle_ok h
            exact ⟨.index ho (requireAssignable_eq_ok_iff.mp hint) hk hfind
              (Ty.of_element? hw), rfl, l, rfl⟩

/-- A function is looked up by the number of arguments, which are typed first. -/
theorem call_sound {x : Name} {args : List Expr} {e' : Expr} {target : Option Signature}
    {slot : Option Ty} {t : Ty} {a a' : Analyzer} (hΓ : a.Represents s Γ)
    (ih : ∀ {args' : List Expr} {ts : List Ty} {a' : Analyzer},
      exprs level s args a = ((args', .ok ts), a') →
        Expr.HaveTypes Γ args' ts ∧ Expr.eraseAll args' = args ∧ ∃ l, a' = { a with trace := l })
    (h : expr level s (.call x args target slot) a = ((e', .ok t), a')) :
    e'.HasType Γ t ∧ e'.erase = .call x args target slot ∧ ∃ l, a' = { a with trace := l } := by
  rw [expr, run_bind] at h
  rcases h₁ : exprs level s args a with ⟨⟨args₁, r⟩, a₁⟩
  rw [h₁] at h
  cases r with
  | error f => cases h
  | ok ts =>
    obtain ⟨hargs, rfl, l, rfl⟩ := ih h₁
    simp only [run_bind, run_get, ok_bind] at h
    cases hf : a.scopes.lookupFunction s x args₁.length with
    | error f =>
      simp only [hf, error_bind] at h
      cases h
    | ok f =>
      simp only [hf, ok_bind] at h
      obtain ⟨k, hk, hfind⟩ := Forest.lookupFunction_eq_ok_iff.mp hf
      rw [hΓ.funs] at hfind
      have hlen : f.params.length = ts.length := by
        rw [Context.arity_of_findFunction? hfind, hargs.length_eq]
      cases hparams : requireArguments f.params ts with
      | error f =>
        simp only [hparams, error_bind] at h
        cases h
      | ok _ =>
        simp only [hparams, ok_bind, pure_eq_ok] at h
        rw [requireArguments_eq_ok_iff hlen] at hparams
        cases target with
        | some w => cases h
        | none =>
          cases slot with
          | some w => cases h
          | none =>
            obtain ⟨l', hl'⟩ := run_saying level _ _ _ _ _
            cases hl'.symm.trans h
            exact ⟨.call hargs hk hfind hparams rfl, rfl, l', rfl⟩

mutual

/-- **An accepted expression has its type by the rules.** -/
theorem expr_sound : ∀ {e e' : Expr} {t : Ty} {a a' : Analyzer}, a.Represents s Γ → e.IsWritten →
    expr level s e a = ((e', .ok t), a') →
      e'.HasType Γ t ∧ e'.erase = e ∧ ∃ l, a' = { a with trace := l }
  | .literal v k slot, e', t, a, a', _, he, h => by
    rw [expr] at h
    cases hv : literalType v k with
    | error f =>
      rw [hv] at h
      cases h
    | ok u =>
      rw [hv] at h
      obtain ⟨rfl, rfl, rfl, rfl⟩ := settle_ok h
      exact ⟨.literal (rule_of_literalType he hv), rfl, _, rfl⟩
  | .group e slot, e', t, a, a', hΓ, he, h => by
    rw [expr, run_bind] at h
    rcases h₁ : expr level s e a with ⟨⟨e₁, r⟩, a₁⟩
    rw [h₁] at h
    cases r with
    | error f => cases h
    | ok u =>
      obtain ⟨he₁, rfl, l, rfl⟩ := expr_sound hΓ (by exact he) h₁
      obtain ⟨rfl, rfl, rfl, rfl⟩ := settle_ok h
      exact ⟨.group he₁, rfl, l, rfl⟩
  | .binary op x y slot, e', t, a, a', hΓ, he, h => by
    rw [expr, run_bind] at h
    rcases h₁ : expr level s x a with ⟨⟨x₁, r⟩, a₁⟩
    rw [h₁] at h
    cases r with
    | error f => cases h
    | ok u =>
      obtain ⟨hx, rfl, l, rfl⟩ := expr_sound hΓ he.1 h₁
      simp only [run_bind] at h
      rcases h₂ : expr level s y { a with trace := l } with ⟨⟨y₁, r⟩, a₂⟩
      rw [h₂] at h
      cases r with
      | error f => cases h
      | ok w =>
        obtain ⟨hy, rfl, l, rfl⟩ := expr_sound (hΓ.traced _) he.2 h₂
        cases hop : binaryType op u w with
        | error f =>
          simp only [Except.bind, hop] at h
          cases h
        | ok b =>
          simp only [Except.bind, hop] at h
          obtain ⟨rfl, rfl, rfl, rfl⟩ := settle_ok h
          exact ⟨.binary hx hy (rule_of_binaryType hop), rfl, l, rfl⟩
  | .name x m slot, e', t, a, a', hΓ, _, h => by
    rw [expr, run_bind, run_get] at h
    cases hv : a.scopes.lookupVariable s x with
    | error f =>
      simp only [hv] at h
      cases h
    | ok v =>
      simp only [hv] at h
      obtain ⟨k, hk, hfind⟩ := Forest.lookupVariable_eq_ok_iff.mp hv
      cases m with
      | some w => cases h
      | none =>
        obtain ⟨rfl, rfl, rfl, rfl⟩ := settle_ok h
        rw [hΓ.vars] at hfind
        exact ⟨.name hk hfind rfl, rfl, _, rfl⟩
  | .index x o m slot, e', t, a, a', hΓ, he, h =>
    index_sound hΓ (fun h₁ => expr_sound hΓ (by exact he) h₁) h
  | .call x args target slot, e', t, a, a', hΓ, he, h =>
    call_sound hΓ (fun h₁ => exprs_sound hΓ (by exact he) h₁) h
  | .list vs slot, e', t, a, a', hΓ, he, h => by
    rw [expr, run_bind] at h
    rcases h₁ : items level s none vs a with ⟨⟨vs₁, r⟩, a₁⟩
    rw [h₁] at h
    obtain ⟨hlist, rfl⟩ := Prod.mk.inj h
    obtain ⟨u, rfl, rfl, rfl, rfl⟩ := settleList_ok hlist
    obtain ⟨ts, hvs, rfl, hu, hts, l, rfl⟩ := items_sound hΓ (by exact he) h₁
    cases hvs with
    | nil => cases hu
    | cons hv hvs =>
      cases hu
      exact ⟨.list (.cons hv hvs) fun s hs => hts _ rfl s (by simp [hs]), rfl, l, rfl⟩
  | .hole _, _, _, _, _, _, he, _ => he.elim
termination_by structural x => x

/-- Accepted expressions have their types by the rules. -/
theorem exprs_sound : ∀ {es es' : List Expr} {ts : List Ty} {a a' : Analyzer},
    a.Represents s Γ → Expr.AreWritten es → exprs level s es a = ((es', .ok ts), a') →
      Expr.HaveTypes Γ es' ts ∧ Expr.eraseAll es' = es ∧ ∃ l, a' = { a with trace := l }
  | [], es', ts, a, a', _, _, h => by
    rw [exprs] at h
    cases h
    exact ⟨.nil, rfl, _, rfl⟩
  | e :: es, es', ts, a, a', hΓ, he, h => by
    rw [exprs, run_bind] at h
    rcases h₁ : expr level s e a with ⟨⟨e₁, r⟩, a₁⟩
    rw [h₁] at h
    cases r with
    | error f => cases h
    | ok t =>
      obtain ⟨he₁, rfl, l, rfl⟩ := expr_sound hΓ he.1 h₁
      simp only [run_bind] at h
      rcases h₂ : exprs level s es { a with trace := l } with ⟨⟨es₁, r⟩, a₂⟩
      rw [h₂] at h
      cases r with
      | error f => cases h
      | ok us =>
        obtain ⟨hes₁, rfl, l, rfl⟩ := exprs_sound (hΓ.traced _) he.2 h₂
        cases h
        exact ⟨.cons he₁ hes₁, rfl, l, rfl⟩
termination_by structural x => x

/-- Accepted items have types by the rules, and all are assignable to the type of the items, which
the first one gives unless it is known. -/
theorem items_sound : ∀ {es es' : List Expr} {element r : Option Ty} {a a' : Analyzer},
    a.Represents s Γ → Expr.AreWritten es → items level s element es a = ((es', .ok r), a') →
      ∃ ts, Expr.HaveTypes Γ es' ts ∧ Expr.eraseAll es' = es ∧ r = element.or ts.head? ∧
        (∀ t, r = some t → ∀ s ∈ ts, t.assignable s = true) ∧ ∃ l, a' = { a with trace := l }
  | [], es', element, r, a, a', _, _, h => by
    rw [items] at h
    cases h
    exact ⟨[], .nil, rfl, by simp, by simp, _, rfl⟩
  | e :: es, es', element, r, a, a', hΓ, he, h => by
    rw [items, run_bind] at h
    rcases h₁ : expr level s e a with ⟨⟨e₁, r₁⟩, a₁⟩
    rw [h₁] at h
    cases r₁ with
    | error f => cases h
    | ok t =>
      obtain ⟨he₁, rfl, l, rfl⟩ := expr_sound hΓ he.1 h₁
      simp only [ok_bind] at h
      cases hassign : requireAssignable (element.getD t) t with
      | error f =>
        simp only [hassign, error_bind] at h
        cases h
      | ok _ =>
        simp only [hassign, ok_bind, pure_eq_ok] at h
        rw [requireAssignable_eq_ok_iff] at hassign
        simp only [run_bind] at h
        rcases h₂ : items level s (some (element.getD t)) es { a with trace := l } with
          ⟨⟨es₁, r₂⟩, a₂⟩
        rw [h₂] at h
        cases h
        obtain ⟨ts, hes₁, rfl, hr, hts, l, rfl⟩ := items_sound (hΓ.traced _) he.2 h₂
        have hr : r = some (element.getD t) := by simpa using hr
        refine ⟨t :: ts, .cons he₁ hes₁, rfl, ?_, ?_, l, rfl⟩
        · cases element <;> simp [hr]
        · intro u hu s hs
          rcases List.mem_cons.mp hs with rfl | hs
          · cases hr.symm.trans hu
            exact hassign
          · exact hts u hu s hs
termination_by structural x => x

end

/-! ### What is derivable is accepted -/

section Complete

variable (level)

mutual

/-- **An expression that has a type by the rules is accepted, and the slots are filled as in the
derivation.** -/
theorem expr_complete : ∀ {e : Expr} {t : Ty} {a : Analyzer}, a.Represents s Γ → e.HasType Γ t →
    ∃ l, expr level s e.erase a = ((e, .ok t), { a with trace := l })
  | _, _, a, _, .literal hrule => by
    refine ⟨a.trace, ?_⟩
    rw [Expr.erase, expr, literalType_of_rule hrule]
    rfl
  | _, _, a, hΓ, .group he => by
    obtain ⟨l, hl⟩ := expr_complete hΓ he
    refine ⟨l, ?_⟩
    rw [Expr.erase, expr, run_bind, hl]
    rfl
  | _, _, a, hΓ, .binary hx hy hrule => by
    obtain ⟨l, hl⟩ := expr_complete hΓ hx
    obtain ⟨l', hl'⟩ := expr_complete (hΓ.traced l) hy
    refine ⟨l', ?_⟩
    rw [Expr.erase, expr, run_bind, hl]
    simp only [run_bind, hl', Except.bind, binaryType_of_rule hrule]
    rfl
  | _, _, a, hΓ, .name hk hv ht => by
    refine ⟨a.trace, ?_⟩
    rw [← hΓ.vars] at hv
    rw [Expr.erase, expr, run_bind, run_get]
    simp only [Forest.lookupVariable_eq_ok_iff.mpr ⟨_, hk, hv⟩, ← ht]
    rfl
  | _, _, a, hΓ, .index ho hi hk hv ht => by
    obtain ⟨l, hl⟩ := expr_complete hΓ ho
    refine ⟨l, ?_⟩
    rw [← hΓ.vars] at hv
    rw [Expr.erase, expr, run_bind, hl]
    have hint := (requireAssignable_eq_ok_iff (u := ())).mpr hi
    simp only [run_bind, run_get, ok_bind, hint, Forest.lookupVariable_eq_ok_iff.mpr ⟨_, hk, hv⟩,
      ht, Ty.element?]
    rfl
  | _, _, a, hΓ, .call hargs hk hf hparams ht => by
    obtain ⟨l, hl⟩ := exprs_complete hΓ hargs
    have hlen := (Context.arity_of_findFunction? hf).trans hargs.length_eq
    rw [← hΓ.funs] at hf
    subst ht
    simp only [Expr.erase, expr, run_bind, hl, run_get, ok_bind, pure_eq_ok,
      Forest.lookupFunction_eq_ok_iff.mpr ⟨_, hk, hf⟩,
      (requireArguments_eq_ok_iff (u := ()) hlen).mpr hparams]
    exact run_saying level _ _ _ _ _
  | _, _, a, hΓ, .list hes hts => by
    have hall : ∀ s ∈ _ :: _, Ty.assignable _ s = true :=
      List.forall_mem_cons.mpr ⟨Ty.assignable_refl _, hts⟩
    obtain ⟨l, hl⟩ := items_complete hΓ none hes rfl hall
    refine ⟨l, ?_⟩
    rw [Expr.erase, expr, run_bind, hl]
    rfl

theorem exprs_complete : ∀ {es : List Expr} {ts : List Ty} {a : Analyzer}, a.Represents s Γ →
    Expr.HaveTypes Γ es ts →
      ∃ l, exprs level s (Expr.eraseAll es) a = ((es, .ok ts), { a with trace := l })
  | _, _, a, _, .nil => by
    refine ⟨a.trace, ?_⟩
    rw [Expr.eraseAll, exprs]
    rfl
  | _, _, a, hΓ, .cons he hes => by
    obtain ⟨l, hl⟩ := expr_complete hΓ he
    obtain ⟨l', hl'⟩ := exprs_complete (hΓ.traced l) hes
    refine ⟨l', ?_⟩
    rw [Expr.eraseAll, exprs, run_bind, hl]
    simp only [run_bind, hl']
    rfl

/-- Items that are assignable to the type of the items are accepted. -/
theorem items_complete : ∀ {es : List Expr} {ts : List Ty} {t : Ty} {a : Analyzer},
    a.Represents s Γ → ∀ element : Option Ty, Expr.HaveTypes Γ es ts →
    element.or ts.head? = some t → (∀ s ∈ ts, t.assignable s = true) →
      ∃ l, items level s element (Expr.eraseAll es) a =
        ((es, .ok (some t)), { a with trace := l })
  | _, _, t, a, _, element, .nil, ht, _ => by
    obtain rfl : element = some t := by simpa using ht
    refine ⟨a.trace, ?_⟩
    rw [Expr.eraseAll, items]
    rfl
  | _, _, t, a, hΓ, element, .cons (t := u) he hes, ht, hts => by
    obtain ⟨l, hl⟩ := expr_complete hΓ he
    have hknown : element.getD u = t := by
      cases element <;> simpa using ht
    have hassign : requireAssignable t u = .ok () :=
      requireAssignable_eq_ok_iff.mpr (hts u (by simp))
    obtain ⟨l', hl'⟩ := items_complete (hΓ.traced l) (some t) hes rfl
      fun s hs => hts s (by simp [hs])
    refine ⟨l', ?_⟩
    rw [Expr.eraseAll, items, run_bind, hl]
    simp only [ok_bind, pure_eq_ok, hknown, hassign, run_bind, hl']
    rfl

end

end Complete

end Analysis

end Scriptlet
