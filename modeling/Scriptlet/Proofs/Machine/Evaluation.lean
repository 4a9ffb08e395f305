import Scriptlet.Proofs.Machine.Invariant

/-! # Runs of well-typed code

Every part of a well-typed program, run in a world with the invariant, leads to one with the
invariant again, and its result fits the type that the rules give to it. All functions of the
machine call each other, so this is one statement about all of them (`Runs`), by induction on the
bound of their recursion; each function has a lemma of its own that takes the statement for the
smaller bound.

* `runs`: the statement, for all bounds. -/

namespace Scriptlet.Setting

open Machine

variable {W : Setting} {α β : Type} {w w' : World} {m : Machine} {τ : List Ty} {n s : Nat}

/-! ### Rules for steps -/

section Rules

variable {Q : α → Machine → Prop}

theorem leads_after {x : Exec α} {P : World → α → Prop} (h : W.Evolves n w w')
    (hx : Leads W.Exit x m (W.Gives n w' P)) : Leads W.Exit x m (W.Gives n w P) := by
  refine hx.mono fun a m' ha => ?_
  obtain ⟨τ, hlater, ha⟩ := ha
  exact ⟨τ, h.trans hlater, ha⟩

/-- Whatever comes next starts from a later world. -/
theorem leads_then {x : Exec α} {f : α → Exec β} {P : World → α → Prop}
    {Q : β → Machine → Prop} (hx : Leads W.Exit x m (W.Gives n w P))
    (hf : ∀ a m' τ, W.Evolves n w (m'.world τ) → P (m'.world τ) a → Leads W.Exit (f a) m' Q) :
    Leads W.Exit (x >>= f) m Q := by
  rw [leads_bind]
  refine hx.mono fun a m' ha => ?_
  obtain ⟨τ, hlater, ha⟩ := ha
  exact hf a m' τ hlater ha

theorem leads_lift {r : Except Failure α} (hw : W.Holds (m.world τ)) (hok : ∀ a, r = .ok a → Q a m)
    (herror : ∀ f, r = .error f → W.Allows f) : Leads W.Exit (lift r) m Q := by
  cases r with
  | ok a => exact hok a rfl
  | error f => exact ⟨τ, hw, herror f rfl⟩

theorem meets_place {p : Place} {o : Option Place} (hp : W.Meets m p) :
    W.Meets { m with place := o } p := by
  cases p <;> exact hp

theorem Meets.resolves {p : Place} (hp : W.Meets m p) : p.Resolves W.vars m := by
  cases p with
  | expr s e => exact hp.1
  | _ => exact hp

theorem leads_pause {p : Place} (hw : W.Holds (m.world τ)) (hp : W.Meets m p) :
    Leads W.Exit (pause p) m Q :=
  ⟨τ, hw, p, rfl, meets_place hp⟩

theorem leads_tick {p : Place} {Q : Unit → Machine → Prop} (hw : W.Holds (m.world τ))
    (hp : W.Meets m p) (hgo : ∀ n, Q () { m with steps := n }) : Leads W.Exit (tick p) m Q :=
  Machine.leads_tick ⟨τ, hw, p, rfl, meets_place hp⟩ hgo

theorem leads_say {line : Text} {Q : Unit → Machine → Prop} (hw : W.Holds (m.world τ))
    (hQ : ∀ lines, Q () { m with trace := lines }) : Leads W.Exit (say tracer line) m Q :=
  Machine.leads_say (fun flaw => ⟨τ, hw, allows_unwritable flaw⟩) fun _ => hQ _

theorem leads_print {line : Text} {Q : Unit → Machine → Prop} (hw : W.Holds (m.world τ))
    (hQ : ∀ lines, Q () { m with output := lines }) : Leads W.Exit (print line) m Q :=
  Machine.leads_print (fun flaw => ⟨τ, hw, allows_unwritable flaw⟩) fun _ => hQ _

theorem leads_text {v : Value} {Q : Text → Machine → Prop} (hw : W.Holds (m.world τ))
    (hv : m.heap.Owns v) (hQ : ∀ line, Q line m) : Leads W.Exit (text v) m Q := by
  unfold text
  rw [leads_bind, leads_get]
  refine leads_lift hw (fun line _ => hQ line) fun f hf => ?_
  rw [Heap.error_of_text hw.closed hv hf]
  exact allows_tooManyDigits

theorem leads_traced {vs : List Value} {r : Except Failure α} (hw : W.Holds (m.world τ))
    (hok : ∀ a, r = .ok a → Q a m) (herror : ∀ f, r = .error f → W.Allows f) :
    Leads W.Exit (traced vs r) m Q := by
  cases r with
  | ok a => exact hok a rfl
  | error f => exact ⟨τ, hw, herror f rfl⟩

theorem leads_tracedText {v : Value} {Q : Text → Machine → Prop} (hw : W.Holds (m.world τ))
    (hv : m.heap.Owns v) (hQ : ∀ line, Q line m) : Leads W.Exit (tracedText v) m Q := by
  unfold tracedText
  rw [leads_bind, leads_get]
  refine leads_traced hw (fun line _ => hQ line) fun f hf => ?_
  rw [Heap.error_of_text hw.closed hv hf]
  exact allows_tooManyDigits

theorem leads_tracedTexts {vs : List Value} {Q : Text → Machine → Prop}
    (hw : W.Holds (m.world τ)) (hvs : ∀ v ∈ vs, m.heap.Owns v) (hQ : ∀ line, Q line m) :
    Leads W.Exit (tracedTexts vs) m Q := by
  unfold tracedTexts
  rw [leads_bind, leads_get, leads_bind]
  rcases Heap.renders_all hw.closed hvs with ⟨js, hjs, line, hline⟩ | herror
  · rw [hjs]
    refine leads_traced hw (fun js' hjs' => ?_) fun f hf => by cases hf
    cases hjs'
    rw [hline]
    exact hQ line
  · rw [herror]
    exact ⟨τ, hw, allows_tooManyDigits⟩

end Rules

/-! ### The statement -/

/-- How a statement or block of a function that returns a type may end: with a value of the type, or
without one and with `P`. -/
def Ends (W : Setting) (returns : Ty) (P : World → Prop) (w : World) : Option Value → Prop
  | none => P w
  | some v => W.Fits w returns v

/-- What is known of all runs within a bound. -/
structure Runs (W : Setting) (tracer : Tracer) (fuel : Nat) : Prop where
  eval : ∀ {Γ : Context} {s : Nat} {e : Expr} {t : Ty} {m : Machine} {τ : List Ty},
    e.HasType Γ t → W.Holds (m.world τ) → W.Shows m.scopes s Γ →
      Leads W.Exit (eval tracer fuel s e) m
        (W.Gives (s + 1) (m.world τ) fun w v => W.Fits w t v)
  evalAll : ∀ {Γ : Context} {s : Nat} {es : List Expr} {ts : List Ty} {m : Machine}
    {τ : List Ty}, Expr.HaveTypes Γ es ts → W.Holds (m.world τ) → W.Shows m.scopes s Γ →
      Leads W.Exit (evalAll tracer fuel s es) m
        (W.Gives (s + 1) (m.world τ) fun w vs => List.Forall₂ (W.Fits w) ts vs)
  call : ∀ {c : Callable} {g : Signature} {vs : List Value} {m : Machine} {τ : List Ty},
    W.Implements c g → List.Forall₂ (W.Fits (m.world τ)) g.params vs → W.Holds (m.world τ) →
      Leads W.Exit (call tracer fuel c vs) m
        (W.Gives m.scopes.size (m.world τ) fun w v => W.Fits w g.returns v)
  block : ∀ {Γ Γ' : Context} {s : Nat} {xs : List Stmt} {returns : Ty} {m : Machine} {τ : List Ty},
    Stmt.BlockTyped Γ xs Γ' → (∀ x ∈ Stmt.nestedIn xs, W.Admits returns x) → root < s →
      W.Holds (m.world τ) → W.Shows m.scopes s Γ →
      Leads W.Exit (block tracer fuel s xs) m
        (W.Gives s (m.world τ) (W.Ends returns fun _ => ∀ e, Stmt.ret e ∉ xs))
  exec : ∀ {Γ Γ' : Context} {s : Nat} {x : Stmt} {returns : Ty} {m : Machine} {τ : List Ty},
    Stmt.Typed Γ x Γ' → (∀ y ∈ x.nested, W.Admits returns y) → root < s →
      W.Holds (m.world τ) → W.Shows m.scopes s Γ →
      Leads W.Exit (exec tracer fuel s x) m
        (W.Gives s (m.world τ)
          (W.Ends returns fun w => W.Shows w.scopes s Γ' ∧ ∀ e, x ≠ .ret e))
  matching : ∀ {Γ Γ' : Context} {s : Nat} {t : Ty} {v : Value} {cs : List Case} {m : Machine}
    {τ : List Ty}, Case.ListTyped Γ t cs Γ' → W.Holds (m.world τ) → W.Shows m.scopes s Γ →
      Leads W.Exit (matching tracer fuel s v cs) m
        (W.Gives (s + 1) (m.world τ) fun _ r => ∀ b, r = some b → ∃ e, Case.equals e b ∈ cs)
  loop : ∀ {Γ Γ' : Context} {s : Nat} {c : Expr} {t : Ty} {b : List Stmt} {returns : Ty}
    {m : Machine} {τ : List Ty}, c.HasType Γ t → Ty.boolean.assignable t = true →
      Stmt.BlockTyped Γ b Γ' → (∀ x ∈ Stmt.nestedIn b, W.Admits returns x) →
      W.Holds (m.world τ) → W.Shows m.scopes s Γ →
      Leads W.Exit (loop tracer fuel s c b) m
        (W.Gives (s + 1) (m.world τ) (W.Ends returns fun w => W.Shows w.scopes s Γ))

variable {tracer : Tracer} {fuel : Nat} {Γ Γ' : Context}

/-! ### Expressions -/

/-- The name that is looked up at an expression means a binding of the variable in its slot. -/
theorem resolves_expr {e : Expr} {t : Ty} (hW : W.IsSound) (he : e.HasType Γ t)
    (hw : W.Holds (m.world τ)) (hs : W.Shows m.scopes s Γ) :
    (Place.expr s e).Resolves W.vars m := by
  have hlookup {x : Name} {k : Key} {v : Variable} (hk : x.key = .ok k)
      (hv : Γ.findVariable? k = some v) :
      ∃ v' ∈ W.vars, some v = some v' ∧ ∃ b, m.scopes.lookupVariable s x = .ok b ∧ b.IsOf v' := by
    obtain ⟨b, hb, hbv, -⟩ := hs.resolve hW hw hv
    exact ⟨v, (hs.vars k v hv).1, rfl, b, Forest.lookupVariable_eq_ok_iff.mpr ⟨k, hk, hb⟩, hbv⟩
  intro x slot hx
  cases he with
  | name hk hv _ =>
    cases hx
    exact hlookup hk hv
  | index _ _ hk hv _ =>
    cases hx
    exact hlookup hk hv
  | _ => cases hx

/-- A name that means a variable is told in one line if the names of variables are. -/
theorem isLine_of_shows {x : Name} {k : Key} {y : Variable} (hs : W.Shows m.scopes s Γ)
    (hk : x.key = .ok k) (hy : Γ.findVariable? k = some y) (hvars : ∀ v ∈ W.vars, v.name.IsLine) :
    x.IsLine := by
  obtain ⟨l, hl, hfeed⟩ := hvars y (hs.vars k y hy).1
  have hknown := List.find?_some (p := fun v : Variable => v.name.isKnownAs k) hy
  rw [hl, Name.isKnownAs_iff] at hknown
  cases hknown
  -- no name that is no text is known by a text
  cases x with
  | text l' =>
    cases hk
    exact ⟨l, rfl, hfeed⟩
  | _ => cases hk

theorem meets_expr {e : Expr} {t : Ty} (hW : W.IsSound) (he : e.HasType Γ t)
    (hw : W.Holds (m.world τ)) (hs : W.Shows m.scopes s Γ) : W.Meets m (.expr s e) :=
  ⟨resolves_expr hW he hw hs, fun _ _ _ _ _ => ⟨Γ, t, he, hs⟩⟩

/-- A call means a function that can take its arguments and gives a value of its type. -/
theorem implements_of_call {k : Key} {g : Signature} {ts : List Ty} {vs : List Value}
    (hW : W.IsSound) (hw : W.Holds w) (hΓ : W.Covers Γ) (hg : Γ.findFunction? k vs.length = some g)
    (hparams : List.Forall₂ (fun p u => Ty.assignable p u = true) g.params ts)
    (hvs : List.Forall₂ (W.Fits w) ts vs) :
    ∃ c g', W.table k vs.length = some c ∧ W.Implements c g' ∧
      List.Forall₂ (W.Fits w) g'.params vs ∧
      ∀ {w' : World} {v : Value}, W.Fits w' g'.returns v → W.Fits w' g.returns v := by
  obtain ⟨-, c, hc, hsignature⟩ := hΓ k vs.length g hg
  obtain ⟨g', hg', hlength, -⟩ := hW.table k vs.length c hc
  refine ⟨c, g', hc, hg', ?_⟩
  cases hs : W.strict with
  | true =>
    cases (hsignature hs).symm.trans hg'.signature?_eq
    exact ⟨fits_all_of_assignable hw hparams hvs, id⟩
  | false =>
    exact ⟨fits_all_of_loose hs hlength (owns_of_fits_all hvs), fun hv => hv.loose hs⟩

/-- A list of items whose types are assignable to one type. -/
theorem leads_items (ih : W.Runs tracer fuel) {es : List Expr} {t : Ty} {ts : List Ty}
    (hes : Expr.HaveTypes Γ es ts) (hts : ∀ u ∈ ts, t.assignable u = true)
    (hw : W.Holds (m.world τ)) (hΓ : W.Shows m.scopes s Γ) :
    Leads W.Exit (evalAll tracer fuel s es >>= newList) m
      (W.Gives (s + 1) (m.world τ) fun w v => W.Fits w (.list t) v) := by
  refine leads_then (ih.evalAll hes hw hΓ) fun vs m₁ τ₁ h₁ hvs => ?_
  rw [leads_newList]
  obtain ⟨h₂, hlist⟩ := h₁.holds.alloc (fits_of_fits_all h₁.holds hts hvs) (s + 1)
  exact ⟨_, h₁.trans h₂, hlist⟩

theorem eval_succ (hW : W.IsSound) (ih : W.Runs tracer fuel) {e : Expr} {t : Ty}
    (he : e.HasType Γ t) (hw : W.Holds (m.world τ)) (hs : W.Shows m.scopes s Γ) :
    Leads W.Exit (eval tracer (fuel + 1) s e) m
      (W.Gives (s + 1) (m.world τ) fun w v => W.Fits w t v) := by
  rw [eval.eq_def]
  dsimp only
  rw [leads_bind]
  refine leads_tick hw (meets_expr hW he hw hs) fun k => ?_
  cases he with
  | literal hrule => exact ⟨τ, hw.evolves _, fits_literal hrule⟩
  | group he => exact ih.eval he hw hs
  | binary hl hr hrule =>
    have hplain (h : W.strict = true) := (hl.isPlain (hs.isPlain hW h)).ne_comparable
    refine leads_then (ih.eval hl hw hs) fun a m₁ τ₁ h₁ ha => ?_
    refine leads_then (ih.eval hr h₁.holds (hs.later hw h₁)) fun b m₂ τ₂ h₂ hb => ?_
    rw [leads_bind, leads_get]
    obtain ⟨hok, herror⟩ := binary_cases h₂.holds hrule hplain (ha.mono h₂.grows) hb
    exact leads_lift h₂.holds (fun v hv => ⟨τ₂, h₁.trans h₂, hok v hv⟩) herror
  | name hk hv ht =>
    obtain ⟨b, hb, -, hfits⟩ := hs.resolve hW hw hv
    have hlookup := Forest.lookupVariable_eq_ok_iff.mpr ⟨_, hk, hb⟩
    rw [leads_bind, leads_get, leads_bind, hlookup, leads_lift_ok]
    exact ⟨τ, hw.evolves _, ht ▸ hfits⟩
  | index ho hi hk hv ht =>
    obtain ⟨b, hb, -, hfits⟩ := hs.resolve hW hw hv
    have hlookup := Forest.lookupVariable_eq_ok_iff.mpr ⟨_, hk, hb⟩
    rw [ht] at hfits
    rw [leads_bind, leads_get, leads_bind, hlookup, leads_lift_ok, leads_bind]
    refine leads_lift hw (fun a ha => ?_) fun f hf =>
      allows_of_requireList hfits (isLine_of_shows hs hk hv) hf
    rw [eq_list_of_requireList ha] at hfits
    refine leads_then (ih.eval ho hw hs) fun i m₁ τ₁ h₁ _ => ?_
    rw [leads_bind, leads_get, leads_bind]
    refine leads_lift h₁.holds (fun k hk => ?_) fun f hf => allows_of_position hf
    have hk := lt_of_position hk
    refine ⟨τ₁, h₁, ?_⟩
    rw [Array.getElem?_eq_getElem hk]
    exact (hfits.mono h₁.grows).item h₁.holds (Array.getElem_mem hk)
  | call hargs hk hf hparams ht =>
    refine leads_then (ih.evalAll hargs hw hs) fun vs m₁ τ₁ h₁ hvs => ?_
    have hs₁ := hs.later hw h₁
    rw [hargs.length_eq, hvs.length_eq] at hf
    obtain ⟨c, g, hc, hg, hvs', hreturns⟩ := implements_of_call hW h₁.holds hs.funs hf hparams hvs
    rw [← h₁.holds.findFunction? hs₁.lt] at hc
    rw [leads_bind, leads_get, leads_bind, Forest.lookupFunction_eq_ok_iff.mpr ⟨_, hk, hc⟩,
      leads_lift_ok]
    have hcall (lines : Array String) : Leads W.Exit (call tracer fuel c vs)
        { m₁ with trace := lines } (W.Gives (s + 1) (m.world τ) fun w v => W.Fits w t v) := by
      have hrun := ih.call (m := { m₁ with trace := lines }) hg hvs' h₁.holds
      refine hrun.mono fun v m₂ hv => ?_
      obtain ⟨τ₂, h₂, hv⟩ := hv
      exact ⟨τ₂, h₁.trans (h₂.mono hs₁.lt), ht ▸ hreturns hv⟩
    split_ifs
    · rw [leads_bind]
      refine leads_tracedTexts h₁.holds (owns_of_fits_all hvs) fun line => ?_
      rw [leads_bind]
      exact leads_say h₁.holds hcall
    · exact hcall m₁.trace
  | @list _ _ t ts hes hts =>
    have hts : ∀ u ∈ t :: ts, t.assignable u = true :=
      List.forall_mem_cons.mpr ⟨t.assignable_refl, hts⟩
    exact leads_items ih hes hts hw hs

theorem evalAll_succ (ih : W.Runs tracer fuel) {es : List Expr} {ts : List Ty}
    (hes : Expr.HaveTypes Γ es ts) (hw : W.Holds (m.world τ)) (hs : W.Shows m.scopes s Γ) :
    Leads W.Exit (evalAll tracer (fuel + 1) s es) m
      (W.Gives (s + 1) (m.world τ) fun w vs => List.Forall₂ (W.Fits w) ts vs) := by
  cases hes with
  | nil =>
    rw [evalAll_nil]
    exact ⟨τ, hw.evolves _, .nil⟩
  | cons he hes =>
    rw [evalAll, leads_bind]
    refine leads_tick hw trivial fun k => ?_
    refine leads_then (ih.eval he hw hs) fun v m₁ τ₁ h₁ hv => ?_
    refine leads_then (ih.evalAll hes h₁.holds (hs.later hw h₁)) fun vs m₂ τ₂ h₂ hvs => ?_
    exact ⟨τ₂, h₁.trans h₂, .cons (hv.mono h₂.grows) hvs⟩

/-! ### Calls -/

/-- What is defined in an inner scope is declared in its context. -/
theorem leads_declare {x : Name} {k : Key} {y : Variable} {b : Binding} (hw : W.Holds (m.world τ))
    (hΓ : W.Shows m.scopes s Γ) (hs : root < s) (hy : y ∈ W.vars) (hk : y.name.key = .ok k)
    (hx : x = y.name) (hb : b.IsOf y) (hv : W.Fits (m.world τ) y.type b.value) :
    Leads W.Exit (define s x b) m
      (W.Gives s (m.world τ) fun w _ => W.Shows w.scopes s (Γ.declare y)) := by
  rw [hx, leads_define (Name.label_of_key hk)]
  refine ⟨τ, hw.declare hs ⟨y, hy, hb, hv⟩, ?_⟩
  exact hΓ.declare hw.nested hy rfl hb.origin

theorem bindArguments_cons {p : Param} {x : Name} (hx : Analysis.paramName? p = some x) (s : Nat)
    (g : Signature) (i : Nat) (ps : List Param) (v : Value) (vs : List Value) :
    bindArguments s (some g) i (p :: ps) (v :: vs) = (do
      define s x ⟨false, v, some ⟨g.declaration, some i⟩⟩
      bindArguments s (some g) (i + 1) ps vs) := by
  cases p with
  | hole h => cases hx
  | _ =>
    cases hx
    rfl

/-- **The scope of a body shows the parameters once the arguments are bound.** -/
theorem leads_bindArguments {g : Signature} {ps : List Param} {ts : List Ty} {vs : List Value}
    {i : Nat} (hs : root < s) (hps : List.Forall₂ Param.HasType ps ts)
    (hvs : List.Forall₂ (W.Fits (m.world τ)) ts vs)
    (hvars : ∀ v ∈ paramVariables g.declaration i ps ts, v ∈ W.vars ∧ ∃ k, v.name.key = .ok k)
    (hw : W.Holds (m.world τ)) (hΓ : W.Shows m.scopes s Γ) :
    Leads W.Exit (bindArguments s (some g) i ps vs) m
      (W.Gives s (m.world τ) fun w _ =>
        W.Shows w.scopes s (Γ.enter (paramVariables g.declaration i ps ts))) := by
  induction hps generalizing vs i Γ m τ with
  | nil =>
    cases hvs
    exact ⟨τ, hw.evolves s, hΓ⟩
  | @cons p t ps ts hp hps ih =>
    cases hvs with
    | @cons _ v _ vs hv hvs =>
    obtain ⟨x, hx⟩ := hp.name
    rw [bindArguments_cons hx]
    generalize hy : (⟨x, false, t, ⟨g.declaration, some i⟩⟩ : Variable) = y
    have hcons : paramVariables g.declaration i (p :: ps) (t :: ts) =
        y :: paramVariables g.declaration (i + 1) ps ts := by
      rw [paramVariables, hx, ← hy]
      rfl
    rw [hcons] at hvars ⊢
    obtain ⟨⟨hmem, k, hk⟩, hrest⟩ := List.forall_mem_cons.mp hvars
    have hbind : Leads W.Exit (define s x ⟨false, v, some ⟨g.declaration, some i⟩⟩) m
        (W.Gives s (m.world τ) fun w _ => W.Shows w.scopes s (Γ.declare y)) := by
      refine leads_declare hw hΓ hs hmem hk ?_ ?_ ?_
      all_goals rw [← hy]
      · exact ⟨rfl, rfl⟩
      · exact hv
    refine leads_then hbind fun _ m₁ τ₁ h₁ hΓ₁ => ?_
    rw [Analysis.enter_cons]
    refine leads_after h₁ ?_
    exact ih (hvs.imp fun t v hv => hv.mono h₁.grows) hrest h₁.holds (hΓ₁.congr rfl rfl)

theorem call_succ (ih : W.Runs tracer fuel) {c : Callable} {g : Signature} {vs : List Value}
    (hc : W.Implements c g) (hvs : List.Forall₂ (W.Fits (m.world τ)) g.params vs)
    (hw : W.Holds (m.world τ)) :
    Leads W.Exit (call tracer (fuel + 1) c vs) m
      (W.Gives m.scopes.size (m.world τ) fun w v => W.Fits w g.returns v) := by
  cases hc with
  | print =>
    rw [call, leads_bind]
    refine leads_tick hw trivial fun k => ?_
    rw [leads_bind]
    have hv : m.heap.Owns (vs.headD .nil) := by
      cases vs with
      | nil => trivial
      | cons v vs => exact owns_of_fits_all hvs v (by simp)
    refine leads_text hw hv fun line => ?_
    rw [leads_bind]
    exact leads_print hw fun _ => ⟨τ, hw.evolves _, fits_nil fun _ => rfl⟩
  | user hsignature hparams hvariables hmem hkeys hvars hfuns hbody hadmits hends =>
    rw [call, leads_bind]
    refine leads_tick hw trivial fun k => ?_
    rw [leads_bind, leads_child, hsignature]
    have h₁ := hw.child hw.globals.lt (le_refl m.scopes.size)
    have hΓ₁ := (hw.shows_root hvars hfuns).child hw.nested
    have hvs₁ := hvs.imp fun t v hv => hv.mono h₁.grows
    subst hvariables
    have hvariables (v) (hv : v ∈ _) := And.intro (hmem v hv) (hkeys v hv)
    refine leads_then (leads_bindArguments hw.globals.lt hparams hvs₁ hvariables h₁.holds hΓ₁)
      fun _ m₂ τ₂ h₂ hΓ₂ => ?_
    have hrun := ih.block hbody hadmits hw.globals.lt h₂.holds hΓ₂
    refine leads_then hrun fun r m₃ τ₃ h₃ hr => ?_
    refine ⟨τ₃, h₁.trans (h₂.trans h₃), ?_⟩
    cases r with
    | some v => exact hr
    | none =>
      refine fits_nil fun hs => ?_
      refine (hends hs).resolve_right fun hreturn => ?_
      obtain ⟨x, hx, hret⟩ := hreturn
      cases x with
      | ret e => exact hr e hx
      | _ => cases hret

/-! ### Blocks -/

theorem block_succ (ih : W.Runs tracer fuel) {xs : List Stmt} {returns : Ty}
    (hxs : Stmt.BlockTyped Γ xs Γ') (hadmits : ∀ x ∈ Stmt.nestedIn xs, W.Admits returns x)
    (hs : root < s) (hw : W.Holds (m.world τ)) (hΓ : W.Shows m.scopes s Γ) :
    Leads W.Exit (block tracer (fuel + 1) s xs) m
      (W.Gives s (m.world τ) (W.Ends returns fun _ => ∀ e, Stmt.ret e ∉ xs)) := by
  cases hxs with
  | nil =>
    rw [block_nil]
    exact ⟨τ, hw.evolves _, by simp [Ends]⟩
  | cons hx hxs =>
    rw [Stmt.nestedIn] at hadmits
    obtain ⟨hadmitsx, hadmitsxs⟩ := List.forall_mem_append.mp hadmits
    rw [block, leads_bind]
    refine leads_tick hw trivial fun k => ?_
    refine leads_then (ih.exec hx hadmitsx hs hw hΓ) fun r m₁ τ₁ h₁ hr => ?_
    cases r with
    | some v => exact ⟨τ₁, h₁, hr⟩
    | none =>
      obtain ⟨hΓ₁, hret⟩ := hr
      refine leads_after h₁ ((ih.block hxs hadmitsxs hs h₁.holds hΓ₁).mono fun r m₂ hr => ?_)
      obtain ⟨τ₂, h₂, hr⟩ := hr
      refine ⟨τ₂, h₂, ?_⟩
      cases r with
      | some v => exact hr
      | none =>
        intro e he
        rcases List.mem_cons.mp he with he | he
        · exact hret e he.symm
        · exact hr e he

/-! ### Statements -/

/-- The target of an assignment is a binding of the variable in its slot. -/
theorem resolves_receiver {r : Expr} {t : Ty} {y : Variable} (hW : W.IsSound)
    (hr : r.HasType Γ t) (hy : r.receiver? = some y) (hmut : y.mutable = true)
    (hw : W.Holds (m.world τ)) (hΓ : W.Shows m.scopes s Γ) :
    (Place.receiver s r).Resolves W.vars m := by
  cases hr with
  | name hk hv _ =>
    cases hy
    obtain ⟨u, b, hwritable, -, -, hby, -⟩ := hΓ.writable hW hw hk hv hmut
    exact ⟨_, y, (hΓ.vars _ y hv).1, rfl, u, b, hwritable, hby⟩
  | index _ _ hk hv _ =>
    cases hy
    obtain ⟨u, b, hwritable, -, -, hby, -⟩ := hΓ.writable hW hw hk hv hmut
    exact ⟨_, y, (hΓ.vars _ y hv).1, rfl, u, b, hwritable, hby⟩
  | _ => cases hy

/-- What follows the initial value of a declaration. -/
theorem leads_declaration {name : Name} {k : Key} {y : Variable} {x : Stmt} {returns : Ty}
    {v : Value} (hy : y ∈ W.vars) (hname : name = y.name) (hk : y.name.key = .ok k)
    (hmut : y.mutable = true) (hx : ∀ e, x ≠ .ret e) (hs : root < s)
    (hw : W.Holds (m.world τ)) (hΓ : W.Shows m.scopes s Γ) (hv : W.Fits (m.world τ) y.type v) :
    Leads W.Exit
      (do
        define s name ⟨true, v, some y.origin⟩
        if 2 ≤ tracer.level then do
          let line ← tracedText v
          say tracer (.plain "declare " ++ name.toText ++ .plain " = " ++ line)
          pure none
        else pure none) m
      (W.Gives s (m.world τ)
        (W.Ends returns fun w => W.Shows w.scopes s (Γ.declare y) ∧ ∀ e, x ≠ .ret e)) := by
  refine leads_then (leads_declare hw hΓ hs hy hk hname ⟨rfl, hmut.symm⟩ hv)
    fun _ m₁ τ₁ h₁ hΓ₁ => ?_
  split_ifs
  · rw [leads_bind]
    refine leads_tracedText h₁.holds (hv.mono h₁.grows).owns fun line => ?_
    rw [leads_bind]
    exact leads_say h₁.holds fun _ => ⟨τ₁, h₁, hΓ₁, hx⟩
  · exact ⟨τ₁, h₁, hΓ₁, hx⟩

theorem exec_declare (ih : W.Runs tracer fuel) {n : Option Name} {name : Name} {value : Option Expr}
    {k : Key} {t : Ty} {y : Variable} {returns : Ty} (ht : Declares Γ n value t)
    (hk : name.key = .ok k) (hy : y = ⟨name, true, t, ⟨Γ.next, none⟩⟩)
    (hallowed : W.Admits returns (.declare name n value (some y))) (hs : root < s)
    (hw : W.Holds (m.world τ)) (hΓ : W.Shows m.scopes s Γ) :
    Leads W.Exit (exec tracer (fuel + 1) s (.declare name n value (some y))) m
      (W.Gives s (m.world τ) (W.Ends returns fun w => W.Shows w.scopes s (Γ.declare y) ∧
        ∀ e, Stmt.declare name n value (some y) ≠ .ret e)) := by
  have hmem := hallowed.declared y rfl
  obtain ⟨hname, hmut, htype⟩ : name = y.name ∧ y.mutable = true ∧ t = y.type := by
    subst hy
    exact ⟨rfl, rfl, rfl⟩
  have hk : y.name.key = .ok k := hname ▸ hk
  have hx (e : Expr) : Stmt.declare name n value (some y) ≠ .ret e := by simp
  rw [htype] at ht
  cases ht with
  | written hn =>
    rw [exec, leads_bind]
    refine leads_tick hw trivial fun k => ?_
    exact leads_declaration hmem hname hk hmut hx hs hw hΓ (fits_nil hallowed.initialized)
  | inferred he =>
    rw [exec, leads_bind]
    refine leads_tick hw trivial fun k => ?_
    refine leads_then (ih.eval he hw hΓ) fun v m₁ τ₁ h₁ hv => ?_
    refine leads_after (h₁.mono (Nat.le_succ s)) ?_
    exact leads_declaration hmem hname hk hmut hx hs h₁.holds (hΓ.later hw h₁) hv
  | checked hn he hts =>
    rw [exec, leads_bind]
    refine leads_tick hw trivial fun k => ?_
    refine leads_then (ih.eval he hw hΓ) fun v m₁ τ₁ h₁ hv => ?_
    refine leads_after (h₁.mono (Nat.le_succ s)) ?_
    have hv := hv.assignable h₁.holds hts
    exact leads_declaration hmem hname hk hmut hx hs h₁.holds (hΓ.later hw h₁) hv

/-- An assignment to a variable. -/
theorem leads_assign_name (hW : W.IsSound) {x : Name} {k : Key} {y : Variable} {v : Value}
    {returns : Ty} (hk : x.key = .ok k) (hy : Γ.findVariable? k = some y)
    (hmut : y.mutable = true) (hw : W.Holds (m.world τ)) (hΓ : W.Shows m.scopes s Γ)
    (hv : W.Fits (m.world τ) y.type v) :
    Leads W.Exit
      (do
        let (t, b) ← lift (writable x s (← get))
        define t x { b with value := v }
        return none) m
      (W.Gives (s + 1) (m.world τ) (W.Ends returns fun w => W.Shows w.scopes s Γ)) := by
  obtain ⟨a, b, hwritable, ha, hown, hb, -⟩ := hΓ.writable hW hw hk hy hmut
  rw [leads_bind, leads_get, leads_bind, hwritable, leads_lift_ok, leads_bind,
    leads_define (Name.label_of_key hk)]
  have hexplains : W.Explains (m.world τ) { b with value := v } :=
    ⟨y, (hΓ.vars k y hy).1, ⟨hb.origin, hb.mutable⟩, hv⟩
  have h₁ := hw.assign (l := ⟨x, k, hk⟩) (n := s + 1) ha hown hexplains
  exact ⟨τ, h₁, hΓ.later hw h₁⟩

/-- An assignment to an item of a list. -/
theorem leads_assign_index (hW : W.IsSound) (ih : W.Runs tracer fuel) {x : Name} {k : Key}
    {y : Variable} {o : Expr} {i t : Ty} {v : Value} {returns : Ty} (ho : o.HasType Γ i)
    (hk : x.key = .ok k) (hy : Γ.findVariable? k = some y) (ht : y.type = .list t)
    (hmut : y.mutable = true) (hw : W.Holds (m.world τ)) (hΓ : W.Shows m.scopes s Γ)
    (hv : W.Fits (m.world τ) t v) :
    Leads W.Exit
      (do
        let (_, b) ← lift (writable x s (← get))
        let a ← lift (requireList x b.value)
        let i ← eval tracer fuel s o
        let k ← lift (position i ((← get).heap.items a).size)
        modify fun m => { m with heap := m.heap.set a k v }
        return none) m
      (W.Gives (s + 1) (m.world τ) (W.Ends returns fun w => W.Shows w.scopes s Γ)) := by
  obtain ⟨a, b, hwritable, -, -, -, hfits⟩ := hΓ.writable hW hw hk hy hmut
  rw [ht] at hfits
  rw [leads_bind, leads_get, leads_bind, hwritable, leads_lift_ok, leads_bind]
  refine leads_lift hw (fun a ha => ?_) fun f hf =>
    allows_of_requireList hfits (isLine_of_shows hΓ hk hy) hf
  rw [eq_list_of_requireList ha] at hfits
  refine leads_then (ih.eval ho hw hΓ) fun i m₁ τ₁ h₁ _ => ?_
  rw [leads_bind, leads_get, leads_bind]
  refine leads_lift h₁.holds (fun k hk => ?_) fun f hf => allows_of_position hf
  rw [leads_bind, leads_modify]
  have h₂ := h₁.holds.set (hfits.mono h₁.grows) (hv.mono h₁.grows) (s + 1) k
  exact ⟨τ₁, h₁.trans h₂, hΓ.later hw (h₁.trans h₂)⟩

theorem exec_assign (hW : W.IsSound) (ih : W.Runs tracer fuel) {r e : Expr} {y : Variable}
    {t u : Ty} {returns : Ty} (hr : r.HasType Γ t) (hy : r.receiver? = some y)
    (hmut : y.mutable = true) (he : e.HasType Γ u) (htu : t.assignable u = true)
    (hw : W.Holds (m.world τ)) (hΓ : W.Shows m.scopes s Γ) :
    Leads W.Exit (exec tracer (fuel + 1) s (.assign r e)) m
      (W.Gives (s + 1) (m.world τ) (W.Ends returns fun w => W.Shows w.scopes s Γ)) := by
  rw [exec, leads_bind]
  refine leads_tick hw trivial fun _ => ?_
  refine leads_then (ih.eval he hw hΓ) fun v m₁ τ₁ h₁ hv => ?_
  have hΓ₁ := hΓ.later hw h₁
  have hv := hv.assignable h₁.holds htu
  rw [leads_bind]
  refine leads_tick h₁.holds (resolves_receiver hW hr hy hmut h₁.holds hΓ₁) fun _ => ?_
  refine leads_after h₁ ?_
  cases hr with
  | name hk hvar ht =>
    cases hy
    exact leads_assign_name hW hk hvar hmut h₁.holds hΓ₁ (ht ▸ hv)
  | index ho hi hk hvar ht =>
    cases hy
    exact leads_assign_index hW ih ho hk hvar ht hmut h₁.holds hΓ₁ hv
  | _ => cases hy

/-- A block in a scope of its own. -/
theorem leads_inner (ih : W.Runs tracer fuel) {Γ₁ : Context} {xs : List Stmt} {returns : Ty}
    (hxs : Stmt.BlockTyped Γ₁ xs Γ') (hvars : Γ₁.vars = Γ.vars) (hfuns : Γ₁.funs = Γ.funs)
    (hadmits : ∀ x ∈ Stmt.nestedIn xs, W.Admits returns x) (hw : W.Holds (m.world τ))
    (hΓ : W.Shows m.scopes s Γ) :
    Leads W.Exit (do block tracer fuel (← child s) xs) m
      (W.Gives (s + 1) (m.world τ) (W.Ends returns fun w => W.Shows w.scopes s Γ)) := by
  rw [leads_bind, leads_child]
  have h₁ := hw.child hΓ.lt hΓ.lt
  refine leads_after h₁ ?_
  have hchild := (hΓ.congr hvars hfuns).child hw.nested
  refine (ih.block hxs hadmits hw.globals.lt h₁.holds hchild).mono fun r m₂ hr => ?_
  obtain ⟨τ₂, h₂, hr⟩ := hr
  have h₂ := h₂.mono hΓ.lt
  refine ⟨τ₂, h₂, ?_⟩
  cases r with
  | some v => exact hr
  | none => exact hΓ.later hw (h₁.trans h₂)

theorem exec_branch (ih : W.Runs tracer fuel) {Γ₁ Γ₂ : Context} {c : Expr} {t : Ty}
    {xs ys : List Stmt} {returns : Ty} (hc : c.HasType Γ t) (ht : Ty.boolean.assignable t = true)
    (hthen : Stmt.BlockTyped Γ xs Γ₁) (helse : Stmt.BlockTyped (Γ.leave Γ₁) ys Γ₂)
    (hadmits : ∀ x ∈ Stmt.nestedIn xs ++ Stmt.nestedIn ys, W.Admits returns x)
    (hw : W.Holds (m.world τ)) (hΓ : W.Shows m.scopes s Γ) :
    Leads W.Exit (exec tracer (fuel + 1) s (.branch c xs ys)) m
      (W.Gives (s + 1) (m.world τ) (W.Ends returns fun w => W.Shows w.scopes s Γ)) := by
  obtain ⟨hxs, hys⟩ := List.forall_mem_append.mp hadmits
  rw [exec]
  dsimp only
  rw [leads_bind]
  refine leads_tick hw trivial fun _ => ?_
  refine leads_then (ih.eval hc hw hΓ) fun v m₁ τ₁ h₁ hv => ?_
  have hΓ₁ := hΓ.later hw h₁
  rw [leads_bind]
  refine leads_lift h₁.holds (fun b _ => ?_) fun f hf =>
    allows_of_requireBoolean hv ht (by simp) hf
  have hblock (lines : Array String) : Leads W.Exit
      (do block tracer fuel (← child s) (if b then xs else ys)) { m₁ with trace := lines }
      (W.Gives (s + 1) (m.world τ) (W.Ends returns fun w => W.Shows w.scopes s Γ)) := by
    refine leads_after h₁ ?_
    cases b with
    | true =>
      rw [if_pos rfl]
      exact leads_inner ih hthen rfl rfl hxs h₁.holds hΓ₁
    | false =>
      rw [if_neg Bool.false_ne_true]
      exact leads_inner ih helse rfl rfl hys h₁.holds hΓ₁
  by_cases hlevel : 3 ≤ tracer.level
  · rw [if_pos hlevel, leads_bind]
    refine leads_text (v := .bool b) h₁.holds trivial fun line => ?_
    rw [leads_bind]
    exact leads_say h₁.holds hblock
  · rw [if_neg hlevel]
    exact hblock m₁.trace

/-- The default block of well-typed cases is one of a case without a value. -/
theorem default?_of_typed {t : Ty} : ∀ {Γ Γ' : Context} {cs : List Case},
    Case.ListTyped Γ t cs Γ' →
      ∃ r, default? cs = .ok r ∧ ∀ b, r = some b → Case.otherwise b ∈ cs
  | _, _, _, .nil => ⟨none, rfl, by simp⟩
  | _, _, _, .cons (.otherwise _) _ => ⟨_, rfl, by simp⟩
  | _, _, _, .cons (.equals _ _ _) hcs => by
    obtain ⟨r, hr, hb⟩ := default?_of_typed hcs
    exact ⟨r, hr, fun b hr => List.mem_cons_of_mem _ (hb b hr)⟩

/-- A block of one of the cases. -/
theorem leads_case (ih : W.Runs tracer fuel) {t : Ty} {cs : List Case} {b : List Stmt}
    {returns : Ty} (hcs : Case.ListTyped Γ t cs Γ')
    (hadmits : ∀ x ∈ Case.nestedIn cs, W.Admits returns x)
    (hb : (∃ e, Case.equals e b ∈ cs) ∨ Case.otherwise b ∈ cs)
    (hw : W.Holds (m.world τ)) (hΓ : W.Shows m.scopes s Γ) :
    Leads W.Exit (do block tracer fuel (← child s) b) m
      (W.Gives (s + 1) (m.world τ) (W.Ends returns fun w => W.Shows w.scopes s Γ)) := by
  obtain ⟨Γ₁, Γ₂, hvars, hfuns, hblock, hnested⟩ := hcs.block_of_mem hb
  exact leads_inner ih hblock hvars hfuns (fun x hx => hadmits x (hnested x hx)) hw hΓ

theorem exec_switch (ih : W.Runs tracer fuel) {c : Expr} {t : Ty} {cs : List Case} {returns : Ty}
    (hc : c.HasType Γ t) (hcs : Case.ListTyped Γ t cs Γ')
    (hadmits : ∀ x ∈ Case.nestedIn cs, W.Admits returns x) (hw : W.Holds (m.world τ))
    (hΓ : W.Shows m.scopes s Γ) :
    Leads W.Exit (exec tracer (fuel + 1) s (.switch c cs)) m
      (W.Gives (s + 1) (m.world τ) (W.Ends returns fun w => W.Shows w.scopes s Γ)) := by
  rw [exec, leads_bind]
  refine leads_tick hw trivial fun _ => ?_
  refine leads_then (ih.eval hc hw hΓ) fun v m₁ τ₁ h₁ hv => ?_
  refine leads_then (ih.matching hcs h₁.holds (hΓ.later hw h₁)) fun r m₂ τ₂ h₂ hr => ?_
  have h := h₁.trans h₂
  have hΓ₂ := hΓ.later hw h
  cases r with
  | some b => exact leads_after h (leads_case ih hcs hadmits (Or.inl (hr b rfl)) h.holds hΓ₂)
  | none =>
    obtain ⟨r, hdefault, hr⟩ := default?_of_typed hcs
    simp only
    rw [leads_bind, hdefault, leads_lift_ok]
    cases r with
    | some b => exact leads_after h (leads_case ih hcs hadmits (Or.inr (hr b rfl)) h.holds hΓ₂)
    | none => exact ⟨τ₂, h, hΓ₂⟩

theorem exec_succ (hW : W.IsSound) (ih : W.Runs tracer fuel) {x : Stmt} {returns : Ty}
    (hx : Stmt.Typed Γ x Γ') (hadmits : ∀ y ∈ x.nested, W.Admits returns y)
    (hs : root < s) (hw : W.Holds (m.world τ)) (hΓ : W.Shows m.scopes s Γ) :
    Leads W.Exit (exec tracer (fuel + 1) s x) m
      (W.Gives s (m.world τ)
        (W.Ends returns fun w => W.Shows w.scopes s Γ' ∧ ∀ e, x ≠ .ret e)) := by
  have hsame (hvars : Γ'.vars = Γ.vars) (hfuns : Γ'.funs = Γ.funs) (hret : ∀ e, x ≠ .ret e)
      (hrun : Leads W.Exit (exec tracer (fuel + 1) s x) m
        (W.Gives (s + 1) (m.world τ) (W.Ends returns fun w => W.Shows w.scopes s Γ))) :
      Leads W.Exit (exec tracer (fuel + 1) s x) m
        (W.Gives s (m.world τ)
          (W.Ends returns fun w => W.Shows w.scopes s Γ' ∧ ∀ e, x ≠ .ret e)) := by
    refine hrun.mono fun r m₁ hr => ?_
    obtain ⟨τ₁, h₁, hr⟩ := hr
    refine ⟨τ₁, h₁.mono (Nat.le_succ s), ?_⟩
    cases r with
    | some v => exact hr
    | none => exact ⟨Shows.congr hr hvars hfuns, hret⟩
  cases hx with
  | expr he =>
    refine hsame rfl rfl (by simp) ?_
    rw [exec, leads_bind]
    refine leads_tick hw trivial fun _ => ?_
    refine leads_then (ih.eval he hw hΓ) fun v m₁ τ₁ h₁ _ => ?_
    exact ⟨τ₁, h₁, hΓ.later hw h₁⟩
  | declare ht hk hy => exact exec_declare ih ht hk hy (hadmits _ (Stmt.mem_nested _)) hs hw hΓ
  | assign hr hy hmut he htu =>
    exact hsame rfl rfl (by simp) (exec_assign hW ih hr hy hmut he htu hw hΓ)
  | branch hc ht hthen helse =>
    rw [Stmt.nested] at hadmits
    have hadmits := (List.forall_mem_cons.mp hadmits).2
    exact hsame rfl rfl (by simp) (exec_branch ih hc ht hthen helse hadmits hw hΓ)
  | switch hc hcs =>
    rw [Stmt.nested] at hadmits
    have hadmits := (List.forall_mem_cons.mp hadmits).2
    obtain ⟨hvars, hfuns⟩ := hcs.context
    exact hsame hvars hfuns (by simp) (exec_switch ih hc hcs hadmits hw hΓ)
  | loop hc ht hb =>
    rw [Stmt.nested] at hadmits
    have hadmits := (List.forall_mem_cons.mp hadmits).2
    refine hsame rfl rfl (by simp) ?_
    rw [exec, leads_bind]
    refine leads_tick hw trivial fun _ => ?_
    exact ih.loop hc ht hb hadmits hw hΓ
  | ret he =>
    have hallowed := hadmits _ (Stmt.mem_nested _)
    rw [exec, leads_bind]
    refine leads_tick hw trivial fun _ => ?_
    refine leads_then (ih.eval he hw hΓ) fun v m₁ τ₁ h₁ hv => ?_
    refine ⟨τ₁, h₁.mono (Nat.le_succ s), hv.owns, fun hstrict => ?_⟩
    have hreturns := hallowed.returned hstrict
    rw [Stmt.returnsOnly, he.type?_eq] at hreturns
    exact (hv.assignable h₁.holds hreturns).fits hstrict

theorem matching_succ (ih : W.Runs tracer fuel) {t : Ty} {v : Value} {cs : List Case}
    (hcs : Case.ListTyped Γ t cs Γ') (hw : W.Holds (m.world τ)) (hΓ : W.Shows m.scopes s Γ) :
    Leads W.Exit (matching tracer (fuel + 1) s v cs) m
      (W.Gives (s + 1) (m.world τ) fun _ r => ∀ b, r = some b → ∃ e, Case.equals e b ∈ cs) := by
  cases hcs with
  | nil =>
    rw [matching_nil]
    exact ⟨τ, hw.evolves _, by simp⟩
  | @cons _ _ _ _ c cs hc hcs =>
    obtain ⟨hvars, hfuns⟩ := hc.context
    have hrest {m₁ : Machine} {τ₁ : List Ty} (h₁ : W.Evolves (s + 1) (m.world τ) (m₁.world τ₁)) :
        Leads W.Exit (matching tracer fuel s v cs) m₁ (W.Gives (s + 1) (m.world τ) fun _ r =>
          ∀ b, r = some b → ∃ e, Case.equals e b ∈ c :: cs) := by
      refine leads_after h₁ ((ih.matching hcs h₁.holds ?_).mono fun r m₂ hr => ?_)
      · exact (hΓ.later hw h₁).congr hvars hfuns
      · obtain ⟨τ₂, h₂, hr⟩ := hr
        refine ⟨τ₂, h₂, fun b hb => ?_⟩
        obtain ⟨e, he⟩ := hr b hb
        exact ⟨e, List.mem_cons_of_mem _ he⟩
    cases hc with
    | equals he hts hb =>
      rw [matching, leads_bind]
      refine leads_tick hw trivial fun _ => ?_
      refine leads_then (ih.eval he hw hΓ) fun u m₁ τ₁ h₁ _ => ?_
      rw [leads_bind, leads_get, leads_bind]
      refine leads_lift h₁.holds (fun same _ => ?_) fun f hf => allows_of_equal hf
      cases same with
      | true =>
        refine ⟨τ₁, h₁, fun b hb => ?_⟩
        cases hb
        exact ⟨_, List.mem_cons_self⟩
      | false => exact hrest h₁
    | otherwise hb =>
      rw [matching, leads_bind]
      refine leads_tick hw trivial fun _ => ?_
      exact hrest (hw.evolves _)

theorem loop_succ (ih : W.Runs tracer fuel) {c : Expr} {t : Ty} {b : List Stmt} {returns : Ty}
    (hc : c.HasType Γ t) (ht : Ty.boolean.assignable t = true) (hb : Stmt.BlockTyped Γ b Γ')
    (hadmits : ∀ x ∈ Stmt.nestedIn b, W.Admits returns x) (hw : W.Holds (m.world τ))
    (hΓ : W.Shows m.scopes s Γ) :
    Leads W.Exit (loop tracer (fuel + 1) s c b) m
      (W.Gives (s + 1) (m.world τ) (W.Ends returns fun w => W.Shows w.scopes s Γ)) := by
  rw [loop, leads_bind]
  refine leads_tick hw trivial fun _ => ?_
  refine leads_then (ih.eval hc hw hΓ) fun v m₁ τ₁ h₁ hv => ?_
  have hΓ₁ := hΓ.later hw h₁
  rw [leads_bind]
  refine leads_lift h₁.holds (fun go _ => ?_) fun f hf =>
    allows_of_requireBoolean hv ht (by simp) hf
  cases go with
  | false => exact ⟨τ₁, h₁, hΓ₁⟩
  | true =>
    rw [if_pos rfl]
    have hround := leads_inner ih hb rfl rfl hadmits h₁.holds hΓ₁
    rw [leads_bind] at hround ⊢
    refine hround.mono fun i m₂ hblock => leads_then hblock fun r m₃ τ₃ h₃ hr => ?_
    cases r with
    | some v => exact ⟨τ₃, h₁.trans h₃, hr⟩
    | none => exact leads_after (h₁.trans h₃) (ih.loop hc ht hb hadmits h₃.holds hr)

/-- **Every run of well-typed code keeps the invariant.** -/
theorem runs (hW : W.IsSound) (tracer : Tracer) : ∀ fuel, W.Runs tracer fuel
  | 0 => by
    refine ⟨?_, ?_, ?_, ?_, ?_, ?_, ?_⟩
    · intro Γ s e t m τ he hw hΓ
      rw [eval]
      exact leads_pause hw (meets_expr hW he hw hΓ)
    · intro Γ s es ts m τ hes hw hΓ
      rw [evalAll]
      exact leads_pause hw trivial
    · intro c g vs m τ hc hvs hw
      rw [call]
      exact leads_pause hw trivial
    · intro Γ Γ' s xs returns m τ hxs hadmits hs hw hΓ
      rw [block]
      exact leads_pause hw trivial
    · intro Γ Γ' s x returns m τ hx hadmits hs hw hΓ
      rw [exec]
      exact leads_pause hw trivial
    · intro Γ Γ' s t v cs m τ hcs hw hΓ
      rw [matching]
      exact leads_pause hw trivial
    · intro Γ Γ' s c t b returns m τ hc ht hb hadmits hw hΓ
      rw [loop]
      exact leads_pause hw trivial
  | fuel + 1 => by
    have ih := runs hW tracer fuel
    exact ⟨eval_succ hW ih, evalAll_succ ih, call_succ ih, block_succ ih, exec_succ hW ih,
      matching_succ ih, loop_succ ih⟩

end Scriptlet.Setting
