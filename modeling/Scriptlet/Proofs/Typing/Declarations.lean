import Scriptlet.Proofs.Typing.Verdicts

/-! # Declarations: the analysis and the rules

The globals and functions of a program are walked in the scope of the globals, which binds exactly
what the context has.

* `program_sound`: an accepted program is well typed by the rules, and its filled tree is the record
  of the derivation.
* `program_complete`: a well-typed program is accepted, and its slots are filled as in the
  derivation.
* `program_decides`: the analysis decides the rules. -/

namespace Scriptlet

/-- Types that have a name of their own are no list types. -/
theorem Name.Denotes.element? {n : Name} {t : Ty} (h : n.Denotes t) : t.element? = none := by
  have ht := h.1
  simp only [Ty.named, List.mem_cons, List.not_mem_nil, or_false] at ht
  rcases ht with rfl | rfl | rfl | rfl | rfl | rfl | rfl | rfl <;> rfl

/-- The declared type of a global. -/
theorem GlobalDecl.map_listed (d : GlobalDecl) (declared : Option Ty) :
    (if d.isList then declared.map .list else declared) = declared.map d.listed := by
  unfold GlobalDecl.listed
  cases d.isList <;> cases declared <;> rfl

/-- A parameter that has a type has a name. -/
theorem Param.HasType.name {p : Param} {t : Ty} (h : p.HasType t) :
    ∃ x, Analysis.paramName? p = some x := by
  cases h with
  | any x => exact ⟨x, rfl⟩
  | written => exact ⟨_, rfl⟩

theorem Param.rightUnique_hasType : Relator.RightUnique Param.HasType := by
  intro p t s h h'
  cases h with
  | any x => cases h' with | any => rfl
  | written hn => cases h' with | written hn' => exact hn'.unique hn

theorem Returns.unique {n : Option Name} {t s : Ty} (h : Returns n t) (h' : Returns n s) :
    s = t := by
  cases h with
  | nil => cases h' with | nil => rfl
  | written hn => cases h' with | written hn' => exact hn.unique hn'

namespace Analysis

variable {level : Int} {s : Nat} {Γ : Context}

/-! ### Globals -/

/-- A list of items whose type is declared is held against the type of its elements. -/
theorem itemized_sound {vs : List Expr} {slot r : Option Ty} {t : Ty} {value : Option Expr}
    {a a' : Analyzer} (hΓ : a.Represents s Γ) (hvs : Expr.AreWritten vs)
    (h : globalInitial level s (some (.list t)) (some (.list vs slot)) a = ((value, .ok r), a')) :
    ∃ es ts, r = some (.list t) ∧ value = some (.list es (some (.list t))) ∧ slot = none ∧
      Expr.eraseAll es = vs ∧ Expr.HaveTypes Γ es ts ∧ (∀ s ∈ ts, t.assignable s = true) ∧
      ∃ l, a' = { a with trace := l } := by
  rw [globalInitial, run_bind] at h
  rcases h₁ : items level s ((some (Ty.list t)).bind Ty.element?) vs a with ⟨⟨es, q⟩, a₁⟩
  simp only [h₁] at h
  rcases h₂ : settleList es slot q with ⟨e, w⟩
  simp only [h₂] at h
  cases w with
  | error f => cases h
  | ok w =>
    obtain ⟨u, rfl, rfl, rfl, rfl⟩ := settleList_ok h₂
    obtain ⟨ts, hes, rfl, hu, hts, l, rfl⟩ := items_sound hΓ hvs h₁
    obtain rfl : u = t := by simpa [Ty.element?] using hu
    have hrefl := (requireAssignable_eq_ok_iff (u := ())).mpr (Ty.assignable_refl (.list u))
    simp only [ok_bind, Option.getD_some, hrefl, pure_eq_ok] at h
    cases h
    exact ⟨es, ts, rfl, rfl, rfl, rfl, hes, hts u rfl, l, rfl⟩

variable (level) in
theorem itemized_complete {es : List Expr} {ts : List Ty} {t : Ty} {a : Analyzer}
    (hΓ : a.Represents s Γ) (hes : Expr.HaveTypes Γ es ts)
    (hts : ∀ s ∈ ts, t.assignable s = true) :
    ∃ l, globalInitial level s (some (.list t)) (some (.list (Expr.eraseAll es) none)) a =
      ((some (.list es (some (.list t))), .ok (some (.list t))), { a with trace := l }) := by
  obtain ⟨l, hl⟩ := items_complete level hΓ (some t) hes rfl hts
  have hrefl := (requireAssignable_eq_ok_iff (u := ())).mpr (Ty.assignable_refl (.list t))
  refine ⟨l, ?_⟩
  rw [globalInitial, run_bind, Option.bind_some, Ty.element?, hl]
  simp only [settleList, settle, ok_bind, Option.getD_some, hrefl, pure_eq_ok]
  rfl

theorem isItemized_erase (e : Expr) : e.erase.isItemized = e.isItemized := by
  cases e <;> rw [Expr.erase] <;> rfl

/-- Any other initial value is held against the declared type. -/
theorem plain_sound {d : GlobalDecl} {e : Expr} {declared r : Option Ty} {value : Option Expr}
    {a a' : Analyzer} (hΓ : a.Represents s Γ) (he : e.IsWritten)
    (hn : declaredType d.typeName = .ok declared)
    (hform : ∀ m, d.typeName = some m → d.isList = true → e.isItemized = false)
    (h : initial level s (declared.map d.listed) (some e) a = ((value, .ok r), a')) :
    ∃ t, r = some t ∧ (∀ v, GlobalDecl.Declares Γ { d with value := value, declared := v } t) ∧
      value.map Expr.erase = some e ∧ ∃ l, a' = { a with trace := l } := by
  obtain ⟨e', t, rfl, he', rfl, rfl, hassign, l, rfl⟩ := value_sound hΓ he h
  rcases declaredType_eq_ok_iff.mp hn with ⟨hd, rfl⟩ | ⟨m, u, hd, rfl, hm⟩
  · exact ⟨t, rfl, fun v => .inferred hd rfl he', rfl, l, rfl⟩
  · refine ⟨d.listed u, rfl, fun v => ?_, rfl, l, rfl⟩
    refine .checked hd hm rfl (fun hlist => ?_) he' hassign
    rw [← isItemized_erase]
    exact hform m hd hlist

theorem element?_listed {d : GlobalDecl} {e : Expr} {m : Name} {u : Ty} (hm : m.Denotes u)
    (hform : d.isList = true → e.isItemized = false) (hitem : e.isItemized = true) :
    ((some u).map d.listed).bind Ty.element? = none := by
  have hlist : ¬ d.isList = true := fun h => by simp [hform h] at hitem
  rw [Option.map_some, GlobalDecl.listed, if_neg hlist]
  exact hm.element?

/-- The initial value of an accepted global is well typed by the rules. -/
theorem globalInitial_sound {d : GlobalDecl} {declared r : Option Ty} {value : Option Expr}
    {a a' : Analyzer} (hΓ : a.Represents s Γ) (hvalue : Expr.MayBeWritten d.value)
    (hn : declaredType d.typeName = .ok declared)
    (hsome : ¬ (d.typeName = none ∧ d.value = none))
    (h : globalInitial level s (declared.map d.listed) d.value a = ((value, .ok r), a')) :
    ∃ t, r = some t ∧ (∀ v, GlobalDecl.Declares Γ { d with value := value, declared := v } t) ∧
      value.map Expr.erase = d.value ∧ ∃ l, a' = { a with trace := l } := by
  cases hd : d.value with
  | none =>
    rw [hd] at h hsome
    cases h
    rcases declaredType_eq_ok_iff.mp hn with ⟨hd, rfl⟩ | ⟨m, u, hd, rfl, hm⟩
    · exact (hsome ⟨hd, rfl⟩).elim
    · exact ⟨d.listed u, rfl, fun v => .written hd hm rfl, rfl, _, rfl⟩
  | some e =>
    rw [hd] at h hvalue
    rcases declaredType_eq_ok_iff.mp hn with ⟨hname, rfl⟩ | ⟨m, u, hname, rfl, hm⟩
    · rw [globalInitial_eq_initial (fun _ => rfl)] at h
      exact plain_sound hΓ hvalue hn (by simp [hname]) h
    · by_cases hform : d.isList = true → e.isItemized = false
      · rw [globalInitial_eq_initial (element?_listed hm hform)] at h
        exact plain_sound hΓ hvalue hn (fun _ _ => hform) h
      · obtain ⟨hlist, hitem⟩ : d.isList = true ∧ e.isItemized = true := by simpa using hform
        obtain ⟨vs, slot, rfl⟩ : ∃ vs slot, e = .list vs slot := by
          cases e <;> simp [Expr.isItemized] at hitem
          exact ⟨_, _, rfl⟩
        rw [Option.map_some, GlobalDecl.listed, if_pos hlist] at h
        obtain ⟨es, ts, rfl, rfl, rfl, rfl, hes, hts, l, rfl⟩ := itemized_sound hΓ hvalue h
        exact ⟨.list u, rfl, fun v => .items hname hm hlist rfl hes hts, rfl, l, rfl⟩

variable (level) in
/-- The initial value of a well-typed global is accepted. -/
theorem globalInitial_complete {d : GlobalDecl} {t : Ty} {a : Analyzer} (hΓ : a.Represents s Γ)
    (h : d.Declares Γ t) :
    ∃ declared l, declaredType d.typeName = .ok declared ∧
      globalInitial level s (declared.map d.listed) (d.value.map Expr.erase) a =
        ((d.value, .ok (some t)), { a with trace := l }) := by
  cases h with
  | written hd hn hvalue =>
    refine ⟨some _, a.trace, declaredType_eq_ok_iff.mpr (.inr ⟨_, _, hd, rfl, hn⟩), ?_⟩
    rw [hvalue]
    rfl
  | inferred hd hvalue he =>
    obtain ⟨l, hl⟩ := value_complete level none hΓ he (Ty.assignable_refl t)
    refine ⟨none, l, declaredType_eq_ok_iff.mpr (.inl ⟨hd, rfl⟩), ?_⟩
    rw [hvalue, Option.map_some, Option.map_none, globalInitial_eq_initial (fun _ => rfl)]
    exact hl
  | checked hd hn hvalue hform he hts =>
    obtain ⟨l, hl⟩ := value_complete level (some (d.listed _)) hΓ he hts
    refine ⟨some _, l, declaredType_eq_ok_iff.mpr (.inr ⟨_, _, hd, rfl, hn⟩), ?_⟩
    rw [hvalue, Option.map_some, Option.map_some, globalInitial_eq_initial]
    · exact hl
    · exact element?_listed hn fun hlist => (isItemized_erase _).trans (hform hlist)
  | items hd hn hlist hvalue hes hts =>
    obtain ⟨l, hl⟩ := itemized_complete level hΓ hes hts
    refine ⟨some _, l, declaredType_eq_ok_iff.mpr (.inr ⟨_, _, hd, rfl, hn⟩), ?_⟩
    rw [hvalue, Option.map_some, Option.map_some, Expr.erase]
    rw [GlobalDecl.listed, if_pos hlist]
    exact hl

/-- An accepted global is well typed by the rules. -/
theorem global_sound {g g' : Global} {u : Unit} {a a' : Analyzer} (hΓ : a.Holds Γ)
    (hg : g.IsWritten) (h : global level a.root g a = ((g', .ok u), a')) :
    ∃ d Γ', g' = .decl d ∧ d.Typed Γ Γ' ∧ g'.erase = g ∧ a'.Holds Γ' ∧ a'.root = a.root := by
  cases g with
  | fragment x n value => exact hg.elim
  | hole x => exact hg.elim
  | decl d =>
    rw [global] at h
    by_cases hsome : d.typeName = none ∧ d.value = none
    · simp only [hsome, Option.isNone_none, Bool.and_self, if_true] at h
      cases h
    have hcond : (d.typeName.isNone && d.value.isNone) = false := by
      cases hn : d.typeName <;> cases hv : d.value <;> simp_all
    simp only [hcond, Bool.false_eq_true, if_false] at h
    cases hn : declaredType d.typeName with
    | error f =>
      simp only [hn] at h
      cases h
    | ok declared =>
      simp only [hn, run_bind, d.map_listed] at h
      rcases h₁ : globalInitial level a.root (declared.map d.listed) d.value a with ⟨⟨value, r⟩, a₁⟩
      simp only [h₁] at h
      cases r with
      | error f => cases h
      | ok r =>
        obtain ⟨t, rfl, hdecl, herase, l, rfl⟩ :=
          globalInitial_sound hΓ.represents (by exact hg) hn hsome h₁
        simp only [run_bind, run_number, Option.getD_some, hΓ.next] at h
        generalize hv : (⟨d.name, d.mutable, t, ⟨Γ.next, none⟩⟩ : Variable) = v at h
        cases hlabel : v.name.label with
        | error f =>
          simp only [run_define_error hlabel] at h
          cases h
        | ok k =>
          obtain ⟨hkname, hkey⟩ := Name.of_label hlabel
          simp only [run_define hlabel] at h
          cases hslot : d.declared with
          | some w =>
            simp only [hslot] at h
            cases h
          | none =>
            simp only [hslot] at h
            obtain ⟨l', hl'⟩ := run_saying level _ _ _ _ _
            cases hl'.symm.trans h
            subst hv
            refine ⟨_, _, rfl, .intro (hdecl _) hkey rfl rfl, ?_, ?_, rfl⟩
            · simp only [Global.erase, GlobalDecl.erase, herase]
              rw [← hslot]
            · have hholds := hΓ.define hkname
              exact (hΓ.next ▸ hholds).traced l'

theorem isSome_of_globalDeclares {d : GlobalDecl} {t : Ty} (h : d.Declares Γ t) :
    (d.typeName.isNone && (d.value.map Expr.erase).isNone) = false := by
  cases h with
  | written hd _ hvalue => rw [hd]; rfl
  | inferred hd hvalue _ => rw [hd, hvalue]; rfl
  | checked hd _ hvalue _ _ _ => rw [hd]; rfl
  | items hd _ _ hvalue _ _ => rw [hd]; rfl

variable (level) in
/-- A well-typed global is accepted. -/
theorem global_complete {d : GlobalDecl} {Γ' : Context} {a : Analyzer} (hΓ : a.Holds Γ)
    (h : d.Typed Γ Γ') :
    ∃ a', global level a.root (.decl d.erase) a = ((.decl d, .ok ()), a') ∧ a'.Holds Γ' ∧
      a'.root = a.root := by
  obtain @⟨t, k, v, ht, hk, hv, hslot⟩ := h
  obtain ⟨declared, l, hn, hl⟩ := globalInitial_complete level hΓ.represents ht
  have hkey : v.name.key = .ok k := by
    rw [hv]
    exact hk
  have hlabel := Name.label_of_key hkey
  have hholds := hΓ.next ▸ hΓ.define (v := v) (n := ⟨v.name, k, hkey⟩) rfl
  have hcond : (d.erase.typeName.isNone && d.erase.value.isNone) = false :=
    isSome_of_globalDeclares ht
  have hn' : declaredType d.erase.typeName = .ok declared := hn
  have hl' : globalInitial level a.root (declared.map d.erase.listed) d.erase.value a = _ := hl
  have hv' : v = ⟨d.erase.name, d.erase.mutable, t, ⟨Γ.next, none⟩⟩ := hv
  rw [global]
  simp only [hcond, Bool.false_eq_true, if_false, hn', d.erase.map_listed, run_bind, hl',
    run_number, Option.getD_some, hΓ.next, ← hv', run_define hlabel]
  obtain ⟨l', hl'⟩ := run_saying level _ _ _ _ _
  refine ⟨_, hl'.trans ?_, hholds.traced l', rfl⟩
  rw [← hslot]
  rfl

/-! ### Functions -/

theorem paramType_eq_ok_iff {p : Param} {t : Ty} : paramType p = .ok t ↔ p.HasType t := by
  constructor
  · intro h
    cases p with
    | typed x n =>
      cases n with
      | none =>
        cases h
        exact .any x
      | some n => exact .written (typeNamed_eq_ok_iff.mp h)
    | untyped x => cases h
    | hole x => cases h
  · intro h
    cases h with
    | any x => rfl
    | written hn => exact typeNamed_eq_ok_iff.mpr hn

theorem mapM_paramType_eq_ok_iff :
    ∀ {ps : List Param} {ts : List Ty},
      ps.mapM paramType = .ok ts ↔ List.Forall₂ Param.HasType ps ts
  | [], ts => by
    rw [List.mapM_nil, pure_eq_ok, List.forall₂_nil_left_iff, Except.ok.injEq, eq_comm]
  | p :: ps, ts => by
    rw [List.mapM_cons, List.forall₂_cons_left_iff]
    constructor
    · intro h
      obtain ⟨t, ht, h⟩ := ok_of_bind h
      obtain ⟨us, hus, h⟩ := ok_of_bind h
      cases h
      exact ⟨t, us, paramType_eq_ok_iff.mp ht, mapM_paramType_eq_ok_iff.mp hus, rfl⟩
    · rintro ⟨t, us, ht, hus, rfl⟩
      rw [paramType_eq_ok_iff.mpr ht, ok_bind, mapM_paramType_eq_ok_iff.mpr hus]
      rfl

theorem declaredType_getD_eq_iff {n : Option Name} {r : Ty} :
    (∃ t, declaredType n = .ok t ∧ t.getD .nil = r) ↔ Returns n r := by
  constructor
  · rintro ⟨t, ht, rfl⟩
    rcases declaredType_eq_ok_iff.mp ht with ⟨rfl, rfl⟩ | ⟨m, u, rfl, rfl, hm⟩
    · exact .nil
    · exact .written hm
  · intro h
    cases h with
    | nil => exact ⟨none, rfl, rfl⟩
    | written hn =>
      exact ⟨some r, declaredType_eq_ok_iff.mpr (.inr ⟨_, r, rfl, rfl, hn⟩), rfl⟩

/-- Parameters that are bound one after the other are in force together. -/
theorem enter_cons (Γ : Context) (v : Variable) (vs : List Variable) :
    Γ.enter (v :: vs) = ({ Γ with vars := v :: Γ.vars } : Context).enter vs := by
  simp [Context.enter]

/-- Parameters are bound in the scope of the body. -/
theorem defineParams_sound {n : Nat} :
    ∀ {ps : List Param} {ts : List Ty} {i : Nat} {Γ : Context} {u : Unit} {a a' : Analyzer},
      a.Represents s Γ → List.Forall₂ Param.HasType ps ts →
      defineParams s n i ps ts a = (.ok u, a') →
        (∀ v ∈ paramVariables n i ps ts, ∃ k, v.name.key = .ok k) ∧
        a'.Represents s (Γ.enter (paramVariables n i ps ts)) ∧ a.Grows s a' := by
  intro ps ts i Γ u a a' hΓ hps h
  induction hps generalizing i Γ a with
  | nil =>
    cases h
    exact ⟨by simp [paramVariables], hΓ, .refl s _⟩
  | @cons p t ps ts hp hps ih =>
    obtain ⟨x, hx⟩ := hp.name
    rw [defineParams] at h
    simp only [hx, run_bind] at h
    generalize hv : (⟨x, false, t, ⟨n, some i⟩⟩ : Variable) = v at h
    have hvars : paramVariables n i (p :: ps) (t :: ts) = v :: paramVariables n (i + 1) ps ts := by
      rw [paramVariables, hx, ← hv]
      rfl
    cases hlabel : v.name.label with
    | error f =>
      simp only [run_define_error hlabel] at h
      cases h
    | ok k =>
      obtain ⟨hkname, hkey⟩ := Name.of_label hlabel
      simp only [run_define hlabel] at h
      obtain ⟨hkeys, hΓ', hgrows⟩ := ih (hΓ.define hkname) h
      rw [hvars, enter_cons]
      refine ⟨?_, hΓ', (grows_declare a.next a.trace).trans hgrows⟩
      exact List.forall_mem_cons.mpr ⟨⟨_, hkey⟩, hkeys⟩

theorem defineParams_complete {n : Nat} :
    ∀ {ps : List Param} {ts : List Ty} {i : Nat} {Γ : Context} {a : Analyzer},
      a.Represents s Γ → List.Forall₂ Param.HasType ps ts →
      (∀ v ∈ paramVariables n i ps ts, ∃ k, v.name.key = .ok k) →
        ∃ a', defineParams s n i ps ts a = (.ok (), a') ∧
          a'.Represents s (Γ.enter (paramVariables n i ps ts)) ∧ a.Grows s a' := by
  intro ps ts i Γ a hΓ hps hkeys
  induction hps generalizing i Γ a with
  | nil => exact ⟨a, rfl, hΓ, .refl s a⟩
  | @cons p t ps ts hp hps ih =>
    obtain ⟨x, hx⟩ := hp.name
    generalize hv : (⟨x, false, t, ⟨n, some i⟩⟩ : Variable) = v
    have hvars : paramVariables n i (p :: ps) (t :: ts) = v :: paramVariables n (i + 1) ps ts := by
      rw [paramVariables, hx, ← hv]
      rfl
    rw [hvars] at hkeys ⊢
    obtain ⟨⟨k, hk⟩, hkeys⟩ := List.forall_mem_cons.mp hkeys
    have hlabel := Name.label_of_key hk
    obtain ⟨a', h, hΓ', hgrows⟩ := ih (hΓ.define (v := v) (n := ⟨v.name, k, hk⟩) rfl) hkeys
    refine ⟨a', ?_, ?_, (grows_declare a.next a.trace).trans hgrows⟩
    · rw [defineParams]
      simp only [hx, run_bind, hv, run_define hlabel]
      exact h
    · rw [enter_cons]
      exact hΓ'

/-- The step of a body: a return is held against the signature, everything else is not. -/
theorem body_cons {r : Ty} {x : Stmt} {xs : List Stmt} {u : Unit} {x₁ : Stmt} {a a₁ : Analyzer}
    (h : stmt level s x a = ((x₁, .ok u), a₁))
    (hret : ∀ e, x₁ = .ret e → r.assignable (e.type?.getD .any) = true) :
    body level s r (x :: xs) a =
      ((x₁ :: (body level s r xs a₁).1.1, (body level s r xs a₁).1.2),
        (body level s r xs a₁).2) := by
  rw [body, run_bind, h]
  cases x₁ with
  | ret e =>
    have hassign := (requireAssignable_eq_ok_iff (u := ())).mpr (hret e rfl)
    simp only [ok_bind, hassign]
    rfl
  | _ => rfl

theorem body_cons_ok {r : Ty} {x : Stmt} {xs xs' : List Stmt} {u : Unit} {a a' : Analyzer}
    (h : body level s r (x :: xs) a = ((xs', .ok u), a')) :
    ∃ x₁ a₁, stmt level s x a = ((x₁, .ok ()), a₁) ∧
      ∀ e, x₁ = .ret e → r.assignable (e.type?.getD .any) = true := by
  rw [body, run_bind] at h
  rcases h₁ : stmt level s x a with ⟨⟨x₁, q⟩, a₁⟩
  rw [h₁] at h
  cases q with
  | error f => cases h
  | ok _ =>
    refine ⟨x₁, a₁, rfl, ?_⟩
    rintro e rfl
    cases hassign : requireAssignable r (e.type?.getD .any) with
    | error f =>
      simp only [ok_bind, hassign] at h
      cases h
    | ok _ => exact requireAssignable_eq_ok_iff.mp hassign

/-- The slot of a return in a well-typed block holds a type. -/
theorem type?_of_ret {e : Expr} {Γ' : Context} (h : Stmt.Typed Γ (.ret e) Γ') :
    e.type? = some (e.type?.getD .any) := by
  cases h with
  | ret he => rw [he.type?_eq, Option.getD_some]

/-- An accepted body is well typed by the rules, and the returns that stand directly in it have
types that are assignable to the returned type. -/
theorem body_sound {r : Ty} : ∀ {xs xs' : List Stmt} {s : Nat} {Γ : Context} {u : Unit}
    {a a' : Analyzer}, a.Represents s Γ → Stmt.AreWritten xs →
    body level s r xs a = ((xs', .ok u), a') →
      ∃ Γ', Stmt.BlockTyped Γ xs' Γ' ∧ Stmt.eraseBlock xs' = xs ∧
        (∀ e, Stmt.ret e ∈ xs' → ∃ t, e.type? = some t ∧ r.assignable t = true) ∧
        a'.Represents s Γ' ∧ a.Grows s a'
  | [], xs', s, Γ, u, a, a', hΓ, _, h => by
    cases h
    exact ⟨Γ, .nil, rfl, by simp, hΓ, .refl s a⟩
  | x :: xs, xs', s, Γ, u, a, a', hΓ, hx, h => by
    obtain ⟨x₁, a₁, h₁, hret⟩ := body_cons_ok h
    obtain ⟨Γ₁, hx₁, rfl, hΓ₁, hgrows₁⟩ := stmt_sound hΓ hx.1 h₁
    rcases h₂ : body level s r xs a₁ with ⟨⟨xs₁, q⟩, a₂⟩
    rw [body_cons h₁ hret, h₂] at h
    cases h
    obtain ⟨Γ₂, hxs, rfl, hrets, hΓ₂, hgrows₂⟩ := body_sound hΓ₁ hx.2 h₂
    refine ⟨Γ₂, .cons hx₁ hxs, rfl, ?_, hΓ₂, hgrows₁.trans hgrows₂⟩
    intro e he
    rcases List.mem_cons.mp he with rfl | he
    · exact ⟨_, type?_of_ret hx₁, hret e rfl⟩
    · exact hrets e he

variable (level) in
/-- A well-typed body is accepted. -/
theorem body_complete {r : Ty} : ∀ {xs : List Stmt} {s : Nat} {Γ Γ' : Context} {a : Analyzer},
    a.Represents s Γ → Stmt.BlockTyped Γ xs Γ' →
    (∀ e, Stmt.ret e ∈ xs → ∃ t, e.type? = some t ∧ r.assignable t = true) →
      ∃ a', body level s r (Stmt.eraseBlock xs) a = ((xs, .ok ()), a') ∧ a'.Represents s Γ' ∧
        a.Grows s a'
  | _, s, _, _, a, hΓ, .nil, _ => ⟨a, rfl, hΓ, .refl s a⟩
  | _, s, _, _, a, hΓ, .cons (x := x) hx hxs, hrets => by
    obtain ⟨a₁, h₁, hΓ₁, hgrows₁⟩ := stmt_complete level hΓ hx
    obtain ⟨a₂, h₂, hΓ₂, hgrows₂⟩ := body_complete hΓ₁ hxs fun e he => hrets e (by simp [he])
    refine ⟨a₂, ?_, hΓ₂, hgrows₁.trans hgrows₂⟩
    have hret : ∀ e, x = .ret e → r.assignable (e.type?.getD .any) = true := by
      rintro e rfl
      obtain ⟨t, ht, hassign⟩ := hrets e (by simp)
      rwa [ht]
    rw [Stmt.eraseBlock, body_cons h₁ hret, h₂]

theorem run_defineFunction {f : Signature} {n : Label} (hn : f.name.label = .ok n) (s : Nat)
    (a : Analyzer) :
    defineFunction s f a =
      (.ok (), { a with scopes := a.scopes.defineFunction s n f.arity (some f) }) := by
  rw [defineFunction, hn]
  rfl

theorem run_defineFunction_error {f : Signature} {e : Failure} (hn : f.name.label = .error e)
    (s : Nat) (a : Analyzer) : defineFunction s f a = (.error e, a) := by
  rw [defineFunction, hn]
  rfl

/-- The parameters and the body of a function are walked in a new scope. -/
theorem inside_sound {n : Nat} {params : List Param} {ps : List Ty} {r : Ty} {xs xs' : List Stmt}
    {u w : Unit} {a a₁ a' : Analyzer} (hΓ : a.Holds Γ)
    (hps : List.Forall₂ Param.HasType params ps) (hxs : Stmt.AreWritten xs)
    (hparams : defineParams a.scopes.size n 0 params ps
      { a with scopes := a.scopes.addChild a.root } = (.ok w, a₁))
    (hbody : body level a.scopes.size r xs a₁ = ((xs', .ok u), a')) :
    (∀ v ∈ paramVariables n 0 params ps, ∃ k, v.name.key = .ok k) ∧
      ∃ Γ', Stmt.BlockTyped (Γ.enter (paramVariables n 0 params ps)) xs' Γ' ∧
        Stmt.eraseBlock xs' = xs ∧
        (∀ e, Stmt.ret e ∈ xs' → ∃ t, e.type? = some t ∧ r.assignable t = true) ∧
        a'.Holds (Γ.leave Γ') ∧ a'.root = a.root := by
  obtain ⟨hkeys, hΓ₁, hgrows₁⟩ := defineParams_sound hΓ.represents.child hps hparams
  obtain ⟨Γ', hblock, herase, hrets, hΓ', hgrows₂⟩ := body_sound hΓ₁ hxs hbody
  exact ⟨hkeys, Γ', hblock, herase, hrets, hΓ.leave (hgrows₁.trans hgrows₂) hΓ'⟩

variable (level) in
theorem inside_complete {n : Nat} {params : List Param} {ps : List Ty} {r : Ty} {xs : List Stmt}
    {Γ' : Context} {a : Analyzer} (hΓ : a.Holds Γ) (hps : List.Forall₂ Param.HasType params ps)
    (hkeys : ∀ v ∈ paramVariables n 0 params ps, ∃ k, v.name.key = .ok k)
    (hxs : Stmt.BlockTyped (Γ.enter (paramVariables n 0 params ps)) xs Γ')
    (hrets : ∀ e, Stmt.ret e ∈ xs → ∃ t, e.type? = some t ∧ r.assignable t = true) :
    ∃ a₁ a', defineParams a.scopes.size n 0 params ps
        { a with scopes := a.scopes.addChild a.root } = (.ok (), a₁) ∧
      body level a.scopes.size r (Stmt.eraseBlock xs) a₁ = ((xs, .ok ()), a') ∧
      a'.Holds (Γ.leave Γ') ∧ a'.root = a.root := by
  obtain ⟨a₁, h₁, hΓ₁, hgrows₁⟩ := defineParams_complete hΓ.represents.child hps hkeys
  obtain ⟨a', h₂, hΓ', hgrows₂⟩ := body_complete level hΓ₁ hxs hrets
  exact ⟨a₁, a', h₁, h₂, hΓ.leave (hgrows₁.trans hgrows₂) hΓ'⟩

/-- An accepted function is well typed by the rules. -/
theorem funcDecl_sound {d d' : FuncDecl} {u : Unit} {a a' : Analyzer} (hΓ : a.Holds Γ)
    (hd : Stmt.AreWritten d.body) (h : funcDecl level a.root d a = ((d', .ok u), a')) :
    ∃ Γ', d'.Typed Γ Γ' ∧ d'.erase = d ∧ a'.Holds Γ' ∧ a'.root = a.root := by
  rw [funcDecl] at h
  cases hps : d.params.mapM paramType with
  | error e =>
    simp only [hps, error_bind] at h
    cases h
  | ok ps =>
    cases hr : declaredType d.returnTypeName with
    | error e =>
      simp only [hps, hr, ok_bind, error_bind] at h
      cases h
    | ok r =>
      simp only [hps, hr, ok_bind, pure_eq_ok, run_bind, run_number, hΓ.next] at h
      have hreturns := declaredType_getD_eq_iff.mp ⟨r, hr, rfl⟩
      rw [mapM_paramType_eq_ok_iff] at hps
      generalize r.getD .nil = r at h hreturns
      generalize hf : (⟨d.name, ps, r, Γ.next⟩ : Signature) = f at h
      cases hlabel : f.name.label with
      | error e =>
        simp only [run_defineFunction_error hlabel] at h
        cases h
      | ok k =>
        obtain ⟨hkname, hkey⟩ := Name.of_label hlabel
        simp only [run_defineFunction hlabel] at h
        cases hslot : d.signature with
        | some w =>
          simp only [hslot] at h
          cases h
        | none =>
          obtain ⟨l, hl⟩ := say_eq level 2 (.plain "function " ++ f.text)
            { a with
              scopes := a.scopes.defineFunction a.root k f.arity (some f)
              next := Γ.next + 1 }
          simp only [hslot, run_bind, hl, run_child] at h
          have hholds := (hΓ.next ▸ hΓ.defineFunction hkname).traced l
          generalize ha₁ : ({ a with
            scopes := a.scopes.defineFunction a.root k f.arity (some f)
            next := Γ.next + 1
            trace := l } : Analyzer) = a₁ at hholds
          have hroot : a₁.root = a.root := by rw [← ha₁]
          rcases h₁ : defineParams a₁.scopes.size Γ.next 0 d.params ps
            { a₁ with scopes := a₁.scopes.addChild a₁.root } with ⟨q, a₂⟩
          rw [← ha₁] at h₁
          simp only [h₁] at h
          cases q with
          | error e => cases h
          | ok _ =>
            simp only [run_bind] at h
            rcases h₂ : body level a₁.scopes.size r d.body a₂ with ⟨⟨b, q⟩, a₃⟩
            rw [← ha₁] at h₂
            simp only [h₂] at h
            cases h
            rw [ha₁] at h₂ h₁
            obtain ⟨hkeys, Γ', hbody, herase, hrets, hΓ', hroot'⟩ :=
              inside_sound hholds hps hd h₁ h₂
            subst hf
            refine ⟨_, .intro hps hreturns hkey rfl rfl hkeys hbody hrets, ?_, hΓ',
              hroot'.trans hroot⟩
            rw [FuncDecl.erase, herase, ← hslot]

variable (level) in
/-- A well-typed function is accepted. -/
theorem funcDecl_complete {d : FuncDecl} {Γ' : Context} {a : Analyzer} (hΓ : a.Holds Γ)
    (h : d.Typed Γ Γ') :
    ∃ a', funcDecl level a.root d.erase a = ((d, .ok ()), a') ∧ a'.Holds Γ' ∧
      a'.root = a.root := by
  obtain @⟨ps, r, k, f, Γ', hps, hr, hk, hf, hslot, hkeys, hbody, hrets⟩ := h
  obtain ⟨t, ht, rfl⟩ := declaredType_getD_eq_iff.mpr hr
  have hkey : f.name.key = .ok k := by
    rw [hf]
    exact hk
  have hlabel := Name.label_of_key hkey
  obtain ⟨l, hl⟩ := say_eq level 2 (.plain "function " ++ f.text)
    { a with
      scopes := a.scopes.defineFunction a.root ⟨f.name, k, hkey⟩ f.arity (some f)
      next := Γ.next + 1 }
  have hholds := (hΓ.next ▸ hΓ.defineFunction (f := f) (n := ⟨f.name, k, hkey⟩) rfl).traced l
  obtain ⟨a₁, a', h₁, h₂, hΓ', hroot⟩ := inside_complete level hholds hps hkeys hbody hrets
  refine ⟨a', ?_, hΓ', hroot⟩
  have hps' : d.erase.params.mapM paramType = .ok ps := mapM_paramType_eq_ok_iff.mpr hps
  have ht' : declaredType d.erase.returnTypeName = .ok t := ht
  have hf' : f = ⟨d.erase.name, ps, t.getD .nil, Γ.next⟩ := hf
  have hslot' : d.erase.signature = none := rfl
  rw [funcDecl]
  simp only [hps', ht', ok_bind, pure_eq_ok, run_bind, run_number, hΓ.next, ← hf',
    run_defineFunction hlabel, hslot', hl, run_child]
  simp only [FuncDecl.erase, h₁, run_bind, h₂]
  rw [← hslot]
  rfl

/-! ### Programs -/

theorem globals_sound : ∀ {gs gs' : List Global} {Γ : Context} {u : Unit} {a a' : Analyzer},
    a.Holds Γ → (∀ g ∈ gs, g.IsWritten) → globals level a.root gs a = ((gs', .ok u), a') →
      ∃ Γ', Global.ListTyped Γ gs' Γ' ∧ gs'.map Global.erase = gs ∧ a'.Holds Γ' ∧
        a'.root = a.root
  | [], gs', Γ, u, a, a', hΓ, _, h => by
    cases h
    exact ⟨Γ, .nil, rfl, hΓ, rfl⟩
  | g :: gs, gs', Γ, u, a, a', hΓ, hg, h => by
    rw [globals, run_bind] at h
    rcases h₁ : global level a.root g a with ⟨⟨g₁, q⟩, a₁⟩
    rw [h₁] at h
    cases q with
    | error f => cases h
    | ok _ =>
      obtain ⟨d, Γ₁, rfl, hd, rfl, hΓ₁, hroot⟩ := global_sound hΓ (hg g (by simp)) h₁
      simp only [run_bind, ← hroot] at h
      rcases h₂ : globals level a₁.root gs a₁ with ⟨⟨gs₁, q⟩, a₂⟩
      rw [h₂] at h
      cases h
      obtain ⟨Γ₂, hgs, rfl, hΓ₂, hroot₂⟩ := globals_sound hΓ₁ (fun g h => hg g (by simp [h])) h₂
      exact ⟨Γ₂, .cons hd hgs, rfl, hΓ₂, hroot₂.trans hroot⟩

variable (level) in
theorem globals_complete : ∀ {gs : List Global} {Γ Γ' : Context} {a : Analyzer}, a.Holds Γ →
    Global.ListTyped Γ gs Γ' →
      ∃ a', globals level a.root (gs.map Global.erase) a = ((gs, .ok ()), a') ∧ a'.Holds Γ' ∧
        a'.root = a.root := by
  intro gs Γ Γ' a hΓ h
  induction h generalizing a with
  | nil => exact ⟨a, rfl, hΓ, rfl⟩
  | cons hd hgs ih =>
    obtain ⟨a₁, h₁, hΓ₁, hroot⟩ := global_complete level hΓ hd
    obtain ⟨a₂, h₂, hΓ₂, hroot₂⟩ := ih hΓ₁
    refine ⟨a₂, ?_, hΓ₂, hroot₂.trans hroot⟩
    rw [List.map_cons, Global.erase, globals, run_bind, h₁]
    simp only [run_bind, ← hroot, h₂]
    rfl

theorem functions_sound : ∀ {fs fs' : List Func} {Γ : Context} {u : Unit} {a a' : Analyzer},
    a.Holds Γ → (∀ f ∈ fs, f.IsWritten) → functions level a.root fs a = ((fs', .ok u), a') →
      ∃ Γ', Func.ListTyped Γ fs' Γ' ∧ fs'.map Func.erase = fs ∧ a'.Holds Γ' ∧ a'.root = a.root
  | [], fs', Γ, u, a, a', hΓ, _, h => by
    cases h
    exact ⟨Γ, .nil, rfl, hΓ, rfl⟩
  | .hole x :: fs, fs', Γ, u, a, a', hΓ, hf, h => (hf (.hole x) (by simp)).elim
  | .decl d :: fs, fs', Γ, u, a, a', hΓ, hf, h => by
    rw [functions, run_bind, func, run_bind] at h
    rcases h₁ : funcDecl level a.root d a with ⟨⟨d₁, q⟩, a₁⟩
    rw [h₁] at h
    cases q with
    | error f => cases h
    | ok _ =>
      have hwritten : Stmt.AreWritten d.body := hf (.decl d) (by simp)
      obtain ⟨Γ₁, hd, rfl, hΓ₁, hroot⟩ := funcDecl_sound hΓ hwritten h₁
      simp only [run_pure, run_bind, ← hroot] at h
      rcases h₂ : functions level a₁.root fs a₁ with ⟨⟨fs₁, q⟩, a₂⟩
      rw [h₂] at h
      cases h
      obtain ⟨Γ₂, hfs, rfl, hΓ₂, hroot₂⟩ :=
        functions_sound hΓ₁ (fun f h => hf f (by simp [h])) h₂
      exact ⟨Γ₂, .cons hd hfs, rfl, hΓ₂, hroot₂.trans hroot⟩

variable (level) in
theorem functions_complete {fs : List Func} {Γ Γ' : Context} {a : Analyzer} (hΓ : a.Holds Γ)
    (h : Func.ListTyped Γ fs Γ') :
    ∃ a', functions level a.root (fs.map Func.erase) a = ((fs, .ok ()), a') ∧ a'.Holds Γ' ∧
      a'.root = a.root := by
  induction h generalizing a with
  | nil => exact ⟨a, rfl, hΓ, rfl⟩
  | cons hd _ ih =>
    obtain ⟨a₁, h₁, hΓ₁, hroot⟩ := funcDecl_complete level hΓ hd
    obtain ⟨a₂, h₂, hΓ₂, hroot₂⟩ := ih hΓ₁
    refine ⟨a₂, ?_, hΓ₂, hroot₂.trans hroot⟩
    rw [List.map_cons, Func.erase, functions, run_bind, func, run_bind, h₁]
    simp only [run_pure, run_bind, ← hroot, h₂]

/-- **An accepted program is well typed by the rules.** The filled tree is the record of the
derivation, and the scope of the globals has the context in which it ends. -/
theorem program_sound {tracer : Tracer} {p q : Program} {u : Unit} {a' : Analyzer}
    (hp : p.IsWritten) (h : program tracer p Analyzer.fresh = ((q, .ok u), a')) :
    ∃ Γ, q.Typed Γ ∧ q.erase = p ∧ a'.Holds Γ := by
  have h : program tracer.level p Analyzer.fresh = ((q, .ok u), a') := program_console_of_ok h
  rw [program, run_bind, run_get] at h
  simp only [run_bind] at h
  rcases h₁ : globals tracer.level Analyzer.fresh.root p.globals Analyzer.fresh with ⟨⟨gs, r⟩, a₁⟩
  simp only [h₁] at h
  cases r with
  | error f => cases h
  | ok _ =>
    obtain ⟨Γ₁, hgs, hgs', hΓ₁, hroot⟩ := globals_sound .fresh hp.globals h₁
    simp only [run_bind, ← hroot] at h
    rcases h₂ : functions tracer.level a₁.root p.functions a₁ with ⟨⟨fs, r⟩, a₂⟩
    simp only [h₂] at h
    cases r with
    | error f => cases h
    | ok _ =>
      obtain ⟨Γ₂, hfs, hfs', hΓ₂, -⟩ := functions_sound hΓ₁ hp.functions h₂
      obtain ⟨l, hl⟩ := run_saying tracer.level _ _ _ _ _
      cases hl.symm.trans h
      exact ⟨Γ₂, .intro hgs hfs, by rw [Program.erase, hgs', hfs'], hΓ₂.traced l⟩

variable (level) in
/-- **A well-typed program is accepted, and its slots are filled as in the derivation.** -/
theorem program_complete {q : Program} {Γ : Context} (h : q.Typed Γ) :
    ∃ a', program level q.erase Analyzer.fresh = ((q, .ok ()), a') ∧ a'.Holds Γ := by
  obtain ⟨hgs, hfs⟩ := h
  obtain ⟨a₁, h₁, hΓ₁, hroot⟩ := globals_complete level .fresh hgs
  obtain ⟨a₂, h₂, hΓ₂, -⟩ := functions_complete level hΓ₁ hfs
  rw [hroot] at h₂
  rw [program, run_bind, run_get]
  simp only [run_bind, Program.erase, h₁, h₂]
  obtain ⟨l, hl⟩ := run_saying level _ _ _ _ _
  exact ⟨_, hl, hΓ₂.traced l⟩

end Analysis

/-! ### The analysis decides the rules -/

/-- The variable that a member of the globals declares. -/
def Global.declared? : Global → Option Variable
  | .decl d => d.declared
  | _ => none

/-- The function that a member of the functions declares. -/
def Func.declared? : Func → Option Signature
  | .decl d => d.signature
  | .hole _ => none

/-- The global variables that a filled program declares, in order. -/
def Program.declaredGlobals (p : Program) : List Variable :=
  p.globals.filterMap Global.declared?

/-- The functions that a filled program declares, in order. -/
def Program.declaredFunctions (p : Program) : List Signature :=
  p.functions.filterMap Func.declared?

theorem Global.ListTyped.context : ∀ {gs : List Global} {Γ Γ' : Context},
    Global.ListTyped Γ gs Γ' →
      Γ'.vars = (gs.filterMap Global.declared?).reverse ++ Γ.vars ∧ Γ'.funs = Γ.funs
  | _, _, _, .nil => ⟨rfl, rfl⟩
  | _, Γ, _, .cons hd hgs => by
    obtain ⟨ht, hk, hv, hslot⟩ := hd
    obtain ⟨hvars, hfuns⟩ := hgs.context
    refine ⟨?_, hfuns⟩
    rw [hvars, List.filterMap_cons_some (by exact hslot)]
    simp [Context.declare]

theorem Func.ListTyped.context : ∀ {fs : List Func} {Γ Γ' : Context}, Func.ListTyped Γ fs Γ' →
    Γ'.vars = Γ.vars ∧ Γ'.funs = (fs.filterMap Func.declared?).reverse ++ Γ.funs
  | _, _, _, .nil => ⟨rfl, rfl⟩
  | _, Γ, _, .cons hd hfs => by
    obtain ⟨hps, hr, hk, hf, hslot, hkeys, hbody, hret⟩ := hd
    obtain ⟨hvars, hfuns⟩ := hfs.context
    refine ⟨hvars, ?_⟩
    rw [hfuns, List.filterMap_cons_some (by exact hslot)]
    simp [Context.leave, Context.declareFunction]

/-- Each function is well typed with the globals in force, and sees only functions of the
program. -/
theorem Func.ListTyped.typed_of_mem {d : FuncDecl} : ∀ {fs : List Func} {Γ Γ' : Context},
    Func.ListTyped Γ fs Γ' → Func.decl d ∈ fs →
      ∃ Γ₁ Γ₂, d.Typed Γ₁ Γ₂ ∧ Γ₁.vars = Γ.vars ∧ ∀ g ∈ Γ₂.funs, g ∈ Γ'.funs
  | _, Γ, _, .cons hd hfs, hmem => by
    rcases List.mem_cons.mp hmem with heq | hmem
    · cases heq
      refine ⟨Γ, _, hd, rfl, fun g hg => ?_⟩
      rw [hfs.context.2]
      exact List.mem_append_right _ hg
    · obtain ⟨Γ₁, Γ₂, hd', hvars, hfuns⟩ := hfs.typed_of_mem hmem
      obtain ⟨-, -, -, -, -, -, -, -⟩ := hd
      exact ⟨Γ₁, Γ₂, hd', hvars, hfuns⟩

/-- The context in which a well-typed program ends has its declarations, the latest first. -/
theorem Program.Typed.context {p : Program} {Γ : Context} (h : p.Typed Γ) :
    Γ.vars = p.declaredGlobals.reverse ∧
      Γ.funs = (Analyzer.printSignature :: p.declaredFunctions).reverse := by
  obtain ⟨hgs, hfs⟩ := h
  obtain ⟨hvars, hfuns⟩ := hgs.context
  obtain ⟨hvars', hfuns'⟩ := hfs.context
  constructor
  · rw [hvars', hvars]
    simp [Context.start, Program.declaredGlobals]
  · rw [hfuns', hfuns]
    simp [Context.start, Program.declaredFunctions]

/-- **The analysis decides the typing rules.** A program that comes from a text is accepted exactly
if it is derivable; there is at most one derivation, and on acceptance the slots hold what it
assigns to them. The scope of the globals then binds exactly the last global of each name and the
last function of each name and arity, the built-in one counting as the first. -/
theorem program_decides {text : String} {p : Program} (hp : readProgram text = .ok p)
    (tracer : Tracer) :
    let outcome := (Analysis.program tracer p).run Analyzer.fresh
    let q := outcome.1.1
    let verdict := outcome.1.2
    let a := outcome.2
    (verdict = .ok () ↔ ∃ q', p.Derives q') ∧ (∀ q', p.Derives q' → q' = q) ∧
      (verdict = .ok () →
        (∀ k, a.scopes.ownVariable? k a.root =
          (q.declaredGlobals.reverse.find? fun v => v.name.isKnownAs k).map some) ∧
        ∀ k n, a.scopes.ownFunction? k n a.root =
          ((Analyzer.printSignature :: q.declaredFunctions).reverse.find? fun f =>
            f.name.isKnownAs k && f.arity = n).map some) := by
  intro outcome q verdict a
  have hconsole := Analysis.program_console_of_readProgram hp (List.Subset.refl _)
    (List.Subset.refl _) tracer Analyzer.fresh
  have hrun : Analysis.program tracer.level p Analyzer.fresh = ((q, verdict), a) := hconsole.symm
  clear_value q verdict a
  have hwritten := isWritten_of_readProgram hp
  have hcomplete : ∀ q', p.Derives q' → verdict = .ok () ∧ q' = q := by
    rintro q' ⟨rfl, Γ, hΓ⟩
    obtain ⟨a', h, -⟩ := Analysis.program_complete tracer.level hΓ
    cases hrun.symm.trans h
    exact ⟨rfl, rfl⟩
  refine ⟨⟨?_, ?_⟩, fun q' hq' => (hcomplete q' hq').2, ?_⟩
  · rintro rfl
    obtain ⟨Γ, hΓ, herase, -⟩ := Analysis.program_sound hwritten hrun
    exact ⟨q, herase, Γ, hΓ⟩
  · rintro ⟨q', hq'⟩
    exact (hcomplete q' hq').1
  · rintro rfl
    obtain ⟨Γ, hΓ, -, hholds⟩ := Analysis.program_sound hwritten hrun
    obtain ⟨hvars, hfuns⟩ := hΓ.context
    refine ⟨fun k => ?_, fun k n => ?_⟩
    · rw [hholds.vars, Context.findVariable?, hvars]
    · rw [hholds.funs, Context.findFunction?, hfuns]

/-- A program with a global and a function is accepted, so it is derivable. -/
theorem program_decides_flag :
    ∃ p, readProgram "VAR flag = TRUE; FUN main(): Boolean DO flag = FALSE; RETURN flag; END" =
      .ok p ∧ ∃ q, p.Derives q :=
  ⟨_, by cbv, (@program_decides
    "VAR flag = TRUE; FUN main(): Boolean DO flag = FALSE; RETURN flag; END" _ (by cbv) 0).1.mp
      rfl⟩

end Scriptlet
