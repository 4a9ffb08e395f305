import Scriptlet.Proofs.Machine.Programs

/-! # Which function a call runs

The analysis resolves a call when it comes to it: to the last function declared so far of the name
and arity. The machine looks the function up when the call is executed: while globals are evaluated
only the built-in function is there, afterwards the last one of the whole program. So a call runs
the function in its slot exactly if no later declaration hides that function.

* `find?_reverse_eq_some_iff`: the last of some elements is one that no later one follows.
* `dispatches_of_hasType`: what a call runs is known before its arguments are evaluated.
* `Program.Typed.signature?_iff`: the last function is the declared one unless it is redeclared.
* `run_dispatches`: which function each call of a run runs. -/

namespace Scriptlet

open Machine

/-! ### Functions declared again -/

/-- The functions that a program declares, in order. The built-in one counts as the first. -/
def Program.signatures (p : Program) : List Signature :=
  Analyzer.printSignature :: p.declaredFunctions

/-- Whether a function of the same name and arity is declared after a function. -/
def Program.Redeclares (p : Program) (g : Signature) : Prop :=
  ∃ f, [g, f].Sublist p.signatures ∧ f.name.key = g.name.key ∧ f.arity = g.arity

/-- The last function of a program that has a name and a number of parameters. -/
def Program.last? (p : Program) (k : Key) (n : Nat) : Option Callable :=
  p.callables.find? (Callable.answers k n)

/-- What follows an element in a list without repetitions. -/
theorem pair_sublist_iff {α : Type} {before after : List α} {a b : α}
    (h : (before ++ a :: after).Nodup) : [a, b].Sublist (before ++ a :: after) ↔ b ∈ after := by
  obtain ⟨-, hnodup, hdisjoint⟩ := List.nodup_append.mp h
  constructor
  · intro hsub
    obtain ⟨us, vs, heq, hus, hvs⟩ := List.sublist_append_iff.mp hsub
    cases us with
    | nil =>
      obtain rfl : [a, b] = vs := heq
      cases hvs with
      | cons _ hvs => exact absurd (hvs.subset List.mem_cons_self) (List.nodup_cons.mp hnodup).1
      | cons_cons _ hvs => exact List.singleton_sublist.mp hvs
    | cons u us =>
      obtain rfl : a = u := (List.cons.inj heq).1
      exact absurd rfl (hdisjoint a (hus.subset List.mem_cons_self) a List.mem_cons_self)
  · intro hb
    have htail : [a, b].Sublist (a :: after) := (List.singleton_sublist.mpr hb).cons_cons a
    exact htail.trans (List.sublist_append_right before _)

/-- In a list without repetitions, the last element with a property is followed by no other. -/
theorem find?_reverse_eq_some_iff {α : Type} {P : α → Bool} {l : List α} {a : α} (hl : l.Nodup)
    (ha : a ∈ l) (hP : P a = true) :
    l.reverse.find? P = some a ↔ ¬ ∃ b, [a, b].Sublist l ∧ P b = true := by
  obtain ⟨before, after, rfl⟩ := List.append_of_mem ha
  have hnot : a ∉ after := (List.nodup_cons.mp (List.nodup_append.mp hl).2.1).1
  have hfind : (before ++ a :: after).reverse.find? P = (after.reverse.find? P).or (some a) := by
    rw [List.reverse_append, List.find?_append, List.reverse_cons, List.find?_append]
    simp [hP]
  simp only [pair_sublist_iff hl, hfind]
  constructor
  · rintro hsome ⟨b, hb, hPb⟩
    cases hafter : after.reverse.find? P with
    | none => exact List.find?_eq_none.mp hafter b (List.mem_reverse.mpr hb) hPb
    | some c =>
      rw [hafter] at hsome
      obtain rfl : c = a := Option.some.inj hsome
      exact hnot (List.mem_reverse.mp (List.mem_of_find?_eq_some hafter))
  · intro hnone
    have hafter : after.reverse.find? P = none := List.find?_eq_none.mpr fun b hb hPb =>
      hnone ⟨b, List.mem_reverse.mp hb, hPb⟩
    rw [hafter, Option.none_or]

theorem FuncDecl.Typed.next_lt {Γ Γ' : Context} {d : FuncDecl} (h : d.Typed Γ Γ') :
    Γ.next < Γ'.next := by
  obtain @⟨ps, r, k, f, Γ₁, hps, hr, hk, hf, hslot, hkeys, hbody, hret⟩ := h
  exact hbody.numbered.le

/-- Functions are numbered in the order of their declarations. -/
theorem Func.ListTyped.sorted {Γ Γ' : Context} {fs : List Func} (h : Func.ListTyped Γ fs Γ') :
    (∀ g ∈ fs.filterMap Func.declared?, Γ.next ≤ g.declaration) ∧
      (fs.filterMap Func.declared?).Nodup := by
  induction h with
  | nil => exact ⟨nofun, .nil⟩
  | @cons Γ Γ₁ Γ₂ d fs hd hfs ih =>
    have hlt := hd.next_lt
    obtain @⟨ps, r, k, f, Γ₃, hps, hr, hk, hf, hslot, hkeys, hbody, hret⟩ := hd
    obtain ⟨hle, hnodup⟩ := ih
    have hdeclaration : f.declaration = Γ.next := by rw [hf]
    rw [List.filterMap_cons_some (by exact hslot), List.nodup_cons]
    refine ⟨List.forall_mem_cons.mpr ⟨hdeclaration.ge, fun g hg => ?_⟩, fun hmem => ?_, hnodup⟩
    · exact hlt.le.trans (hle g hg)
    · exact absurd (hle f hmem) (hdeclaration ▸ hlt.not_ge)

theorem Program.Typed.nodup_signatures {p : Program} {Γ : Context} (h : p.Typed Γ) :
    p.signatures.Nodup := by
  obtain ⟨hgs, hfs⟩ := h
  obtain ⟨hle, hnodup⟩ := hfs.sorted
  refine List.nodup_cons.mpr ⟨fun hmem => ?_, hnodup⟩
  have hstart := hgs.numbered.le
  have hfirst := hle _ hmem
  simp only [Context.start, Analyzer.printSignature] at hstart hfirst
  omega

/-- What is the last function of a program that has a name and arity, as the analysis knows it. -/
theorem Program.signature?_last? (p : Program) (k : Key) (n : Nat) :
    (p.last? k n).bind Callable.signature? =
      p.signatures.reverse.find? fun f => f.name.isKnownAs k && f.arity = n := by
  rw [Program.signatures, ← p.signatures_callables, List.find?_filterMap, Program.last?]
  congr 2
  funext c
  rw [Callable.answers]
  cases c.signature? <;> rfl

/-- **A function is the last of its name and arity exactly if no later declaration hides it.** -/
theorem Program.Typed.signature?_iff {p : Program} {Γ : Context} (h : p.Typed Γ) {k : Key}
    {c : Callable} {g : Signature} (hc : p.last? k g.arity = some c) (hg : g ∈ p.signatures)
    (hk : g.name.key = .ok k) : c.signature? = some g ↔ ¬ p.Redeclares g := by
  have hlast := p.signature?_last? k g.arity
  rw [hc, Option.bind_some] at hlast
  have hP : (g.name.isKnownAs k && g.arity = g.arity) = true := by
    simp [Name.isKnownAs_iff, hk]
  rw [hlast, find?_reverse_eq_some_iff h.nodup_signatures hg hP, Program.Redeclares]
  simp [Name.isKnownAs_iff, hk]

/-! ### Calls -/

/-- Whether the evaluation of a call, on a machine that has come to it, runs a function: whatever
steps and recursion are left, the arguments are evaluated and that function is called with them. -/
def Machine.Dispatches (tracer : Tracer) (m : Machine) (s : Nat) (x : Name) (args : List Expr)
    (slot : Option Signature) (t : Option Ty) (c : Callable) : Prop :=
  ∀ fuel steps,
    (eval tracer (fuel + 1) s (.call x args slot t)).run { m with steps := steps + 1 } =
      (do
        let vs ← evalAll tracer fuel s args
        if 3 ≤ tracer.level then
          say tracer (.plain "call " ++ x.toText ++ .plain "(" ++ (← tracedTexts vs) ++ .plain ")")
        call tracer fuel c vs : Exec Value).run { m with steps := steps }

/-- Computations that go on alike from all results of a part give the same. -/
theorem Machine.Leads.run_bind_congr {α β : Type} {E : Stop → Machine → Prop} {x : Exec α}
    {f g : α → Exec β} {m : Machine} {Q : α → Machine → Prop} (h : Leads E x m Q)
    (hfg : ∀ a m', Q a m' → (f a).run m' = (g a).run m') : (x >>= f).run m = (x >>= g).run m := by
  unfold Leads at h
  rw [run_bind, run_bind]
  split at h
  · exact hfg _ _ h
  · rfl

section Calls

variable {W : Setting} {Γ : Context} {tracer : Tracer} {m : Machine} {τ : List Ty} {s : Nat}
  {x : Name} {args : List Expr} {slot : Option Signature} {t : Option Ty}

/-- The function that a name means stays the same while arguments are evaluated. -/
theorem dispatches_of_hasType (hW : W.IsSound) {ts : List Ty} {k : Key} {c : Callable}
    (hargs : Expr.HaveTypes Γ args ts) (hk : x.key = .ok k)
    (hc : W.table k args.length = some c) (hw : W.Holds (m.world τ)) (hs : W.Shows m.scopes s Γ) :
    m.Dispatches tracer s x args slot t c := by
  intro fuel steps
  have hevaluated := (W.runs hW tracer fuel).evalAll (m := { m with steps := steps }) hargs hw hs
  have heval : (eval tracer (fuel + 1) s (.call x args slot t)).run { m with steps := steps + 1 } =
      (do
        let vs ← evalAll tracer fuel s args
        let c ← lift ((← get).scopes.lookupFunction s x vs.length)
        if 3 ≤ tracer.level then
          say tracer (.plain "call " ++ x.toText ++ .plain "(" ++ (← tracedTexts vs) ++ .plain ")")
        call tracer fuel c vs : Exec Value).run { m with steps := steps } := by
    rw [eval]
    rfl
  rw [heval]
  refine hevaluated.run_bind_congr fun vs m₁ hvs => ?_
  obtain ⟨τ₁, h₁, hvs⟩ := hvs
  rw [hargs.length_eq, hvs.length_eq, ← h₁.holds.findFunction? (hs.later hw h₁).lt] at hc
  have hlookup : m₁.scopes.lookupFunction s x vs.length = .ok c :=
    Forest.lookupFunction_eq_ok_iff.mpr ⟨k, hk, hc⟩
  change (lift (m₁.scopes.lookupFunction s x vs.length) >>= fun c => _).run m₁ = _
  rw [hlookup]
  rfl

/-- The types that were recorded for arguments are the ones that were checked. -/
theorem Expr.HaveTypes.recorded {ts us : List Ty} (hes : Expr.HaveTypes Γ args ts)
    (hts : List.Forall₂ (fun u t => Ty.assignable u t = true) us ts) :
    List.Forall₂ (fun u e => ∃ t, e.type? = some t ∧ u.assignable t = true) us args := by
  induction hts generalizing args with
  | nil =>
    cases hes
    exact .nil
  | cons hu _ ih =>
    cases hes with
    | cons he hes => exact .cons ⟨_, he.type?_eq, hu⟩ (ih hes)

end Calls

/-- Whether only the built-in function is in force, as while globals are evaluated. -/
def Machine.OnlyPrints (m : Machine) : Prop :=
  ∀ k n c, m.scopes.findFunction? root k n = some c → c = .print

/-- **A call runs the last function of its name and arity**, which is the one it was resolved to
unless that is declared again. In every run of an accepted program, of any length, the slot of a
call that the run comes to holds a function that takes the arguments by their recorded types and
returns the recorded type. While globals are evaluated the built-in function is the only one, and
what runs is what the slot holds. Afterwards the last function of the name and arity runs, and that
is what the slot holds exactly if no later declaration hides it. -/
theorem run_dispatches {text : String} {p q : Program} {a : Analyzer} {checker : Tracer}
    (hp : readProgram text = .ok p)
    (hq : (Analysis.program checker p).run Analyzer.fresh = ((q, .ok ()), a)) (tracer : Tracer)
    (steps : Nat) {s : Nat} {x : Name} {args : List Expr} {slot : Option Signature}
    {t : Option Ty} :
    let outcome := execute Machine.fresh steps fun fuel => run tracer fuel q
    let m := outcome.2
    outcome.1 = .error .paused → m.place = some (.expr s (.call x args slot t)) →
      ∃ g ∈ q.signatures, ∃ c ∈ q.callables, slot = some g ∧ t = some g.returns ∧
        List.Forall₂ (fun u e => ∃ v, e.type? = some v ∧ u.assignable v = true) g.params args ∧
        m.Dispatches tracer s x args slot t c ∧
        (m.OnlyPrints ∧ c = .print ∧ c.signature? = some g ∨
          (∃ k, x.key = .ok k ∧ q.last? k args.length = some c) ∧
            (c.signature? = some g ↔ ¬ q.Redeclares g)) := by
  intro outcome m hpaused hplace
  obtain ⟨Γ, hΓ, hstop⟩ := stops_of_accepted hp hq hpaused
  obtain ⟨globals, cs, τ, place, hforce, hw, hmet, hmeets⟩ := hstop.met rfl
  obtain rfl := Option.some.inj (hmet.symm.trans hplace)
  obtain ⟨Γ', u, hcall, hs⟩ := hmeets.2 x args slot t rfl
  cases hcall with
  | @call _ _ ts k g _ hargs hk hg hparams ht =>
    subst ht
    obtain ⟨hknown, c, hc, -⟩ := hs.funs k args.length g hg
    have hdispatches : m.Dispatches tracer s x args (some g) (some g.returns) c :=
      dispatches_of_hasType hforce.sound hargs hk hc hw hs
    have hrecorded := hargs.recorded hparams
    rcases hforce.callables with rfl | rfl
    · obtain rfl : c = .print := List.mem_singleton.mp (List.mem_of_find?_eq_some hc)
      obtain rfl : g = Analyzer.printSignature := List.mem_singleton.mp hknown
      have hprints : m.OnlyPrints := fun k n c hfind => by
        rw [hw.findFunction? hw.globals.lt] at hfind
        exact List.mem_singleton.mp (List.mem_of_find?_eq_some hfind)
      exact ⟨_, List.mem_cons_self, .print, List.mem_reverse.mpr List.mem_cons_self, rfl, rfl,
        hrecorded, hdispatches, Or.inl ⟨hprints, rfl, rfl⟩⟩
    · have hmem : g ∈ q.signatures := by
        rw [Program.signatures, ← List.mem_reverse, ← q.signatures_callables]
        exact hknown
      obtain ⟨hkey, harity⟩ : g.name.key = .ok k ∧ g.arity = args.length := by
        have hmeant := List.find?_some hg
        rwa [Bool.and_eq_true, Name.isKnownAs_iff, decide_eq_true_eq] at hmeant
      have hlast : q.last? k g.arity = some c := harity ▸ hc
      exact ⟨g, hmem, c, List.mem_of_find?_eq_some hc, rfl, rfl, hrecorded, hdispatches,
        Or.inr ⟨⟨k, hk, hc⟩, hΓ.signature?_iff hlast hmem hkey⟩⟩

theorem exists_call {o : Option Place} (h : (o matches some (.expr _ (.call ..))) = true) :
    ∃ s x args slot t, o = some (.expr s (.call x args slot t)) := by
  split at h
  · exact ⟨_, _, _, _, _, rfl⟩
  · cases h

/-- A call of a function with an argument. -/
theorem run_dispatches_argument :
    ∃ p q a, readProgram "FUN f(n) DO print(n); END FUN main() DO f(1); END" = .ok p ∧
      (Analysis.program 0 p).run Analyzer.fresh = ((q, .ok ()), a) ∧
      ∃ s x args slot t, (execute Machine.fresh 3 fun fuel => run 0 fuel q).2.place =
          some (.expr s (.call x args slot t)) ∧
        ∃ c ∈ q.callables,
          (execute Machine.fresh 3 fun fuel => run 0 fuel q).2.Dispatches 0 s x args slot t c := by
  have hdispatches {text : String} {p q : Program} {a : Analyzer} (hp : readProgram text = .ok p)
      (hq : (Analysis.program 0 p).run Analyzer.fresh = ((q, .ok ()), a))
      (hpaused : (execute Machine.fresh 3 fun fuel => run 0 fuel q).1 = .error .paused)
      (hcall : ((execute Machine.fresh 3 fun fuel => run 0 fuel q).2.place matches
        some (.expr _ (.call ..))) = true) :
      ∃ s x args slot t, (execute Machine.fresh 3 fun fuel => run 0 fuel q).2.place =
          some (.expr s (.call x args slot t)) ∧
        ∃ c ∈ q.callables,
          (execute Machine.fresh 3 fun fuel => run 0 fuel q).2.Dispatches 0 s x args slot t c := by
    obtain ⟨s, x, args, slot, t, hplace⟩ := exists_call hcall
    obtain ⟨g, -, c, hc, -, -, -, hdispatches, -⟩ := run_dispatches hp hq 0 3 hpaused hplace
    exact ⟨s, x, args, slot, t, hplace, c, hc, hdispatches⟩
  exact ⟨_, _, _, by cbv, Analysis.program_eq_of_ok (by decide +kernel), @hdispatches
    "FUN f(n) DO print(n); END FUN main() DO f(1); END" _ _ _ (by cbv)
    (Analysis.program_eq_of_ok (by decide +kernel)) (by decide +kernel) (by decide +kernel)⟩

/-- Whether a call that is resolved to a function with an integer as result is followed by the call
of one with a string as result. -/
def callsAnother (resolved called : Option Place) : Bool :=
  match resolved, called with
  | some (.expr 1 (.call (.text (.plain "f")) _ (some ⟨_, _, .integer, _⟩) (some .integer))),
    some (.call c [.int 1]) => (c.signature? matches some ⟨_, _, .string, _⟩)
  | _, _ => false

theorem exists_of_callsAnother {resolved called : Option Place}
    (h : callsAnother resolved called = true) :
    ∃ args g f c,
      resolved = some (.expr 1 (.call (.text "f") args (some g) (some .integer))) ∧
      called = some (.call c [.int 1]) ∧ c.signature? = some f ∧ f ≠ g ∧ f.returns = .string := by
  unfold callsAnother at h
  split at h
  · split at h
    · next hsignature => exact ⟨_, _, _, _, rfl, rfl, hsignature, by simp, rfl⟩
    · cases h
  · cases h

/-- A call that is resolved to a function which returns an integer runs one that returns a string:
the function is declared again after the caller. -/
theorem dispatch_redeclared :
    ∃ p q a, readProgram ("FUN f(n): Integer DO RETURN 1; END " ++
        "FUN main(): Integer DO RETURN f(1); END FUN f(n): String DO RETURN \"two\"; END") = .ok p ∧
      (Analysis.program 0 p).run Analyzer.fresh = ((q, .ok ()), a) ∧
      ∃ args g f c, (execute Machine.fresh 3 fun fuel => run 0 fuel q).2.place =
          some (.expr 1 (.call (.text "f") args (some g) (some .integer))) ∧
        (execute Machine.fresh 6 fun fuel => run 0 fuel q).2.place = some (.call c [.int 1]) ∧
        c.signature? = some f ∧ f ≠ g ∧ f.returns = .string :=
  ⟨_, _, _, by cbv, Analysis.program_eq_of_ok (by decide +kernel),
    exists_of_callsAnother (by decide +kernel)⟩

end Scriptlet
