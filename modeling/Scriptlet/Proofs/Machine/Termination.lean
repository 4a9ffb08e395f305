import Scriptlet.Proofs.Machine.Halting
import Scriptlet.Proofs.Syntax.Written
import Scriptlet.Source

/-! # Programs that end

A direct program ends: its text bounds the number of its steps. The functions that a run finds in
its scopes are those of the program, so the costs that were found in the order of their declarations
bound whatever the main function calls.

* `run_ends`: direct programs that are accepted end, and so do the walks over their values. -/

namespace Scriptlet

namespace Halting

open Machine

variable {c : FuncKey → Nat} {paid : Prop} {tracer : Tracer} {fuel n : Nat} {m : Machine}

/-- The work in the initial value of a global. -/
def globalWork : Global → List Work
  | .decl d => Expr.workOf d.value
  | .fragment _ _ value => Expr.workOf value.join
  | .hole _ => []

theorem leads_defineGlobal {g : Global} (hm : Calm c m.scopes m.heap)
    (hb : Affords paid fuel (cost c (globalWork g)) m) :
    Leads (Exit c paid) (defineGlobal tracer fuel g) m
      (Costs c paid (cost c (globalWork g)) m fun _ _ => True) := by
  have ih := halts c paid tracer fuel
  cases g with
  | decl d =>
    have hbind {m₁ : Machine} {v : Value} (hm₁ : Calm c m₁.scopes m₁.heap)
        (hv : v.IsOlder m₁.heap.cells.size) :
        Leads (Exit c paid)
          (do
            define root d.name ⟨d.mutable, v, d.declared.map (·.origin)⟩
            if 2 ≤ tracer.level then
              say tracer (.plain "global " ++ d.name.toText ++ .plain " = " ++ (← tracedText v))) m₁
          (Costs c paid 0 m₁ fun _ _ => True) := by
      have hb₁ : Affords paid 0 0 m₁ := fun _ => ⟨Nat.le_refl 0, Nat.zero_le _⟩
      refine leads_after hb₁ (costs_define hm₁ hv) fun _ m₂ hm₂ _ _ _ => ?_
      split_ifs
      · rw [leads_bind]
        exact leads_tracedText hm₂ fun line => costs_say hm₂ _
      · exact leads_pure hm₂ trivial
    rw [defineGlobal]
    dsimp only
    rw [globalWork] at hb ⊢
    generalize d.value = value at hb ⊢
    cases value with
    | none => exact hbind hm trivial
    | some e => exact leads_then (k := 0) hb (ih.eval hm) fun v m₁ hm₁ _ hv _ => hbind hm₁ hv
  | fragment x t value =>
    rcases value with _ | _ | e
    · exact leads_fail hm
    · exact leads_fail hm
    · exact leads_then (k := 0) hb (ih.eval hm) fun v m₁ hm₁ _ _ _ => leads_fail hm₁
  | hole e => exact leads_fail hm

theorem leads_globals : ∀ {gs : List Global} {m : Machine}, Calm c m.scopes m.heap →
    Affords paid fuel (cost c (gs.flatMap globalWork)) m →
      Leads (Exit c paid) (gs.forM (defineGlobal tracer fuel)) m
        (Costs c paid (cost c (gs.flatMap globalWork)) m fun _ _ => True)
  | [], m, hm, _ => leads_pure hm trivial
  | g :: gs, m, hm, hb => by
    rw [List.flatMap_cons, cost_append] at hb ⊢
    exact leads_then hb (leads_defineGlobal hm) fun _ m₁ hm₁ _ _ hb₁ => leads_globals hm₁ hb₁

theorem eq_of_arity {ps : List Param} (h : arity ps = .ok n) : n = ps.length := by
  unfold arity at h
  split at h
  · cases h
  · cases h
    rfl

/-- Whether costs cover the functions of a program. -/
def Covers (c : FuncKey → Nat) (fs : List Func) : Prop :=
  ∀ d, Func.decl d ∈ fs →
    (Callable.user ⟨d.name, d.params, d.body, d.signature⟩).IsWithin c (c d.key)

theorem costs_defineFunction {d : FuncDecl} {g : Callable} (hm : Calm c m.scopes m.heap)
    (hg : g.IsWithin c (c d.key)) :
    Leads (Exit c paid) (defineFunction root d.name d.params.length g) m
      (Costs c paid 0 m fun _ _ => True) := by
  unfold defineFunction
  rw [leads_bind]
  refine leads_lift hm fun l hl => ?_
  rw [FuncDecl.key, (Name.of_label hl).2] at hg
  exact ⟨⟨hm.defineFunction root l hg, Nat.le_refl _, fun _ => Nat.le_refl _⟩, trivial⟩

theorem leads_functions : ∀ {fs : List Func} {m : Machine}, Covers c fs →
    Calm c m.scopes m.heap →
      Leads (Exit c paid) (fs.forM (defineFunc tracer)) m (Costs c paid 0 m fun _ _ => True)
  | [], m, _, hm => leads_pure hm trivial
  | .hole e :: fs, m, _, hm => leads_fail hm
  | .decl d :: fs, m, hfs, hm => by
    have hb : Affords paid 0 0 m := fun _ => ⟨Nat.le_refl 0, Nat.zero_le _⟩
    have hd := hfs d List.mem_cons_self
    refine leads_after hb (P := fun _ _ => True) ?_ fun _ m₁ hm₁ _ _ _ =>
      leads_functions (fun d' hd' => hfs d' (List.mem_cons_of_mem _ hd')) hm₁
    rw [defineFunc, leads_bind]
    refine leads_lift hm fun n hn => ?_
    rw [eq_of_arity hn]
    refine leads_after hb (costs_defineFunction hm hd) fun _ m₁ hm₁ _ _ _ => ?_
    split_ifs
    · exact costs_say hm₁ _
    · exact leads_pure hm₁ trivial

/-- The steps that are enough for a program. -/
def bound (c : FuncKey → Nat) (p : Program) : Nat :=
  cost c (p.globals.flatMap globalWork) + c (some (.text "main"), 0)

theorem leads_run {p : Program} (hp : Covers c p.functions) (hm : Calm c m.scopes m.heap)
    (hb : Affords paid fuel (bound c p) m) :
    Leads (Exit c paid) (run tracer fuel p) m (Costs c paid (bound c p) m fun _ _ => True) := by
  unfold run
  have hload (hb : Affords paid fuel (cost c (p.globals.flatMap globalWork)) m) :
      Leads (Exit c paid) (load tracer fuel p) m
        (Costs c paid (cost c (p.globals.flatMap globalWork)) m fun _ _ => True) := by
    refine leads_then (k := 0) hb (leads_globals hm) fun _ m₁ hm₁ _ _ _ => ?_
    exact leads_functions hp hm₁
  refine leads_then hb hload fun _ m₁ hm₁ _ _ hb₁ => ?_
  rw [leads_bind, leads_get, leads_bind]
  refine leads_lift hm₁ fun g hg => ?_
  refine leads_then (k := 0) hb₁ ((halts c paid tracer fuel).call (hm₁.isWithin hg) (by simp) hm₁)
    fun v m₂ hm₂ _ _ hb₂ => ?_
  rw [leads_bind]
  refine leads_text hm₂ fun line => ?_
  split_ifs
  · exact leads_after hb₂ (costs_say hm₂ _) fun _ m₃ hm₃ _ _ _ => leads_pure hm₃ trivial
  · exact leads_pure hm₂ trivial

end Halting

open Machine

/-- **Direct programs end.** Every accepted program without loops, functions that call themselves,
assignments to items of lists and functions of one name and arity ends in a value or a failure if it
may take steps enough, and whatever it prints, traces or compares on the way, all walks over its
values end. -/
theorem run_ends {text : String} {p q : Program} {a : Analyzer} {checker : Tracer}
    (hp : readProgram text = .ok p)
    (hq : (Analysis.program checker p).run Analyzer.fresh = ((q, .ok ()), a))
    (hdirect : p.IsDirect) :
    (∃ n, ∀ tracer steps, n ≤ steps →
      let outcome := (execute Machine.fresh steps fun fuel => run tracer fuel q).1
      (∃ v, outcome = .ok v) ∨ ∃ f, outcome = .error (.failed f)) ∧
    ∀ tracer steps v,
      (execute Machine.fresh steps fun fuel => run tracer fuel q).2.heap.IsTraversable v := by
  obtain ⟨Γ, hΓ, herase, -⟩ := Analysis.program_sound (isWritten_of_readProgram hp) hq
  rw [← herase] at hdirect
  have hdirect := Program.isDirect_of_erase hdirect
  obtain ⟨c, hprint, hcosts⟩ := hΓ.exists_costs hdirect
  have hcovers : Halting.Covers c q.functions := by
    intro d hd
    have hd := Program.mem_funcDecls.mpr hd
    exact ⟨hcosts d hd, hdirect.straight d hd⟩
  -- a run is paid for if it may take as many steps as the program costs
  have hrun (tracer : Tracer) (steps : Nat) :
      Leads (Halting.Exit c (Halting.bound c q ≤ steps)) (run tracer steps q)
        { Machine.fresh with steps := steps }
        (Halting.Costs c (Halting.bound c q ≤ steps) (Halting.bound c q)
          { Machine.fresh with steps := steps } fun _ _ => True) :=
    Halting.leads_run hcovers (.fresh hprint) fun hpaid => ⟨hpaid, hpaid⟩
  refine ⟨⟨Halting.bound c q, fun tracer steps hsteps => ?_⟩, fun tracer steps v => ?_⟩
  · have hrun := hrun tracer steps
    unfold Leads at hrun
    unfold execute
    split at hrun
    · next v m' heq => exact Or.inl ⟨v, congrArg Prod.fst heq⟩
    · next stop m' heq =>
      cases stop with
      | failed f => exact Or.inr ⟨f, congrArg Prod.fst heq⟩
      | paused => exact absurd rfl (hrun.2 hsteps)
  · have hrun := hrun tracer steps
    unfold Leads at hrun
    unfold execute
    split at hrun
    · next r m' heq =>
      rw [heq]
      exact hrun.1.calm.layered.isTraversable v
    · next stop m' heq =>
      rw [heq]
      exact hrun.1.layered.isTraversable v

/-- A program with two functions and a list. -/
theorem run_ends_calls :
    ∃ p q a, readProgram
        ("LIST xs: Integer = [1, 2]; FUN inc(n: Integer): Integer DO RETURN n + 1; END " ++
          "FUN main(): Integer DO print(xs); RETURN inc(inc(xs[1])); END") =
        .ok p ∧
      (Analysis.program 0 p).run Analyzer.fresh = ((q, .ok ()), a) ∧ p.IsDirect ∧
      ∃ n, ∀ tracer steps, n ≤ steps →
        let outcome := (execute Machine.fresh steps fun fuel => run tracer fuel q).1
        (∃ v, outcome = .ok v) ∨ ∃ f, outcome = .error (.failed f) :=
  ⟨_, _, _, by cbv, Analysis.program_eq_of_ok (by decide +kernel), by decide +kernel, (@run_ends
    ("LIST xs: Integer = [1, 2]; FUN inc(n: Integer): Integer DO RETURN n + 1; END " ++
      "FUN main(): Integer DO print(xs); RETURN inc(inc(xs[1])); END") _ _ _ 0
    (by cbv) (Analysis.program_eq_of_ok (by decide +kernel)) (by decide +kernel)).1⟩

end Scriptlet
