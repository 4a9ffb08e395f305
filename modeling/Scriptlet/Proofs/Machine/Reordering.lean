import Scriptlet.Proofs.Machine.Congruence
import Scriptlet.Proofs.Scope.Views
import Scriptlet.Proofs.Syntax.Trees
import Scriptlet.Proofs.Typing.Orders

/-! # Runs do not depend on the order of functions

A run reads the functions of a scope one by one, by name and arity, and never their order. So two
states whose scopes are alike run alike, and two programs whose functions are declared in different
orders lead to such states as long as no declaration hides another.

* `Machine.Conforms x y`: what `y` does is what `x` does, up to the order of functions.
* `Machine.conforms_run`: two programs conform if one has the functions of the other in another
  order.
* `order_irrelevant`: neither runs nor analyses depend on the order of functions. -/

namespace Scriptlet

namespace Machine

/-! ### Machines that are alike -/

variable {α β : Type} {tracer low high : Tracer}

/-- Whether two states differ in the order of their functions alone. -/
def Alike (m m' : Machine) : Prop :=
  ∃ f, m.scopes.Alike f ∧ m' = { m with scopes := f }

theorem Alike.refl (m : Machine) : m.Alike m :=
  ⟨m.scopes, .refl m.scopes, rfl⟩

theorem Alike.trans {m₁ m₂ m₃ : Machine} (h : m₁.Alike m₂) (h' : m₂.Alike m₃) : m₁.Alike m₃ := by
  obtain ⟨f, hf, rfl⟩ := h
  obtain ⟨g, hg, rfl⟩ := h'
  exact ⟨g, hf.trans hg, rfl⟩

theorem Alike.looks {m m' : Machine} (h : m.Alike m') : m.Looks m' := by
  obtain ⟨f, hf, rfl⟩ := h
  refine ⟨rfl, hf.lookupVariable, hf.lookupFunction, fun s x => ?_⟩
  simp only [writable, hf.findVariable?, hf.holder?]

/-- Whether two computations do the same up to the order of functions. -/
def Conforms (x y : Exec α) : Prop :=
  ∀ m m', m.Alike m' → (y.run m').1 = (x.run m).1 ∧ (x.run m).2.Alike (y.run m').2

theorem Conforms.trans {x y z : Exec α} (hxy : Conforms x y) (hyz : Conforms y z) :
    Conforms x z := by
  intro m m' h
  obtain ⟨hres, hstate⟩ := hxy m m (.refl m)
  obtain ⟨hres', hstate'⟩ := hyz m m' h
  exact ⟨hres'.trans hres, hstate.trans hstate'⟩

theorem Conforms.bind {x y : Exec α} {f g : α → Exec β} (hx : Conforms x y)
    (hf : ∀ a, Conforms (f a) (g a)) : Conforms (x >>= f) (y >>= g) := by
  intro m m' h
  obtain ⟨hres, hstate⟩ := hx m m' h
  rw [run_bind, run_bind]
  generalize x.run m = outcome at hres hstate
  generalize y.run m' = outcome' at hres hstate
  obtain ⟨r, m₁⟩ := outcome
  obtain ⟨r', m₁'⟩ := outcome'
  obtain rfl : r' = r := hres
  cases r' with
  | error e => exact ⟨rfl, hstate⟩
  | ok a => exact hf a m₁ m₁' hstate

theorem conforms_modify {u : Machine → Machine} (h : ∀ m m', m.Alike m' → (u m).Alike (u m')) :
    Conforms (modify u) (modify u) :=
  fun m m' hm => ⟨rfl, h m m' hm⟩

theorem conforms_lift (r : Except Failure α) : Conforms (lift r) (lift r) := by
  cases r with
  | ok a => exact fun m m' h => ⟨rfl, h⟩
  | error f => exact fun m m' h => ⟨rfl, h⟩

theorem conforms_get {f g : Machine → Exec α}
    (h : ∀ m m', m.Alike m' → Conforms (f m) (g m')) : Conforms (get >>= f) (get >>= g) :=
  fun m m' hm => h m m' hm m m' hm

theorem conforms_print (line : Text) : Conforms (print line) (print line) := by
  unfold print
  cases line.written with
  | ok s =>
    refine conforms_modify ?_
    rintro m _ ⟨f, hf, rfl⟩
    exact ⟨f, hf, rfl⟩
  | error flaw => exact fun m m' h => ⟨rfl, h⟩

theorem conforms_pause (p : Place) : Conforms (pause p : Exec α) (pause p) := by
  rintro m _ ⟨f, hf, rfl⟩
  exact ⟨rfl, f, hf, rfl⟩

theorem conforms_tick (p : Place) : Conforms (tick p) (tick p) := by
  unfold tick
  refine conforms_get ?_
  rintro m _ ⟨f, hf, rfl⟩
  dsimp only
  split
  · exact conforms_pause p
  · refine conforms_modify ?_
    rintro m _ ⟨f, hf, rfl⟩
    exact ⟨f, hf, rfl⟩

theorem conforms_define (s : Nat) (x : Name) (b : Binding) :
    Conforms (define s x b) (define s x b) := by
  refine (conforms_lift x.label).bind fun n => conforms_modify ?_
  rintro m _ ⟨f, hf, rfl⟩
  exact ⟨_, hf.defineVariable s n b, rfl⟩

theorem conforms_defineFunction (s : Nat) (x : Name) (n : Nat) (c : Callable) :
    Conforms (defineFunction s x n c) (defineFunction s x n c) := by
  refine (conforms_lift x.label).bind fun l => conforms_modify ?_
  rintro m _ ⟨f, hf, rfl⟩
  exact ⟨_, hf.defineFunction s l n c, rfl⟩

/-- **The steps of the machine do not see the order of functions** while nothing is traced. -/
theorem isCongruence_conforms (hlow : low.level ≤ 0) (hhigh : high.level ≤ 0) :
    IsCongruence low high Conforms where
  pure a := fun m m' h => ⟨rfl, h⟩
  fail f := fun m m' h => ⟨rfl, h⟩
  pause := conforms_pause
  bind := Conforms.bind
  get h := conforms_get fun m m' hm => h m m' hm.looks
  tick := conforms_tick
  print := conforms_print
  child s := by
    rintro m _ ⟨f, hf, rfl⟩
    exact ⟨congrArg Except.ok hf.size, _, hf.addChild s, rfl⟩
  newList vs := by
    rintro m _ ⟨f, hf, rfl⟩
    exact ⟨rfl, f, hf, rfl⟩
  define := conforms_define
  defineFunction := conforms_defineFunction
  setItem a k v := conforms_modify (by rintro m _ ⟨f, hf, rfl⟩; exact ⟨f, hf, rfl⟩)
  line least _ f _ _ hleast _ hxy := by
    rw [if_neg (by omega), if_neg (by omega)]
    exact hxy

/-! ### Functions in another order -/

/-- A function of a tree is bound without a failure. -/
theorem exists_defineFunc {d : FuncDecl} (hd : (Func.decl d).IsTree) :
    ∃ n : Label, d.key = (some n.key, d.params.length) ∧ ∀ tracer : Tracer, tracer.level ≤ 0 →
      defineFunc tracer (.decl d) = modify fun m => { m with
        scopes := m.scopes.defineFunction root n d.params.length
          (some (.user ⟨d.name, d.params, d.body, d.signature⟩)) } := by
  obtain ⟨hname, hparams, -⟩ := hd
  obtain ⟨s, hs⟩ : ∃ s, d.name = .text s := by
    cases hx : d.name with
    | text s => exact ⟨s, rfl⟩
    | _ => rw [hx] at hname; exact hname.elim
  have harity : arity d.params = .ok d.params.length := by
    unfold arity
    split
    · next k hk =>
      have hhole : Param.IsTree (.hole (.sequence k)) := hparams _ (hk ▸ List.mem_singleton_self _)
      exact hhole.elim
    · rfl
  refine ⟨.text s, by rw [FuncDecl.key, hs]; rfl, fun tracer hlevel => ?_⟩
  have hquiet : ¬ 2 ≤ tracer.level := by omega
  simp only [defineFunc, harity, hs, hquiet, if_false]
  rfl

/-- Two functions that are known differently can be bound in either order. -/
theorem conforms_defineFunc_comm {d e : FuncDecl} (hd : (Func.decl d).IsTree)
    (he : (Func.decl e).IsTree) (hne : d.key ≠ e.key) (hlevel : tracer.level ≤ 0) :
    Conforms (do defineFunc tracer (.decl d); defineFunc tracer (.decl e))
      (do defineFunc tracer (.decl e); defineFunc tracer (.decl d)) := by
  obtain ⟨n, hn, hd⟩ := exists_defineFunc hd
  obtain ⟨n', hn', he⟩ := exists_defineFunc he
  rw [hd tracer hlevel, he tracer hlevel]
  have hne : (n.key, d.params.length) ≠ (n'.key, e.params.length) := by
    rintro heq
    obtain ⟨hkey, hlen⟩ := Prod.mk.inj heq
    exact hne (by rw [hn, hn', hkey, hlen])
  rintro m _ ⟨f, hf, rfl⟩
  refine ⟨rfl, _, ?_, rfl⟩
  exact (Forest.alike_defineFunction_comm hne m.scopes root _ _).trans
    ((hf.defineFunction root n' _ _).defineFunction root n _ _)

/-- Functions that are known differently can be bound in any order. -/
theorem conforms_defineFuncs (hlevel : tracer.level ≤ 0) {ds ds' : List FuncDecl} (h : ds.Perm ds')
    (htree : ∀ d ∈ ds, (Func.decl d).IsTree) (hkeys : (ds.map FuncDecl.key).Nodup) :
    Conforms ((ds.map Func.decl).forM (defineFunc tracer))
      ((ds'.map Func.decl).forM (defineFunc tracer)) := by
  have hR := isCongruence_conforms hlevel hlevel
  induction h with
  | nil => exact hR.pure _
  | @cons d ds ds' _ ih =>
    obtain ⟨-, htree⟩ := List.forall_mem_cons.mp htree
    exact (hR.defineFunc (.decl d)).bind fun _ => ih htree (List.nodup_cons.mp hkeys).2
  | swap d e ds =>
    obtain ⟨he, htree⟩ := List.forall_mem_cons.mp htree
    obtain ⟨hd, -⟩ := List.forall_mem_cons.mp htree
    have hne : e.key ≠ d.key := fun heq =>
      (List.nodup_cons.mp hkeys).1 (List.mem_cons.mpr (Or.inl heq))
    have hrest := hR.forM hR.defineFunc (ds.map Func.decl)
    have hboth := (conforms_defineFunc_comm he hd hne hlevel).bind fun _ => hrest
    rw [bind_assoc, bind_assoc] at hboth
    exact hboth
  | trans h₁ _ ih₁ ih₂ =>
    refine (ih₁ htree hkeys).trans (ih₂ (fun d hd => htree d (h₁.mem_iff.mpr hd)) ?_)
    exact (h₁.map FuncDecl.key).nodup_iff.mp hkeys

end Machine

/-! ### Programs -/

theorem Program.functions_eq {p : Program} (h : p.IsTree) :
    p.functions = p.funcDecls.map Func.decl := by
  rw [Program.funcDecls, List.map_filterMap]
  symm
  refine (List.filterMap_congr fun f hf => ?_).trans (List.filterMap_some)
  cases f with
  | decl d => rfl
  | hole x => exact (h.2 _ hf).elim

namespace Machine

/-- **Programs with the same functions in different orders conform.** -/
theorem conforms_run {p p' : Program} (h : p.Reorders p') (hp : p.IsTree) (hp' : p'.IsTree)
    {tracer : Tracer} (hlevel : tracer.level ≤ 0) (fuel : Nat) :
    Conforms (run tracer fuel p) (run tracer fuel p') := by
  have hR := isCongruence_conforms hlevel hlevel
  refine hR.run_of_load ?_
  rw [load, load, h.globals, Program.functions_eq hp, Program.functions_eq hp']
  refine Conforms.bind (hR.forM (hR.defineGlobal fuel) p.globals) fun _ => ?_
  refine conforms_defineFuncs hlevel h.funcDecls.symm (fun d hd => ?_)
    (List.nodup_cons.mp h.distinct).2
  exact hp.2 _ (Program.mem_funcDecls.mp hd)

end Machine

open Machine

/-- **The order of functions does not matter.** Take two programs of texts with the same globals and
with the same functions in different orders, no two of which have one name and arity, and none of
which has those of the built-in function. Runs of any length without a trace then give the same
result or failure and the same output, lists and globals. If the analysis accepts both programs,
their trees are the same up to the order of the functions and a permutation of the numbers of the
declarations: all types are the same, and so are all variables and signatures but for the numbers;
and the scope of the globals binds the same variables and functions. -/
theorem order_irrelevant {text text' : String} {p p' : Program} (hp : readProgram text = .ok p)
    (hp' : readProgram text' = .ok p') (h : p.Reorders p') :
    (∀ tracer : Tracer, tracer.level ≤ 0 → ∀ steps,
      let outcome := execute Machine.fresh steps fun fuel => run tracer fuel p
      let outcome' := execute Machine.fresh steps fun fuel => run tracer fuel p'
      outcome'.1 = outcome.1 ∧ outcome'.2 = { outcome.2 with scopes := outcome'.2.scopes } ∧
        outcome'.2.globals = outcome.2.globals) ∧
    ∀ tracer tracer' : Tracer,
      let outcome := (Analysis.program tracer p).run Analyzer.fresh
      let outcome' := (Analysis.program tracer' p').run Analyzer.fresh
      outcome.1.2 = .ok () → outcome'.1.2 = .ok () →
        ∃ ρ : Equiv.Perm Nat, outcome.1.1.Renumbers ρ outcome'.1.1 ∧
          (∀ k, outcome'.2.scopes.ownVariable? k outcome'.2.root =
            (outcome.2.scopes.ownVariable? k outcome.2.root).map
              (Option.map (Variable.renumber ρ))) ∧
          ∀ k n, outcome'.2.scopes.ownFunction? k n outcome'.2.root =
            (outcome.2.scopes.ownFunction? k n outcome.2.root).map
              (Option.map (Signature.renumber ρ)) := by
  constructor
  · intro tracer hlevel steps outcome outcome'
    have hconforms := conforms_run h (isTree_of_readProgram hp) (isTree_of_readProgram hp') hlevel
    obtain ⟨hresult, f, hf, hstate⟩ := hconforms steps _ _ (.refl { Machine.fresh with steps })
    have hstate : outcome'.2 = { outcome.2 with scopes := f } := hstate
    refine ⟨hresult, ?_, ?_⟩
    · rw [hstate]
    · rw [hstate]
      exact hf.variablesOf root
  · intro tracer tracer' outcome outcome' hok hok'
    have hrun : Analysis.program tracer p Analyzer.fresh = ((outcome.1.1, .ok ()), outcome.2) := by
      rw [← hok]
      rfl
    have hrun' : Analysis.program tracer' p' Analyzer.fresh =
        ((outcome'.1.1, .ok ()), outcome'.2) := by
      rw [← hok']
      rfl
    obtain ⟨Γ, hΓ, herase, hholds⟩ := Analysis.program_sound (isWritten_of_readProgram hp) hrun
    obtain ⟨Δ, hΔ, herase', hholds'⟩ := Analysis.program_sound (isWritten_of_readProgram hp') hrun'
    rw [← herase, ← herase'] at h
    obtain ⟨ρ, hρ⟩ := hΓ.exists_renumbers hΔ h
    obtain ⟨hvars, hfuns⟩ := hΓ.context
    obtain ⟨hvars', hfuns'⟩ := hΔ.context
    refine ⟨ρ, hρ, fun k => ?_, fun k n => ?_⟩
    · rw [hholds.vars, hholds'.vars, Context.findVariable?, Context.findVariable?, hvars, hvars',
        hρ.find?_globals, Option.map_map, Option.map_map]
      rfl
    · have hkeys : ((Analyzer.printSignature :: outcome.1.1.declaredFunctions).map
          Signature.key).Nodup := by
        obtain ⟨-, hfs⟩ := hΓ
        rw [List.map_cons, Program.declaredFunctions, hfs.keys_eq]
        exact h.nodup_keys
      rw [hholds.funs, hholds'.funs, Context.findFunction?, Context.findFunction?, hfuns, hfuns',
        hρ.find?_signatures hkeys, Option.map_map, Option.map_map]
      rfl

/-- Two functions in either order before the main function, which calls both of them. -/
theorem order_irrelevant_swapped :
    ∃ p p', readProgram
        "FUN f() DO LET b = NIL; END FUN g() DO END FUN main() DO f(); g(); END" = .ok p ∧
      readProgram
        "FUN g() DO END FUN f() DO LET b = NIL; END FUN main() DO f(); g(); END" = .ok p' ∧
      p.Reorders p' ∧
      (execute Machine.fresh 60 fun fuel => run 0 fuel p').1 =
        (execute Machine.fresh 60 fun fuel => run 0 fuel p).1 ∧
      ∃ ρ : Equiv.Perm Nat, ((Analysis.program 0 p).run Analyzer.fresh).1.1.Renumbers ρ
        ((Analysis.program 0 p').run Analyzer.fresh).1.1 := by
  have hsame {text text' : String} {p p' : Program} (hp : readProgram text = .ok p)
      (hp' : readProgram text' = .ok p') (h : p.Reorders p')
      (hok : ((Analysis.program 0 p).run Analyzer.fresh).1.2 = .ok ())
      (hok' : ((Analysis.program 0 p').run Analyzer.fresh).1.2 = .ok ()) :
      readProgram text = .ok p ∧ readProgram text' = .ok p' ∧ p.Reorders p' ∧
        (execute Machine.fresh 60 fun fuel => run 0 fuel p').1 =
          (execute Machine.fresh 60 fun fuel => run 0 fuel p).1 ∧
        ∃ ρ : Equiv.Perm Nat, ((Analysis.program 0 p).run Analyzer.fresh).1.1.Renumbers ρ
          ((Analysis.program 0 p').run Analyzer.fresh).1.1 := by
    obtain ⟨hruns, hanalyses⟩ := order_irrelevant hp hp' h
    obtain ⟨ρ, hρ, -⟩ := hanalyses 0 0 hok hok'
    exact ⟨hp, hp', h, (hruns 0 le_rfl 60).1, ρ, hρ⟩
  exact ⟨_, _, hsame (by cbv) (by cbv) (by exact ⟨rfl, .swap _ _ _, by decide⟩)
    (by decide +kernel) (by decide +kernel)⟩

end Scriptlet
