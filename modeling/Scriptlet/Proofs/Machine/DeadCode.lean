import Scriptlet.Proofs.Machine.Rewriting
import Scriptlet.Proofs.Scope.Images
import Scriptlet.Proofs.Typing.Guards
import Scriptlet.Source

/-! # Code after a return

A return ends its block, and every block and loop around it passes its value on at once, up to the
call of the function. So nothing that follows a return in its block is ever executed, and a run of a
program does what a run of the program without such statements does.

* `Program.trim`: a program without the statements that follow a return in their block.
* `Machine.Follows r x y`: what `y` does on functions with rewritten bodies is what `x` does.
* `Machine.follows_run`: runs follow each other under every rewriting of blocks.
* `dead_code`: programs that are the same without such statements run alike. -/

namespace Scriptlet

/-! ### Programs without dead code -/

mutual

/-- A statement without what follows a return in one of its blocks. -/
def Stmt.trim : Stmt → Stmt
  | .expr e => .expr e
  | .declare n typeName value slot => .declare n typeName value slot
  | .assign receiver e => .assign receiver e
  | .branch c t e => .branch c (Stmt.trimBlock t) (Stmt.trimBlock e)
  | .switch c cs => .switch c (Case.trimAll cs)
  | .loop c b => .loop c (Stmt.trimBlock b)
  | .ret e => .ret e
  | .hole h => .hole h
termination_by structural x => x

/-- A block up to its first return, without what follows a return in the blocks inside. -/
def Stmt.trimBlock : List Stmt → List Stmt
  | [] => []
  | x :: xs => x.trim :: if x.isReturn then [] else Stmt.trimBlock xs
termination_by structural xs => xs

/-- A case without what follows a return in its block. -/
def Case.trim : Case → Case
  | .equals e b => .equals e (Stmt.trimBlock b)
  | .otherwise b => .otherwise (Stmt.trimBlock b)
  | .blockless e => .blockless e
  | .hole h => .hole h
termination_by structural c => c

/-- Cases without what follows a return in their blocks. -/
def Case.trimAll : List Case → List Case
  | [] => []
  | c :: cs => c.trim :: Case.trimAll cs
termination_by structural cs => cs

end

/-- A program without the statements that follow a return in their block. -/
def Program.trim (p : Program) : Program :=
  p.mapBlocks Stmt.trimBlock

theorem Case.trimAll_eq (cs : List Case) :
    Case.trimAll cs = cs.map (Case.mapBlocks Stmt.trimBlock) := by
  induction cs with
  | nil => rw [Case.trimAll, List.map_nil]
  | cons c cs ih =>
    rw [Case.trimAll, List.map_cons, ih]
    cases c <;> rw [Case.trim, Case.mapBlocks]

theorem Stmt.trim_eq (x : Stmt) : x.trim = x.mapBlocks Stmt.trimBlock := by
  cases x with
  | switch c cs => rw [Stmt.trim, Stmt.mapBlocks, Case.trimAll_eq]
  | _ => rw [Stmt.trim, Stmt.mapBlocks]

theorem isRewriting_trimBlock : IsRewriting Stmt.trimBlock := by
  refine ⟨by rw [Stmt.trimBlock], fun x xs => ?_⟩
  rw [Stmt.trimBlock, Stmt.trim_eq]
  cases x with
  | ret e => exact Or.inr ⟨e, [], rfl, rfl⟩
  | _ => exact Or.inl rfl

/-- What follows a return makes no difference to what is left of a block. -/
theorem Stmt.trimBlock_append_ret (xs : List Stmt) (e : Expr) (ys : List Stmt) :
    Stmt.trimBlock (xs ++ .ret e :: ys) = Stmt.trimBlock (xs ++ [.ret e]) := by
  induction xs with
  | nil => rfl
  | cons x xs ih =>
    rw [List.cons_append, List.cons_append, Stmt.trimBlock, Stmt.trimBlock, ih]

namespace Machine

/-! ### Runs with other functions -/

variable {α β : Type} {r : List Stmt → List Stmt} {tracer : Tracer}

/-- A state with the blocks of its functions and of its place rewritten. -/
def mapBlocks (r : List Stmt → List Stmt) (m : Machine) : Machine :=
  { m with
    scopes := m.scopes.mapFunctions (Callable.mapBlocks r)
    place := m.place.map (Place.mapBlocks r) }

theorem globals_mapBlocks (m : Machine) : (m.mapBlocks r).globals = m.globals :=
  m.scopes.variablesOf_mapFunctions _ root

theorem mirrors_mapBlocks (m : Machine) : m.Mirrors r (m.mapBlocks r) := by
  refine ⟨rfl, ?_, ?_, fun s x => ?_⟩
  · exact m.scopes.lookupVariable_mapFunctions _
  · exact m.scopes.lookupFunction_mapFunctions _
  · simp only [writable, mapBlocks, Forest.findVariable?_mapFunctions, Forest.holder?_mapFunctions]

/-- Whether a computation does on rewritten functions what another one does. -/
def Follows (r : List Stmt → List Stmt) (x y : Exec α) : Prop :=
  ∀ m, y.run (m.mapBlocks r) = ((x.run m).1, (x.run m).2.mapBlocks r)

theorem Follows.bind {x y : Exec α} {f g : α → Exec β} (hx : Follows r x y)
    (hf : ∀ a, Follows r (f a) (g a)) : Follows r (x >>= f) (y >>= g) := by
  intro m
  rw [run_bind, run_bind, hx]
  obtain ⟨a, m₁⟩ := x.run m
  cases a with
  | error e => rfl
  | ok a => exact hf a m₁

theorem follows_get {f g : Machine → Exec α} (h : ∀ m, Follows r (f m) (g (m.mapBlocks r))) :
    Follows r (get >>= f) (get >>= g) :=
  fun m => h m m

theorem follows_modifyGet {f f' : Machine → α × Machine}
    (h : ∀ m, f' (m.mapBlocks r) = ((f m).1, (f m).2.mapBlocks r)) :
    Follows r (modifyGet f) (modifyGet f') := by
  intro m
  change (Except.ok (f' (m.mapBlocks r)).1, (f' (m.mapBlocks r)).2) = _
  rw [h]
  rfl

theorem follows_lift (a : Except Failure α) : Follows r (lift a) (lift a) := by
  cases a with
  | ok a => exact fun _ => rfl
  | error f => exact fun _ => rfl

theorem follows_tick (p : Place) : Follows r (tick p) (tick (p.mapBlocks r)) := by
  unfold tick
  refine follows_get fun m => ?_
  rw [show (m.mapBlocks r).steps = m.steps from rfl]
  cases m.steps with
  | zero => exact fun _ => rfl
  | succ n => exact follows_modifyGet fun _ => rfl

theorem follows_traced (vs : List Value) (a : Except Failure α) :
    Follows r (traced vs a) (traced vs a) := by
  cases a with
  | ok a => exact fun _ => rfl
  | error f => exact fun _ => rfl

/-- Lines of the trace show values, and no functions. -/
theorem IsLine.follows {line : Exec Text} (h : IsLine line) : Follows r line line := by
  cases h with
  | plain s => exact fun _ => rfl
  | boolean b => exact follows_get fun m => follows_lift _
  | value v => exact follows_get fun m => follows_traced _ _
  | values vs =>
    exact follows_get fun m => (follows_traced _ _).bind fun items => follows_traced _ _

theorem follows_say (tracer : Tracer) (line : Text) :
    Follows r (say tracer line) (say tracer line) := by
  unfold say
  cases tracer.write line with
  | ok s => exact follows_modifyGet fun _ => rfl
  | error f => exact fun _ => rfl

theorem follows_print (line : Text) : Follows r (print line) (print line) := by
  unfold print
  cases line.written with
  | ok s => exact follows_modifyGet fun _ => rfl
  | error flaw => exact fun _ => rfl

theorem follows_define (s : Nat) (x : Name) (b : Binding) :
    Follows r (define s x b) (define s x b) := by
  refine (follows_lift x.label).bind fun n => follows_modifyGet fun m => ?_
  simp only [mapBlocks, Forest.defineVariable_mapFunctions]

theorem follows_defineFunction (s : Nat) (x : Name) (n : Nat) (c : Callable) :
    Follows r (defineFunction s x n c) (defineFunction s x n (c.mapBlocks r)) := by
  refine (follows_lift x.label).bind fun l => follows_modifyGet fun m => ?_
  simp only [mapBlocks, ← Forest.defineFunction_mapFunctions, Option.map_some]

/-- **The steps of the machine do not see the blocks of functions.** -/
theorem isSimulation_follows : IsSimulation r tracer tracer (Follows r) where
  pure a := fun _ => rfl
  fail f := fun _ => rfl
  pause p := fun _ => rfl
  bind := Follows.bind
  get h := follows_get fun m => h m _ (mirrors_mapBlocks m)
  tick := follows_tick
  print := follows_print
  child s := follows_modifyGet fun m => by
    simp only [mapBlocks, Forest.size_mapFunctions, Forest.addChild_mapFunctions]
  newList vs := follows_modifyGet fun _ => rfl
  define := follows_define
  defineFunction := follows_defineFunction
  setItem a k v := follows_modifyGet fun _ => rfl
  line least _ f _ _ _ hline hxy := by
    split_ifs
    · exact hline.follows.bind fun s => (follows_say tracer _).bind fun _ => hxy
    · exact hxy

/-- **A rewriting of blocks does not change what a program does.** -/
theorem follows_run (hr : IsRewriting r) (tracer : Tracer) (fuel : Nat) (p : Program) :
    Follows r (run tracer fuel p) (run tracer fuel (p.mapBlocks r)) :=
  isSimulation_follows.run hr fuel p

end Machine

open Machine

/-- **Code after a return is dead.** Take two programs that are the same once the statements that
follow a return in their block are left out, in function bodies and in all blocks inside of them.
After any number of steps both runs have given the same result or failure, or both still go on, so
that neither ends if the other one does not; and the output, the lists and the globals are the same,
and so is the trace. -/
theorem dead_code {p q : Program} (h : p.trim = q.trim) (tracer : Tracer) (steps : Nat) :
    let outcome := execute Machine.fresh steps fun fuel => run tracer fuel p
    let outcome' := execute Machine.fresh steps fun fuel => run tracer fuel q
    outcome'.1 = outcome.1 ∧ outcome'.2.output = outcome.2.output ∧
      outcome'.2.heap = outcome.2.heap ∧ outcome'.2.globals = outcome.2.globals ∧
      outcome'.2.trace = outcome.2.trace := by
  intro outcome outcome'
  let m := { Machine.fresh with steps := steps }
  have hp := follows_run isRewriting_trimBlock tracer steps p m
  have hq := follows_run isRewriting_trimBlock tracer steps q m
  have hsame : (outcome'.1, outcome'.2.mapBlocks Stmt.trimBlock) =
      (outcome.1, outcome.2.mapBlocks Stmt.trimBlock) := by
    refine hq.symm.trans (Eq.trans ?_ hp)
    exact congrArg (fun p => (run tracer steps p).run (m.mapBlocks Stmt.trimBlock)) h.symm
  obtain ⟨hresult, hstate⟩ := Prod.mk.inj hsame
  have hpart {γ : Type} (part : Machine → γ)
      (hkeeps : ∀ m : Machine, part (m.mapBlocks Stmt.trimBlock) = part m) :
      part outcome'.2 = part outcome.2 := by
    rw [← hkeeps, hstate, hkeeps]
  exact ⟨hresult, hpart output fun _ => rfl, hpart heap fun _ => rfl,
    hpart globals globals_mapBlocks, hpart Machine.trace fun _ => rfl⟩

/-- A loop and a branch that are left by a return before the code that differs. -/
theorem dead_code_nested :
    ∃ p q, readProgram ("FUN f() DO WHILE TRUE DO IF TRUE DO RETURN 1; print(2); END END END " ++
        "FUN main() DO print(f()); END") = .ok p ∧
      readProgram ("FUN f() DO WHILE TRUE DO IF TRUE DO RETURN 1; f(); END END END " ++
        "FUN main() DO print(f()); END") = .ok q ∧
      p.trim = q.trim ∧ (execute Machine.fresh 40 fun fuel => run 0 fuel p).2.output = #["1"] ∧
      (execute Machine.fresh 40 fun fuel => run 0 fuel q).2.output = #["1"] := by
  have hsame {p q : Program} (h : p.trim = q.trim)
      (hp : (execute Machine.fresh 40 fun fuel => run 0 fuel p).2.output = #["1"]) :
      p.trim = q.trim ∧ (execute Machine.fresh 40 fun fuel => run 0 fuel p).2.output = #["1"] ∧
        (execute Machine.fresh 40 fun fuel => run 0 fuel q).2.output = #["1"] :=
    ⟨h, hp, (dead_code h 0 40).2.1.trans hp⟩
  exact ⟨_, _, by cbv, by cbv, by exact hsame rfl (by decide +kernel)⟩

end Scriptlet
