import Scriptlet.Proofs.Machine.Rewriting

/-! # Relations that runs keep

Two runs of one program take the same way if their states look the same to the machine: if they have
the same lists, and names mean the same in the scopes. A relation on computations that is kept by
the steps of the machine, read with such states side by side, and by sequences of computations, is
therefore kept by runs of programs, also with two tracers. This is what is known of runs of
rewritten programs if nothing is rewritten.

* `Looks`: what the machine sees of two states is the same.
* `IsCongruence`: a relation on computations that the steps of the machine keep.
* `IsCongruence.run`: the runs of a program with two tracers are related. -/

namespace Scriptlet

/-! ### Blocks that stay as they are -/

theorem Case.mapBlocks_id : Case.mapBlocks id = id := by
  funext c
  cases c <;> rfl

theorem Stmt.mapBlocks_id : Stmt.mapBlocks id = id := by
  funext x
  cases x with
  | switch c cs => rw [Stmt.mapBlocks, Case.mapBlocks_id, List.map_id, id]
  | _ => rfl

theorem Func.mapBlocks_id : Func.mapBlocks id = id := by
  funext f
  cases f <;> rfl

theorem Callable.mapBlocks_id : Callable.mapBlocks id = id := by
  funext c
  cases c <;> rfl

theorem Place.mapBlocks_id : Place.mapBlocks id = id := by
  funext p
  cases p with
  | call c vs => rw [Place.mapBlocks, Callable.mapBlocks_id, id, id]
  | stmt s x => rw [Place.mapBlocks, Stmt.mapBlocks_id, id, id]
  | cases s v cs => rw [Place.mapBlocks, Case.mapBlocks_id, List.map_id, id]
  | _ => rfl

theorem isRewriting_id : IsRewriting id :=
  ⟨rfl, fun x xs => Or.inl (by rw [Stmt.mapBlocks_id]; rfl)⟩

namespace Machine

variable {β : Type} {low high : Tracer} {fuel : Nat}

/-- Whether the machine sees the same in two states: the same lists, and names mean the same. -/
structure Looks (m m' : Machine) : Prop where
  heap : m'.heap = m.heap
  lookupVariable : ∀ s x, m'.scopes.lookupVariable s x = m.scopes.lookupVariable s x
  lookupFunction : ∀ s x n, m'.scopes.lookupFunction s x n = m.scopes.lookupFunction s x n
  writable : ∀ s x, writable x s m' = writable x s m

/-- Whether a relation of computations with two tracers is kept by the steps of the machine and by
sequences. What is traced may depend on the tracer. -/
structure IsCongruence (low high : Tracer) (R : {α : Type} → Exec α → Exec α → Prop) : Prop where
  pure {α : Type} (a : α) : R (pure a) (pure a)
  fail {α : Type} (f : Failure) : R (fail f : Exec α) (fail f)
  pause {α : Type} (p : Place) : R (pause p : Exec α) (pause p)
  bind {α β : Type} {x y : Exec α} {f g : α → Exec β} :
    R x y → (∀ a, R (f a) (g a)) → R (x >>= f) (y >>= g)
  get {α : Type} {f g : Machine → Exec α} :
    (∀ m m', Looks m m' → R (f m) (g m')) → R (get >>= f) (get >>= g)
  tick (p : Place) : R (tick p) (tick p)
  print (line : Text) : R (print line) (print line)
  child (s : Nat) : R (child s) (child s)
  newList (vs : List Value) : R (newList vs) (newList vs)
  define (s : Nat) (x : Name) (b : Binding) : R (define s x b) (define s x b)
  defineFunction (s : Nat) (x : Name) (n : Nat) (c : Callable) :
    R (defineFunction s x n c) (defineFunction s x n c)
  setItem (a k : Nat) (v : Value) :
    R (modify fun m => { m with heap := m.heap.set a k v })
      (modify fun m => { m with heap := m.heap.set a k v })
  line {α : Type} (least : Int) {line : Exec Text} (f : Text → Text) {x y : Exec α} :
    1 ≤ least → IsLine line → R x y →
      R (if least ≤ low.level then do
          let s ← line
          say low (f s)
          x
        else x)
        (if least ≤ high.level then do
          let s ← line
          say high (f s)
          y
        else y)

namespace IsCongruence

variable {R : {α : Type} → Exec α → Exec α → Prop} (hR : IsCongruence low high R)

include hR

theorem isSimulation : IsSimulation id low high R where
  pure := hR.pure
  fail := hR.fail
  pause p := by
    rw [Place.mapBlocks_id]
    exact hR.pause p
  bind := hR.bind
  get h := hR.get fun m m' hm => h m m'
    ⟨hm.heap, hm.lookupVariable, fun s x n => by
      rw [hm.lookupFunction, Callable.mapBlocks_id, Except.map_id, id], hm.writable⟩
  tick p := by
    rw [Place.mapBlocks_id]
    exact hR.tick p
  print := hR.print
  child := hR.child
  newList := hR.newList
  define := hR.define
  defineFunction s x n c := by
    rw [Callable.mapBlocks_id]
    exact hR.defineFunction s x n c
  setItem := hR.setItem
  line := hR.line

/-! ### Programs -/

theorem forM {f g : β → Exec PUnit} (h : ∀ b, R (f b) (g b)) (bs : List β) :
    R (bs.forM f) (bs.forM g) :=
  hR.isSimulation.forM h bs

theorem defineGlobal (fuel : Nat) (g : Global) :
    R (defineGlobal low fuel g) (defineGlobal high fuel g) :=
  hR.isSimulation.defineGlobal isRewriting_id fuel g

theorem defineFunc (f : Func) : R (defineFunc low f) (defineFunc high f) := by
  simpa only [Func.mapBlocks_id, id] using hR.isSimulation.defineFunc f

/-- Two programs run alike if their definitions do. -/
theorem run_of_load {p q : Program} (hload : R (load low fuel p) (load high fuel q)) :
    R (run low fuel p) (run high fuel q) :=
  hR.isSimulation.run_of_load isRewriting_id hload

theorem run (fuel : Nat) (p : Program) : R (run low fuel p) (run high fuel p) :=
  hR.run_of_load (hR.bind (hR.forM (hR.defineGlobal fuel) p.globals)
    fun _ => hR.forM hR.defineFunc p.functions)

end IsCongruence

end Machine

end Scriptlet
