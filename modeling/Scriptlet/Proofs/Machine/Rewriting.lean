import Scriptlet.Proofs.Machine.Outcomes

/-! # Runs of rewritten programs

A rewriting goes through the blocks of a program, wherever they stand, and may do as it likes with
what follows a return in a block. A run of the rewritten program comes to the rewritten places and
binds the rewritten functions; everything else it does, it does as before. So a relation between
computations that is kept by the steps of the machine, rewritten in the second one, is kept by all
parts of the machine.

* `IsRewriting r`: `r` rewrites the blocks inside of statements and leaves a block as it is up to
  its first return.
* `Machine.IsSimulation r low high R`: the steps of the machine keep the relation `R` between
  computations with two tracers, the second of which works on rewritten blocks.
* `Machine.IsSimulation.simulated`: the parts of the machine are related to themselves on rewritten
  blocks, by induction on the bound of their recursion. -/

namespace Scriptlet

/-! ### Rewritten blocks -/

variable (r : List Stmt → List Stmt)

/-- A case with its block rewritten. -/
def Case.mapBlocks : Case → Case
  | .equals e b => .equals e (r b)
  | .otherwise b => .otherwise (r b)
  | .blockless e => .blockless e
  | .hole h => .hole h

/-- A statement with the blocks right inside of it rewritten. -/
def Stmt.mapBlocks : Stmt → Stmt
  | .expr e => .expr e
  | .declare x n value v => .declare x n value v
  | .assign receiver e => .assign receiver e
  | .branch c t e => .branch c (r t) (r e)
  | .switch c cs => .switch c (cs.map (Case.mapBlocks r))
  | .loop c b => .loop c (r b)
  | .ret e => .ret e
  | .hole h => .hole h

/-- A function with its body rewritten. -/
def Func.mapBlocks : Func → Func
  | .decl d => .decl { d with body := r d.body }
  | .hole h => .hole h

/-- A program with the bodies of its functions rewritten. -/
def Program.mapBlocks (p : Program) : Program :=
  { p with functions := p.functions.map (Func.mapBlocks r) }

/-- A callable thing with its body rewritten, if it has one. -/
def Callable.mapBlocks : Callable → Callable
  | .user f => .user { f with body := r f.body }
  | c => c

/-- A place with all blocks rewritten. -/
def Place.mapBlocks : Place → Place
  | .call c vs => .call (c.mapBlocks r) vs
  | .block s xs => .block s (r xs)
  | .stmt s x => .stmt s (x.mapBlocks r)
  | .cases s v cs => .cases s v (cs.map (Case.mapBlocks r))
  | .loop s c b => .loop s c (r b)
  | p => p

/-- Whether a map rewrites blocks statement by statement, up to a return at which it may stop. -/
structure IsRewriting : Prop where
  nil : r [] = []
  cons : ∀ x xs, r (x :: xs) = x.mapBlocks r :: r xs ∨
    ∃ e ys, x = .ret e ∧ r (x :: xs) = .ret e :: ys

namespace Machine

variable {α β : Type} {r : List Stmt → List Stmt} {low high : Tracer} {fuel : Nat}

theorem default?_mapBlocks : ∀ cs : List Case,
    default? (cs.map (Case.mapBlocks r)) = (default? cs).map (Option.map r)
  | [] => rfl
  | .otherwise _ :: _ => rfl
  | .blockless none :: _ => rfl
  | .blockless (some _) :: cs => default?_mapBlocks cs
  | .equals _ _ :: cs => default?_mapBlocks cs
  | .hole _ :: cs => default?_mapBlocks cs

/-- **What follows a return is not executed.** -/
theorem block_ret (tracer : Tracer) (s : Nat) (e : Expr) (xs : List Stmt) :
    block tracer (fuel + 1) s (.ret e :: xs) =
      tick (.block s (.ret e :: xs)) >>= fun _ => exec tracer fuel s (.ret e) := by
  rw [block]
  refine bind_congr fun _ => ?_
  cases fuel with
  | zero =>
    rw [exec]
    rfl
  | succ fuel =>
    rw [exec]
    simp only [bind_assoc, pure_bind]

/-! ### Relations kept by the steps of the machine -/

/-- Whether the machine sees the same in two states, but for functions that are rewritten. -/
structure Mirrors (r : List Stmt → List Stmt) (m m' : Machine) : Prop where
  heap : m'.heap = m.heap
  lookupVariable : ∀ s x, m'.scopes.lookupVariable s x = m.scopes.lookupVariable s x
  lookupFunction : ∀ s x n, m'.scopes.lookupFunction s x n =
    (m.scopes.lookupFunction s x n).map (Callable.mapBlocks r)
  writable : ∀ s x, writable x s m' = writable x s m

/-- The computations of texts for lines of the trace. -/
inductive IsLine : Exec Text → Prop where
  | plain (s : Text) : IsLine (pure s)
  | boolean (b : Bool) : IsLine (text (.bool b))
  | value (v : Value) : IsLine (tracedText v)
  | values (vs : List Value) : IsLine (tracedTexts vs)

/-- Whether a relation of computations with two tracers is kept by the steps of the machine and by
sequences, where the second computation works on rewritten blocks. What is traced may depend on the
tracer. -/
structure IsSimulation (r : List Stmt → List Stmt) (low high : Tracer)
    (R : {α : Type} → Exec α → Exec α → Prop) : Prop where
  pure {α : Type} (a : α) : R (pure a) (pure a)
  fail {α : Type} (f : Failure) : R (fail f : Exec α) (fail f)
  pause {α : Type} (p : Place) : R (pause p : Exec α) (pause (p.mapBlocks r))
  bind {α β : Type} {x y : Exec α} {f g : α → Exec β} :
    R x y → (∀ a, R (f a) (g a)) → R (x >>= f) (y >>= g)
  get {α : Type} {f g : Machine → Exec α} :
    (∀ m m', Mirrors r m m' → R (f m) (g m')) → R (get >>= f) (get >>= g)
  tick (p : Place) : R (tick p) (tick (p.mapBlocks r))
  print (line : Text) : R (print line) (print line)
  child (s : Nat) : R (child s) (child s)
  newList (vs : List Value) : R (newList vs) (newList vs)
  define (s : Nat) (x : Name) (b : Binding) : R (define s x b) (define s x b)
  defineFunction (s : Nat) (x : Name) (n : Nat) (c : Callable) :
    R (defineFunction s x n c) (defineFunction s x n (c.mapBlocks r))
  setItem (a k : Nat) (v : Value) :
    R (modify fun m => { m with heap := m.heap.set a k v })
      (modify fun m => { m with heap := m.heap.set a k v })
  line {α : Type} (least : Int) {line : Exec Text} (f : Text → Text) {x y : Exec α} :
    1 ≤ least → IsLine line → R x y →
      R (if least ≤ low.level then do
          let s ← line
          say low (f s)
          x
        else x)
        (if least ≤ high.level then do
          let s ← line
          say high (f s)
          y
        else y)

namespace IsSimulation

variable {R : {α : Type} → Exec α → Exec α → Prop} (hR : IsSimulation r low high R)

include hR

theorem lift (a : Except Failure α) : R (lift a) (lift a) := by
  cases a with
  | ok a => exact hR.pure a
  | error f => exact hR.fail f

/-- What comes next may be told of a result that is rewritten. -/
theorem lift_map {γ : Type} (h : α → β) (a : Except Failure α) {f : α → Exec γ} {g : β → Exec γ}
    (hfg : ∀ a, R (f a) (g (h a))) :
    R (Machine.lift a >>= f) (Machine.lift (a.map h) >>= g) := by
  cases a with
  | ok a => exact hfg a
  | error e => exact hR.fail e

theorem text (v : Value) : R (text v) (text v) :=
  hR.get fun m m' h => by
    rw [h.heap]
    exact hR.lift _

theorem bindArguments (s : Nat) (f : Option Signature) : ∀ i ps vs,
    R (bindArguments s f i ps vs) (bindArguments s f i ps vs)
  | i, p :: ps, v :: vs => by
    have hrest := bindArguments s f (i + 1) ps vs
    cases p with
    | hole h => exact hR.bind (hR.fail _) fun _ => hrest
    | typed n t => exact hR.bind (hR.define s n _) fun _ => hrest
    | untyped n => exact hR.bind (hR.define s n _) fun _ => hrest
  | _, [], _ => hR.pure _
  | _, _ :: _, [] => hR.pure _

end IsSimulation

/-! ### The parts of the machine -/

/-- What is known of runs within a bound. -/
structure Simulated (R : {α : Type} → Exec α → Exec α → Prop) (r : List Stmt → List Stmt)
    (low high : Tracer) (fuel : Nat) : Prop where
  eval : ∀ s e, R (eval low fuel s e) (eval high fuel s e)
  evalAll : ∀ s es, R (evalAll low fuel s es) (evalAll high fuel s es)
  call : ∀ c vs, R (call low fuel c vs) (call high fuel (c.mapBlocks r) vs)
  block : ∀ s xs, R (block low fuel s xs) (block high fuel s (r xs))
  exec : ∀ s x, R (exec low fuel s x) (exec high fuel s (x.mapBlocks r))
  /-- What comes next may be told of the block that is chosen, which is rewritten. -/
  matching : ∀ {α : Type} (s : Nat) (v : Value) (cs : List Case)
    {f g : Option (List Stmt) → Exec α}, (∀ b, R (f b) (g (b.map r))) →
      R (matching low fuel s v cs >>= f)
        (matching high fuel s v (cs.map (Case.mapBlocks r)) >>= g)
  loop : ∀ s c b, R (loop low fuel s c b) (loop high fuel s c (r b))

namespace IsSimulation

variable {R : {α : Type} → Exec α → Exec α → Prop} (hR : IsSimulation r low high R)
  (ih : Simulated R r low high fuel)

include hR ih

theorem eval_succ (s : Nat) (e : Expr) :
    R (eval low (fuel + 1) s e) (eval high (fuel + 1) s e) := by
  rw [eval.eq_def low, eval.eq_def high]
  refine hR.bind (hR.tick _) fun _ => ?_
  cases e with
  | literal v k slot => exact hR.pure _
  | group e slot => exact ih.eval s e
  | binary op l r slot =>
    refine hR.bind (ih.eval s l) fun a => hR.bind (ih.eval s r) fun b => ?_
    refine hR.get fun m m' h => ?_
    rw [h.heap]
    exact hR.lift _
  | name x v slot =>
    refine hR.get fun m m' h => ?_
    rw [h.lookupVariable]
    exact hR.bind (hR.lift _) fun b => hR.pure _
  | index x o v slot =>
    refine hR.get fun m m' h => ?_
    rw [h.lookupVariable]
    refine hR.bind (hR.lift _) fun b => hR.bind (hR.lift _) fun a => ?_
    refine hR.bind (ih.eval s o) fun i => hR.get fun m m' h => ?_
    rw [h.heap]
    exact hR.bind (hR.lift _) fun k => hR.pure _
  | call f args target slot =>
    refine hR.bind (ih.evalAll s args) fun vs => hR.get fun m m' h => ?_
    rw [h.lookupFunction]
    refine hR.lift_map _ _ fun c => ?_
    exact hR.line _ _ (by decide) (.values vs) (ih.call c vs)
  | list es slot => exact hR.bind (ih.evalAll s es) fun vs => hR.newList vs
  | hole h => exact hR.fail _

theorem evalAll_succ (s : Nat) (es : List Expr) :
    R (evalAll low (fuel + 1) s es) (evalAll high (fuel + 1) s es) := by
  cases es with
  | nil =>
    rw [evalAll_nil, evalAll_nil]
    exact hR.pure _
  | cons e es =>
    rw [evalAll, evalAll]
    refine hR.bind (hR.tick _) fun _ => hR.bind (ih.eval s e) fun v => ?_
    exact hR.bind (ih.evalAll s es) fun vs => hR.pure _

theorem call_succ (c : Callable) (vs : List Value) :
    R (call low (fuel + 1) c vs) (call high (fuel + 1) (c.mapBlocks r) vs) := by
  rw [call.eq_def low, call.eq_def high]
  refine hR.bind (hR.tick _) fun _ => ?_
  cases c with
  | print =>
    exact hR.bind (hR.text _) fun line => hR.bind (hR.print line) fun _ => hR.pure _
  | host n k => exact hR.newList vs
  | user f =>
    refine hR.bind (hR.child root) fun s => ?_
    refine hR.bind (hR.bindArguments s f.signature 0 f.params vs) fun _ => ?_
    exact hR.bind (ih.block s f.body) fun r => hR.pure _
  | value v =>
    refine hR.get fun m m' h => ?_
    rw [h.heap]
    exact hR.bind (hR.lift _) fun shown => hR.fail _

/-- A block goes on to its next statement, or it has come to a return, after which the rewritten
block may be another one. -/
theorem block_succ (hr : IsRewriting r) (s : Nat) (xs : List Stmt) :
    R (block low (fuel + 1) s xs) (block high (fuel + 1) s (r xs)) := by
  cases xs with
  | nil =>
    rw [hr.nil, block_nil, block_nil]
    exact hR.pure _
  | cons x xs =>
    have htick := hR.tick (.block s (x :: xs))
    rw [Place.mapBlocks] at htick
    rcases hr.cons x xs with hx | ⟨e, ys, rfl, hx⟩
    · rw [hx] at htick ⊢
      rw [block, block]
      refine hR.bind htick fun _ => hR.bind (ih.exec s x) fun v => ?_
      cases v with
      | some v => exact hR.pure _
      | none => exact ih.block s xs
    · rw [hx] at htick ⊢
      rw [block_ret, block_ret]
      exact hR.bind htick fun _ => ih.exec s (.ret e)

/-- A block in a scope of its own. -/
theorem inner (s : Nat) (xs : List Stmt) :
    R (do block low fuel (← Machine.child s) xs)
      (do block high fuel (← Machine.child s) (r xs)) :=
  hR.bind (hR.child s) fun i => ih.block i xs

theorem assign_succ (s : Nat) (receiver : Expr) (e : Expr) :
    R (exec low (fuel + 1) s (.assign receiver e))
      (exec high (fuel + 1) s (.assign receiver e)) := by
  rw [exec.eq_def low, exec.eq_def high]
  refine hR.bind (hR.tick _) fun _ => hR.bind (ih.eval s e) fun v => ?_
  refine hR.bind (hR.tick _) fun _ => ?_
  cases receiver with
  | name n x slot =>
    refine hR.get fun m m' h => ?_
    rw [h.writable]
    refine hR.bind (hR.lift _) fun ⟨t, b⟩ => ?_
    exact hR.bind (hR.define t n _) fun _ => hR.pure _
  | index n o x slot =>
    refine hR.get fun m m' h => ?_
    rw [h.writable]
    refine hR.bind (hR.lift _) fun ⟨t, b⟩ => hR.bind (hR.lift _) fun a => ?_
    refine hR.bind (ih.eval s o) fun i => hR.get fun m m' h => ?_
    rw [h.heap]
    refine hR.bind (hR.lift _) fun k => ?_
    exact hR.bind (hR.setItem a k v) fun _ => hR.pure _
  | _ => exact hR.fail _

theorem switch_succ (s : Nat) (c : Expr) (cs : List Case) :
    R (exec low (fuel + 1) s (.switch c cs))
      (exec high (fuel + 1) s (.switch c (cs.map (Case.mapBlocks r)))) := by
  rw [exec.eq_def low, exec.eq_def high]
  refine hR.bind (hR.tick (.stmt s (.switch c cs))) fun _ => hR.bind (ih.eval s c) fun v => ?_
  refine ih.matching s v cs fun b => ?_
  cases b with
  | some b => exact hR.inner ih s b
  | none =>
    dsimp only [Option.map_none]
    rw [default?_mapBlocks]
    refine hR.lift_map _ _ fun b => ?_
    cases b with
    | some b => exact hR.inner ih s b
    | none => exact hR.pure _

theorem exec_succ (s : Nat) (x : Stmt) :
    R (exec low (fuel + 1) s x) (exec high (fuel + 1) s (x.mapBlocks r)) := by
  cases x with
  | assign receiver e => exact hR.assign_succ ih s receiver e
  | switch c cs => exact hR.switch_succ ih s c cs
  | expr e =>
    rw [Stmt.mapBlocks, exec, exec]
    exact hR.bind (hR.tick (.stmt s (.expr e))) fun _ => hR.bind (ih.eval s e) fun v => hR.pure _
  | declare n typeName value slot =>
    have hline (v : Value) := hR.line 2
      (fun line => Text.plain "declare " ++ n.toText ++ .plain " = " ++ line)
      (by decide) (.value v) (hR.pure (none : Option Value))
    have hrest (v : Value) := hR.bind (hR.define s n ⟨true, v, slot.map (·.origin)⟩)
      fun _ => hline v
    rw [exec.eq_def low, exec.eq_def high]
    refine hR.bind (hR.tick (.stmt s (.declare n typeName value slot))) fun _ => ?_
    cases value with
    | none => exact hrest .nil
    | some e => exact hR.bind (ih.eval s e) hrest
  | branch c t e =>
    rw [exec.eq_def low, exec.eq_def high]
    refine hR.bind (hR.tick (.stmt s (.branch c t e))) fun _ => hR.bind (ih.eval s c) fun v => ?_
    refine hR.bind (hR.lift _) fun b => ?_
    refine hR.line _ _ (by decide) (.boolean b) ?_
    cases b with
    | true => exact hR.inner ih s t
    | false => exact hR.inner ih s e
  | loop c b =>
    rw [Stmt.mapBlocks, exec, exec]
    exact hR.bind (hR.tick (.stmt s (.loop c b))) fun _ => ih.loop s c b
  | ret e =>
    rw [Stmt.mapBlocks, exec, exec]
    exact hR.bind (hR.tick (.stmt s (.ret e))) fun _ => hR.bind (ih.eval s e) fun v => hR.pure _
  | hole h =>
    rw [Stmt.mapBlocks, exec, exec]
    exact hR.bind (hR.tick (.stmt s (.hole h))) fun _ => hR.fail _

theorem matching_succ (s : Nat) (v : Value) (cs : List Case)
    {f g : Option (List Stmt) → Exec α} (hfg : ∀ b, R (f b) (g (b.map r))) :
    R (matching low (fuel + 1) s v cs >>= f)
      (matching high (fuel + 1) s v (cs.map (Case.mapBlocks r)) >>= g) := by
  cases cs with
  | nil =>
    rw [List.map_nil, matching_nil, matching_nil, pure_bind, pure_bind]
    exact hfg none
  | cons x cs =>
    have hrest := ih.matching s v cs hfg
    have htick := hR.tick (.cases s v (x :: cs))
    rw [List.map_cons, matching.eq_def low, matching.eq_def high]
    dsimp only
    rw [bind_assoc, bind_assoc]
    refine hR.bind htick fun _ => ?_
    cases x with
    | equals e b =>
      simp only [Case.mapBlocks, bind_assoc]
      refine hR.bind (ih.eval s e) fun w => hR.get fun m m' h => ?_
      rw [h.heap]
      refine hR.bind (hR.lift _) fun same => ?_
      cases same with
      | true => exact hfg (some b)
      | false => exact hrest
    | otherwise b => exact hrest
    | blockless e =>
      cases e with
      | none => exact hrest
      | some e =>
        simp only [Case.mapBlocks, bind_assoc]
        refine hR.bind (ih.eval s e) fun w => hR.get fun m m' h => ?_
        rw [h.heap]
        refine hR.bind (hR.lift _) fun same => ?_
        cases same with
        | true => exact hR.fail _
        | false => exact hrest
    | hole h => exact hR.fail _

theorem loop_succ (s : Nat) (c : Expr) (b : List Stmt) :
    R (loop low (fuel + 1) s c b) (loop high (fuel + 1) s c (r b)) := by
  rw [loop, loop]
  refine hR.bind (hR.tick (.loop s c b)) fun _ => hR.bind (ih.eval s c) fun v => ?_
  refine hR.bind (hR.lift _) fun go => ?_
  cases go with
  | false => exact hR.pure _
  | true =>
    refine hR.bind (hR.child s) fun i => hR.bind (ih.block i b) fun r => ?_
    cases r with
    | some v => exact hR.pure _
    | none => exact ih.loop s c b

end IsSimulation

namespace IsSimulation

variable {R : {α : Type} → Exec α → Exec α → Prop} (hR : IsSimulation r low high R)

include hR

/-- **The parts of the machine are related to themselves on rewritten blocks**, within every
bound. -/
theorem simulated (hr : IsRewriting r) : ∀ fuel, Simulated R r low high fuel
  | 0 => by
    refine ⟨fun s e => ?_, fun s es => ?_, fun c vs => ?_, fun s xs => ?_, fun s x => ?_,
      fun s v cs f g hfg => ?_, fun s c b => ?_⟩
    · rw [eval, eval]
      exact hR.pause (.expr s e)
    · rw [evalAll, evalAll]
      exact hR.pause (.exprs s es)
    · rw [call, call]
      exact hR.pause (.call c vs)
    · rw [block, block]
      exact hR.pause (.block s xs)
    · rw [exec, exec]
      exact hR.pause (.stmt s x)
    · rw [matching, matching]
      exact hR.pause (.cases s v cs)
    · rw [loop, loop]
      exact hR.pause (.loop s c b)
  | fuel + 1 => by
    have ih := simulated hr fuel
    exact ⟨hR.eval_succ ih, hR.evalAll_succ ih, hR.call_succ ih, hR.block_succ ih hr,
      hR.exec_succ ih, hR.matching_succ ih, hR.loop_succ ih⟩

/-! ### Programs -/

theorem forM {f g : β → Exec PUnit} (h : ∀ b, R (f b) (g b)) :
    ∀ bs : List β, R (bs.forM f) (bs.forM g)
  | [] => hR.pure _
  | b :: bs => hR.bind (h b) fun _ => forM h bs

theorem defineGlobal (hr : IsRewriting r) (fuel : Nat) (g : Global) :
    R (defineGlobal low fuel g) (defineGlobal high fuel g) := by
  have heval := (hR.simulated hr fuel).eval root
  cases g with
  | decl d =>
    have hline (v : Value) := hR.line 2
      (fun line => Text.plain "global " ++ d.name.toText ++ .plain " = " ++ line)
      (by decide) (.value v) (hR.pure ())
    simp only [say_bind_pure] at hline
    have hrest (v : Value) := hR.bind (hR.define root d.name ⟨d.mutable, v,
      d.declared.map (·.origin)⟩) fun _ => hline v
    rw [Machine.defineGlobal, Machine.defineGlobal]
    dsimp only
    cases d.value with
    | none => exact hrest .nil
    | some e => exact hR.bind (heval e) hrest
  | fragment n typeName value =>
    rw [defineGlobal.eq_def low, defineGlobal.eq_def high]
    dsimp only
    split
    · exact hR.bind (heval _) fun _ => hR.fail _
    · exact hR.fail _
  | hole h => exact hR.fail _

theorem defineFunc (f : Func) : R (defineFunc low f) (defineFunc high (f.mapBlocks r)) := by
  cases f with
  | decl d =>
    rw [Func.mapBlocks, Machine.defineFunc, Machine.defineFunc]
    refine hR.bind (hR.lift _) fun k => ?_
    refine hR.bind (hR.defineFunction root d.name k _) fun _ => ?_
    have hline := hR.line 2 id (by decide)
      (.plain (.plain "define function " ++ d.name.toText ++ .plain ("/" ++ toString k)))
      (hR.pure ())
    simpa only [pure_bind, say_bind_pure, id] using hline
  | hole h => exact hR.fail _

/-- Two programs run alike if their definitions do. -/
theorem run_of_load (hr : IsRewriting r) {p q : Program}
    (hload : R (load low fuel p) (load high fuel q)) : R (run low fuel p) (run high fuel q) := by
  rw [run, run]
  refine hR.bind hload fun _ => hR.get fun m m' h => ?_
  rw [h.lookupFunction]
  refine hR.lift_map _ _ fun main => ?_
  refine hR.bind ((hR.simulated hr fuel).call main []) fun v => ?_
  refine hR.bind (hR.text v) fun shown => ?_
  have hline := hR.line 1 id (by decide) (.plain (.plain "main returned " ++ shown)) (hR.pure v)
  simpa only [pure_bind, id] using hline

theorem defineFuncs : ∀ fs : List Func,
    R (fs.forM (Machine.defineFunc low))
      ((fs.map (Func.mapBlocks r)).forM (Machine.defineFunc high))
  | [] => hR.pure _
  | f :: fs => hR.bind (hR.defineFunc f) fun _ => defineFuncs fs

/-- **A program runs like the rewritten one.** -/
theorem run (hr : IsRewriting r) (fuel : Nat) (p : Program) :
    R (run low fuel p) (run high fuel (p.mapBlocks r)) :=
  hR.run_of_load hr (hR.bind (hR.forM (hR.defineGlobal hr fuel) p.globals)
    fun _ => hR.defineFuncs p.functions)

end IsSimulation

end Machine

end Scriptlet
