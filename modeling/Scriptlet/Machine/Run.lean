import Scriptlet.Machine.Basic

/-! # Running programs

The evaluation of expressions and the execution of statements, by recursion on a bound that is never
smaller than the number of steps that may still be taken. Both sides of an operator are always
evaluated, the left one first. A statement gives a value exactly when a return was executed in it,
and every block passes such a value on at once. -/

namespace Scriptlet

namespace Machine

variable (tracer : Tracer)

mutual

/-- Evaluates an expression in a scope. -/
def eval : (fuel : Nat) → (s : Nat) → Expr → Exec Value
  | 0, s, e => pause (.expr s e)
  | fuel + 1, s, e => do
    tick (.expr s e)
    match e with
    | .literal v k _ => return .ofLiteral v k
    | .group e _ => eval fuel s e
    | .binary op l r _ =>
      let a ← eval fuel s l
      let b ← eval fuel s r
      lift (Value.binary (← get).heap op a b)
    | .name x _ _ =>
      let b ← lift ((← get).scopes.lookupVariable s x)
      return b.value
    | .index x o _ _ =>
      let b ← lift ((← get).scopes.lookupVariable s x)
      let a ← lift (requireList x b.value)
      let i ← eval fuel s o
      let xs := (← get).heap.items a
      let k ← lift (position i xs.size)
      return xs[k]?.getD .nil
    | .call f args _ _ =>
      let vs ← evalAll fuel s args
      let c ← lift ((← get).scopes.lookupFunction s f vs.length)
      if 3 ≤ tracer.level then
        say tracer (.plain "call " ++ f.toText ++ .plain "(" ++ (← tracedTexts vs) ++ .plain ")")
      call fuel c vs
    | .list es _ =>
      let vs ← evalAll fuel s es
      newList vs
    | .hole h => fail (h.failure .evaluate)

/-- Evaluates expressions from left to right. -/
def evalAll : (fuel : Nat) → (s : Nat) → List Expr → Exec (List Value)
  | 0, s, es => pause (.exprs s es)
  | _, _, [] => return []
  | fuel + 1, s, e :: es => do
    tick (.exprs s (e :: es))
    let v ← eval fuel s e
    let vs ← evalAll fuel s es
    return v :: vs

/-- Calls a function. -/
def call : (fuel : Nat) → Callable → List Value → Exec Value
  | 0, c, vs => pause (.call c vs)
  | fuel + 1, c, vs => do
    tick (.call c vs)
    match c with
    | .print =>
      print (← text (vs.headD .nil))
      return .nil
    | .host .. => newList vs
    | .user f =>
      let s ← child root
      bindArguments s f.signature 0 f.params vs
      let r ← block fuel s f.body
      return r.getD .nil
    | .value _ =>
      let shown ← lift (showCallable (← get).heap c)
      fail (.run (.notCallable shown))

/-- Executes statements in a scope, up to the first return. -/
def block : (fuel : Nat) → (s : Nat) → List Stmt → Exec (Option Value)
  | 0, s, xs => pause (.block s xs)
  | _, _, [] => return none
  | fuel + 1, s, x :: xs => do
    tick (.block s (x :: xs))
    match ← exec fuel s x with
    | some v => return some v
    | none => block fuel s xs

/-- Executes a statement in a scope. -/
def exec : (fuel : Nat) → (s : Nat) → Stmt → Exec (Option Value)
  | 0, s, x => pause (.stmt s x)
  | fuel + 1, s, x => do
    tick (.stmt s x)
    match x with
    | .expr e =>
      let _ ← eval fuel s e
      return none
    | .declare n _ value slot =>
      let v ← match value with
        | some e => eval fuel s e
        | none => pure .nil
      define s n ⟨true, v, slot.map (·.origin)⟩
      if 2 ≤ tracer.level then
        say tracer (.plain "declare " ++ n.toText ++ .plain " = " ++ (← tracedText v))
      return none
    | .assign receiver value =>
      let v ← eval fuel s value
      tick (.receiver s receiver)
      match receiver with
      | .name n _ _ =>
        let (t, b) ← lift (writable n s (← get))
        define t n { b with value := v }
        return none
      | .index n o _ _ =>
        let (_, b) ← lift (writable n s (← get))
        let a ← lift (requireList n b.value)
        let i ← eval fuel s o
        let k ← lift (position i ((← get).heap.items a).size)
        modify fun m => { m with heap := m.heap.set a k v }
        return none
      | _ => fail (.run .badReceiver)
    | .branch c t e =>
      let b ← lift (requireBoolean "IF" (← eval fuel s c))
      if 3 ≤ tracer.level then say tracer (.plain "if condition -> " ++ (← text (.bool b)))
      block fuel (← child s) (if b then t else e)
    | .switch c cs =>
      let v ← eval fuel s c
      match ← matching fuel s v cs with
      | some b => block fuel (← child s) b
      | none =>
        match ← lift (default? cs) with
        | some b => block fuel (← child s) b
        | none => return none
    | .loop c b => loop fuel s c b
    | .ret e => return some (← eval fuel s e)
    | .hole h => fail (h.failure .execute)

/-- The block of the first case whose value equals the value of the condition. -/
def matching : (fuel : Nat) → (s : Nat) → Value → List Case → Exec (Option (List Stmt))
  | 0, s, v, xs => pause (.cases s v xs)
  | _, _, _, [] => return none
  | fuel + 1, s, v, x :: xs => do
    tick (.cases s v (x :: xs))
    match x with
    | .equals e b =>
      let w ← eval fuel s e
      if ← lift ((← get).heap.equal w v) then return some b else matching fuel s v xs
    | .blockless (some e) =>
      let w ← eval fuel s e
      if ← lift ((← get).heap.equal w v) then fail (.tree .missingPart) else matching fuel s v xs
    | .otherwise _ | .blockless none => matching fuel s v xs
    | .hole h => fail h.partFailure

/-- Executes a loop. Every round has a scope of its own. -/
def loop : (fuel : Nat) → (s : Nat) → Expr → List Stmt → Exec (Option Value)
  | 0, s, c, b => pause (.loop s c b)
  | fuel + 1, s, c, b => do
    tick (.loop s c b)
    if ← lift (requireBoolean "WHILE" (← eval fuel s c)) then
      match ← block fuel (← child s) b with
      | some v => return some v
      | none => loop fuel s c b
    else return none

end

/-! ### Programs -/

/-- Evaluates the initial value of a global and binds it. -/
def defineGlobal (fuel : Nat) : Global → Exec Unit
  | .decl d => do
    let v ← match d.value with
      | some e => eval tracer fuel root e
      | none => pure .nil
    define root d.name ⟨d.mutable, v, d.declared.map (·.origin)⟩
    if 2 ≤ tracer.level then
      say tracer (.plain "global " ++ d.name.toText ++ .plain " = " ++ (← tracedText v))
  | .fragment _ _ value => do
    if let some (some e) := value then
      let _ ← eval tracer fuel root e
    fail (.tree .missingPart)
  | .hole h => fail h.partFailure

/-- The number of parameters of a function, whose parameters must be a sequence. -/
def arity : List Param → Except Failure Nat
  | [.hole (.sequence k)] => .error (.tree (.noLength k))
  | ps => .ok ps.length

/-- Binds a function. -/
def defineFunc : Func → Exec Unit
  | .decl d => do
    let k ← lift (arity d.params)
    defineFunction root d.name k (.user ⟨d.name, d.params, d.body, d.signature⟩)
    if 2 ≤ tracer.level then
      say tracer (.plain "define function " ++ d.name.toText ++ .plain ("/" ++ toString k))
  | .hole h => fail h.partFailure

/-- Defines the globals and the functions of a program. -/
def load (fuel : Nat) (p : Program) : Exec Unit := do
  p.globals.forM (defineGlobal tracer fuel)
  p.functions.forM (defineFunc tracer)

/-- Runs a program: its definitions, then its main function. -/
def run (fuel : Nat) (p : Program) : Exec Value := do
  load tracer fuel p
  let main ← lift ((← get).scopes.lookupFunction root (.text "main") 0)
  let v ← call tracer fuel main []
  let shown ← text v
  if 1 ≤ tracer.level then say tracer (.plain "main returned " ++ shown)
  return v

/-- Runs a computation for at most so many steps. -/
def execute {α : Type} (m : Machine) (steps : Nat) (x : (fuel : Nat) → Exec α) :
    Except Stop α × Machine :=
  (x steps).run { m with steps := steps }

end Machine

end Scriptlet
