import Scriptlet.Scope
import Scriptlet.Tracer
import Scriptlet.Value.Operators

/-! # The machine

The state of a running program: scopes with live bindings, the heap of lists, what was printed and
what was traced. Every node that is visited costs a step, and a run that has used up its steps
pauses with the state it has reached and the place at which it would go on; so the states in which
runs of all lengths pause are the reachable ones, and the places are the ones that runs come to. A
run that fails because a line of its trace cannot be shown or written has the place of that line.

Standard output takes the texts that a file takes. -/

namespace Scriptlet

/-- A live variable. Its origin is the declaration that created it, if analysis has numbered it. -/
structure Binding where
  mutable : Bool
  value : Value
  origin : Option Origin
  deriving Inhabited, Repr

/-- A function declared in a program. Its calls run inside the root scope. -/
structure UserFunction where
  name : Name
  params : List Param
  body : List Stmt
  signature : Option Signature
  deriving Inhabited, Repr

/-- What can be bound to the name of a function. -/
inductive Callable where
  /-- The built-in function that prints a line. -/
  | print
  /-- A function of the surroundings, which gives a list of its arguments. -/
  | host (name : String) (arity : Nat)
  | user (f : UserFunction)
  /-- A plain value, which cannot be called. -/
  | value (v : Value)
  deriving Inhabited, Repr

/-- A place that a run comes to: what it does next. -/
inductive Place where
  | expr (scope : Nat) (e : Expr)
  | exprs (scope : Nat) (es : List Expr)
  | call (c : Callable) (args : List Value)
  | block (scope : Nat) (xs : List Stmt)
  | stmt (scope : Nat) (x : Stmt)
  /-- The receiver of an assignment whose value was evaluated. -/
  | receiver (scope : Nat) (e : Expr)
  | cases (scope : Nat) (v : Value) (cs : List Case)
  | loop (scope : Nat) (condition : Expr) (body : List Stmt)
  /-- A line of the trace that shows values. -/
  | line (vs : List Value)
  /-- A line of the trace that its file does not take. -/
  | unwritten (line : Text)
  deriving Inhabited, Repr

/-- The state of a running program. -/
structure Machine where
  scopes : Forest Binding Callable
  heap : Heap
  /-- The lines printed so far. -/
  output : Array String
  /-- The lines traced so far. -/
  trace : Array String
  /-- The steps that may still be taken. -/
  steps : Nat
  /-- The place at which the run has paused, or the line of the trace at which it has failed. -/
  place : Option Place
  deriving Inhabited

/-- Why a run ends early. -/
inductive Stop where
  | failed (f : Failure)
  | paused
  deriving DecidableEq, Repr

/-- Whether a run ends early is decided without comparing its results. -/
instance {α : Type} (r : Except Stop α) (stop : Stop) : Decidable (r = .error stop) :=
  match r with
  | .ok _ => isFalse nofun
  | .error s => decidable_of_iff (s = stop) (by simp)

/-- A computation on the machine. The state is kept when the computation ends early. -/
abbrev Exec := ExceptT Stop (StateM Machine)

namespace Machine

/-- The number of the scope of the globals and functions. -/
def root : Nat := 0

/-- A machine on which nothing has run. -/
def fresh : Machine :=
  ⟨(Forest.addRoot {}).defineFunction root (.text "print") 1 (some .print), {}, #[], #[], 0, none⟩

/-- The global variables. -/
def globals (m : Machine) : List (Name × Binding) :=
  m.scopes.variablesOf root

/-- A callable thing shown in a message. -/
def showCallable (h : Heap) : Callable → Except Failure String
  | .print => .ok "<builtin print/1>"
  | .host n k => .ok s!"<builtin {n}/{k}>"
  | .user f => .ok ("<function " ++ f.name.shown ++ "/" ++ toString f.params.length ++ ">")
  | .value v => h.display v

/-! ### Steps -/

/-- Ends a run with a failure. -/
def fail {α : Type} (f : Failure) : Exec α :=
  throw (.failed f)

/-- The result of a computation that does not touch the state. -/
def lift {α : Type} : Except Failure α → Exec α
  | .ok a => pure a
  | .error f => fail f

/-- Pauses a run at a place. -/
def pause {α : Type} (p : Place) : Exec α := do
  modify fun m => { m with place := some p }
  throw .paused

/-- Spends a step at a place. -/
def tick (p : Place) : Exec Unit := do
  match (← get).steps with
  | 0 => pause p
  | n + 1 => modify fun m => { m with steps := n }

/-- Traces a line. A run whose trace does not take it fails there. -/
def say (tracer : Tracer) (line : Text) : Exec Unit :=
  match tracer.write line with
  | .ok s => modify fun m => { m with trace := m.trace.push s }
  | .error f => do
    modify fun m => { m with place := some (.unwritten line) }
    fail f

/-- Prints a line. -/
def print (line : Text) : Exec Unit :=
  match line.written with
  | .ok s => modify fun m => { m with output := m.output.push s }
  | .error flaw => fail (.unwritable flaw)

/-- The text of a value. -/
def text (v : Value) : Exec Text := do
  lift ((← get).heap.text v)

/-- A part of a line of the trace that shows values. A run that cannot show them fails there. -/
def traced {α : Type} (vs : List Value) : Except Failure α → Exec α
  | .ok a => pure a
  | .error f => do
    modify fun m => { m with place := some (.line vs) }
    fail f

/-- The text of a value in a line of the trace. -/
def tracedText (v : Value) : Exec Text := do
  traced [v] ((← get).heap.text v)

/-- The texts of values in a line of the trace, joined with commas between them. -/
def tracedTexts (vs : List Value) : Exec Text := do
  let items ← traced vs (vs.mapM (← get).heap.render)
  traced vs (Heap.joined items)

/-- A new scope inside another. -/
def child (s : Nat) : Exec Nat :=
  modifyGet fun m => (m.scopes.size, { m with scopes := m.scopes.addChild s })

/-- A new list. -/
def newList (vs : List Value) : Exec Value :=
  modifyGet fun m =>
    let (a, h) := m.heap.alloc vs.toArray
    (.list a, { m with heap := h })

/-- Binds a variable in a scope. -/
def define (s : Nat) (name : Name) (b : Binding) : Exec Unit := do
  let n ← lift name.label
  modify fun m => { m with scopes := m.scopes.defineVariable s n (some b) }

/-- Binds a function in a scope. -/
def defineFunction (s : Nat) (name : Name) (arity : Nat) (c : Callable) : Exec Unit := do
  let n ← lift name.label
  modify fun m => { m with scopes := m.scopes.defineFunction s n arity (some c) }

/-- The place in a list that a value selects. -/
def position (i : Value) (size : Nat) : Except Failure Nat :=
  match i.integer? with
  | none => .error (.run (.indexNotInteger i.kindName))
  | some n =>
    if 0 ≤ n && n < size then .ok n.toNat
    else (showInt n).bind fun _ => .error (.run (.indexOutOfRange n))

/-- The list that a variable holds. -/
def requireList (name : Name) : Value → Except Failure Nat
  | .list a => .ok a
  | v => .error (.run (.notIndexable v.kindName name.shown))

/-- The boolean that a condition gives. -/
def requireBoolean (construct : String) : Value → Except Failure Bool
  | .bool b => .ok b
  | v => .error (.run (.conditionNotBoolean construct v.kindName))

/-- The variable that an assignment changes, and the scope that holds it. -/
def writable (name : Name) (s : Nat) (m : Machine) : Except Failure (Nat × Binding) := do
  let n ← name.label
  match m.scopes.findVariable? s n.key, m.scopes.holder? s n.key with
  | some b, some t => if b.mutable then return (t, b) else throw (.run (.immutable name.shown))
  | _, _ => throw (.run (.undeclared name.shown))

/-- The block of the first case without a value. -/
def default? : List Case → Except Failure (Option (List Stmt))
  | [] => .ok none
  | .otherwise b :: _ => .ok (some b)
  | .blockless none :: _ => .error (.tree .missingPart)
  | _ :: cs => default? cs

/-- Binds the parameters of a function, from the one at a place on, to arguments. -/
def bindArguments (s : Nat) (f : Option Signature) :
    (place : Nat) → List Param → List Value → Exec Unit
  | place, p :: ps, v :: vs => do
    match p with
    | .typed n _ | .untyped n =>
      define s n ⟨false, v, f.map fun f => ⟨f.declaration, some place⟩⟩
    | .hole h => fail h.partFailure
    bindArguments s f (place + 1) ps vs
  | _, _, _ => return ()

end Machine

end Scriptlet
