import Scriptlet.Analysis.Annotate
import Scriptlet.Machine.Run
import Scriptlet.Source

/-! # Sessions

A session keeps one analysis and one machine through any number of programs, blocks and expressions.
What fails leaves behind what it did until then. -/

namespace Scriptlet

/-- An analysis and a machine that go together, with the tracer of both. -/
structure Session where
  tracer : Tracer
  /-- The steps that each run may take. -/
  steps : Nat
  analyzer : Analyzer := .fresh
  machine : Machine := .fresh
  deriving Inhabited

namespace Session

/-- The lines traced since they were last forgotten: the analysis comes first. -/
def trace (s : Session) : List String :=
  s.analyzer.trace.toList ++ s.machine.trace.toList

/-- Forgets what was printed and traced. -/
def quiet (s : Session) : Session :=
  { s with
    analyzer := { s.analyzer with trace := #[] }
    machine := { s.machine with output := #[], trace := #[] } }

/-- Takes a step of analysis. -/
def analyzeWith {α β : Type} (s : Session) (x : StateM Analyzer (α × Except Failure β)) :
    Except Failure (α × β) × Session :=
  let ((tree, verdict), a) := x.run s.analyzer
  (verdict.map (tree, ·), { s with analyzer := a })

/-- Runs a computation on the machine. -/
def perform {α : Type} (s : Session) (x : (fuel : Nat) → Exec α) : Except Stop α × Session :=
  let (r, m) := s.machine.execute s.steps x
  (r, { s with machine := m })

/-- Analyzes a program; the result is the program with its slots written. -/
def check (s : Session) (p : Program) : Except Failure Program × Session :=
  let (r, s) := s.analyzeWith (Analysis.program s.tracer p)
  (r.map (·.1), s)

/-- Analyzes a block in the root scope. -/
def checkBlock (s : Session) (b : List Stmt) : Except Failure (List Stmt) × Session :=
  let (r, s) := s.analyzeWith (Analysis.block s.tracer s.analyzer.root b)
  (r.map (·.1), s)

/-- Analyzes an expression in the root scope. -/
def checkExpr (s : Session) (e : Expr) : Except Failure (Expr × Ty) × Session :=
  s.analyzeWith (Analysis.expr s.tracer s.analyzer.root e)

/-- Defines the globals and functions of a program. -/
def load (s : Session) (p : Program) : Except Stop Unit × Session :=
  s.perform fun fuel => Machine.load s.tracer fuel p

/-- Runs a program. -/
def run (s : Session) (p : Program) : Except Stop Value × Session :=
  s.perform fun fuel => Machine.run s.tracer fuel p

/-- Executes a block in the root scope. -/
def runBlock (s : Session) (b : List Stmt) : Except Stop (Option Value) × Session :=
  s.perform fun fuel => Machine.block s.tracer fuel Machine.root b

/-- Evaluates an expression in the root scope. -/
def runExpr (s : Session) (e : Expr) : Except Stop Value × Session :=
  s.perform fun fuel => Machine.eval s.tracer fuel Machine.root e

/-- Calls a function by name. -/
def call (s : Session) (name : Text) (args : List Value) : Except Stop Value × Session :=
  s.perform fun fuel => do
    let c ← Machine.lift ((← get).scopes.lookupFunction Machine.root (.text name) args.length)
    Machine.call s.tracer fuel c args

/-- Puts a list of the surroundings on the heap. -/
def newList (s : Session) (items : List Value) : Value × Session :=
  let (a, h) := s.machine.heap.alloc items.toArray
  (.list a, { s with machine := { s.machine with heap := h } })

/-- Binds a variable for analysis and on the machine. -/
def bind (s : Session) (name : Text) (mutable : Bool) (type : Ty) (v : Value) : Session :=
  let origin := ⟨s.analyzer.next, none⟩
  { s with
    analyzer := s.analyzer.bindVariable s.analyzer.root name mutable type
    machine := { s.machine with
      scopes := s.machine.scopes.defineVariable Machine.root (.text name)
        (some ⟨mutable, v, some origin⟩) } }

/-- Binds a name to something callable on the machine alone. -/
def bindCallable (s : Session) (name : Text) (arity : Nat) (c : Callable) : Session :=
  { s with machine := { s.machine with
      scopes := s.machine.scopes.defineFunction Machine.root (.text name) arity (some c) } }

/-- Binds a function of the surroundings: its parameters take anything. -/
def bindHost (s : Session) (name : Text) (arity : Nat) (returns : Ty) : Session :=
  let s := { s with
    analyzer := s.analyzer.bindFunction s.analyzer.root name (List.replicate arity .any) returns }
  s.bindCallable name arity (.host name.shown arity)

/-- The functions of the machine as they are shown, in order. -/
def callables (s : Session) : Except Failure (List String) := do
  let shown ← (s.machine.scopes.functionsOf Machine.root).mapM
    (Machine.showCallable s.machine.heap)
  return shown.mergeSort fun x y => x ≤ y

end Session

end Scriptlet
