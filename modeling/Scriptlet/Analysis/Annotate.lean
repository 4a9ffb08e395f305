import Scriptlet.Analysis.Rules
import Scriptlet.Scope
import Scriptlet.Tracer

/-! # Analysis

The analysis walks a program once, from its globals to its functions. It finds the variable that
each name means, the function that each call means and the type of each expression, writes them into
the slots of the tree and checks the typing rules on the way. The first violation ends the walk;
what was written and bound until then stays.

A slot is written once. A function is bound before its body is walked, so it can call itself and the
functions before it. Only returns that stand directly in a body are held against the signature. -/

namespace Scriptlet

/-- The state of an analysis. -/
structure Analyzer where
  scopes : Forest Variable Signature
  /-- The scope of the globals and functions. -/
  root : Nat
  /-- The number of the next declaration. -/
  next : Nat
  /-- The lines traced so far. -/
  trace : Array String
  deriving Inhabited

namespace Analyzer

/-- The signature of the built-in function that prints. -/
def printSignature : Signature := ⟨.text "print", [.any], .nil, 0⟩

/-- An analysis inside the last scope of a forest, before its first declaration. -/
def inside (scopes : Forest Variable Signature) (parent next : Nat) : Analyzer :=
  let root := scopes.size
  let scopes := scopes.addChild parent
  ⟨scopes.defineFunction root (.text "print") 1 (some printSignature), root, next, #[]⟩

/-- An analysis that knows only the built-in function. -/
def fresh : Analyzer :=
  ⟨(Forest.addRoot {}).defineFunction 0 (.text "print") 1 (some printSignature), 0, 1, #[]⟩

/-- Binds a variable from outside a program. -/
def bindVariable (a : Analyzer) (s : Nat) (name : Text) (mutable : Bool) (type : Ty) : Analyzer :=
  { a with
    scopes :=
      a.scopes.defineVariable s (.text name) (some ⟨.text name, mutable, type, ⟨a.next, none⟩⟩)
    next := a.next + 1 }

/-- Binds a function from outside a program. -/
def bindFunction (a : Analyzer) (s : Nat) (name : Text) (params : List Ty) (returns : Ty) :
    Analyzer :=
  { a with
    scopes :=
      a.scopes.defineFunction s (.text name) params.length
        (some ⟨.text name, params, returns, a.next⟩)
    next := a.next + 1 }

/-- The signatures of the functions of the root scope, in order of their texts. -/
def signatures (a : Analyzer) : List String :=
  ((a.scopes.functionsOf a.root).map (·.text.shown)).mergeSort fun x y => x ≤ y

end Analyzer

namespace Analysis

variable (tracer : Tracer)

/-! ### Steps -/

/-- Traces a line at and above a level, unless the trace does not take it. -/
def say (least : Int) (line : Text) : StateM Analyzer (Except Failure Unit) :=
  modifyGet fun a =>
    if least ≤ tracer.level then
      match tracer.write line with
      | .ok s => (.ok (), { a with trace := a.trace.push s })
      | .error f => (.error f, a)
    else (.ok (), a)

/-- Traces a line and gives a tree with a verdict; if the trace does not take the line, that is the
verdict. -/
def saying {α β : Type} (least : Int) (line : Text) (tree : α) (verdict : β) :
    StateM Analyzer (α × Except Failure β) := do
  match ← say tracer least line with
  | .error f => return (tree, .error f)
  | .ok _ => return (tree, .ok verdict)

/-- The number of a new declaration. -/
def number : StateM Analyzer Nat :=
  modifyGet fun a => (a.next, { a with next := a.next + 1 })

/-- A new scope inside another. -/
def child (s : Nat) : StateM Analyzer Nat :=
  modifyGet fun a => (a.scopes.size, { a with scopes := a.scopes.addChild s })

/-- Binds a variable in a scope, unless its name cannot be looked up. -/
def define (s : Nat) (v : Variable) : StateM Analyzer (Except Failure Unit) := do
  match v.name.label with
  | .error f => return .error f
  | .ok n =>
    modify fun a => { a with scopes := a.scopes.defineVariable s n (some v) }
    return .ok ()

/-- Binds a function in a scope, unless its name cannot be looked up. -/
def defineFunction (s : Nat) (f : Signature) : StateM Analyzer (Except Failure Unit) := do
  match f.name.label with
  | .error e => return .error e
  | .ok n =>
    modify fun a => { a with scopes := a.scopes.defineFunction s n f.arity (some f) }
    return .ok ()

/-- The failure to write a slot that is written. -/
def resolved {α : Type} (tag : Tag) (slot : String) : Except Failure α :=
  .error (.tree (.alreadyResolved tag slot))

/-- Writes the type of an expression into its slot. -/
def settle (tag : Tag) (slot : Option Ty) (t : Ty) (rebuild : Option Ty → Expr) :
    Expr × Except Failure Ty :=
  match slot with
  | none => (rebuild (some t), .ok t)
  | some _ => (rebuild slot, resolved tag "type")

/-! ### Expressions -/

/-- The end of the analysis of a list: the type of its items is known by now. -/
def settleList (vs : List Expr) (slot : Option Ty) (r : Except Failure (Option Ty)) :
    Expr × Except Failure Ty :=
  match r with
  | .error f => (.list vs slot, .error f)
  | .ok none => (.list vs slot, .error (.tree .missingPart))
  | .ok (some t) => settle .listLit slot (.list t) (.list vs)

mutual

/-- Analyzes an expression: its tree with the slots written, and its type or a failure. -/
def expr (s : Nat) : Expr → StateM Analyzer (Expr × Except Failure Ty)
  | .literal v k slot =>
    match literalType v k with
    | .error f => return (.literal v k slot, .error f)
    | .ok t => return settle .literal slot t (.literal v k)
  | .group e slot => do
    let (e, r) ← expr s e
    match r with
    | .error f => return (.group e slot, .error f)
    | .ok t => return settle .group slot t (.group e)
  | .binary op l r slot => do
    let (l, lt) ← expr s l
    match lt with
    | .error f => return (.binary op l r slot, .error f)
    | .ok lt =>
      let (r, rt) ← expr s r
      match rt.bind (binaryType op lt) with
      | .error f => return (.binary op l r slot, .error f)
      | .ok t => return settle .binaryOp slot t (.binary op l r)
  | .name n m slot => do
    let a ← get
    match a.scopes.lookupVariable s n with
    | .error f => return (.name n m slot, .error f)
    | .ok v =>
      match m with
      | some _ => return (.name n m slot, resolved .access "variable")
      | none => return settle .access slot v.type (.name n (some v))
  | .index n o m slot => do
    let (o, ot) ← expr s o
    let a ← get
    let found : Except Failure Variable := do
      requireAssignable .integer (← ot)
      a.scopes.lookupVariable s n
    match found with
    | .error f => return (.index n o m slot, .error f)
    | .ok v =>
      match m with
      | some _ => return (.index n o m slot, resolved .access "variable")
      | none =>
        match v.type.element? with
        | none => return (.index n o (some v) slot, .error (.type (.notIndexable n.shown v.type)))
        | some t => return settle .access slot t (.index n o (some v))
  | .call n args target slot => do
    let (args, ts) ← exprs s args
    let a ← get
    let found : Except Failure Signature := do
      let ts ← ts
      let f ← a.scopes.lookupFunction s n args.length
      requireArguments f.params ts
      return f
    match found with
    | .error f => return (.call n args target slot, .error f)
    | .ok f =>
      match target, slot with
      | some _, _ => return (.call n args target slot, resolved .call "function")
      | none, some _ => return (.call n args (some f) slot, resolved .call "type")
      | none, none =>
        saying tracer 3
          (.plain "call " ++ n.toText ++
            .plain ("/" ++ toString args.length ++ " -> " ++ f.returns.name))
          (.call n args (some f) (some f.returns)) f.returns
  | .list vs slot => do
    let (vs, r) ← items s none vs
    return settleList vs slot r
  | .hole h => return (.hole h, .error (h.failure .analyzeExpression))
termination_by structural e => e

/-- Analyzes expressions one after the other. -/
def exprs (s : Nat) : List Expr → StateM Analyzer (List Expr × Except Failure (List Ty))
  | [] => return ([], .ok [])
  | e :: es => do
    let (e, t) ← expr s e
    match t with
    | .error f => return (e :: es, .error f)
    | .ok t =>
      let (es, ts) ← exprs s es
      return (e :: es, ts.map (t :: ·))
termination_by structural es => es

/-- Analyzes the items of a list. Each must be assignable to the type of the items, which the first
one gives unless it is known. -/
def items (s : Nat) (element : Option Ty) :
    List Expr → StateM Analyzer (List Expr × Except Failure (Option Ty))
  | [] => return ([], .ok element)
  | e :: es => do
    let (e, t) ← expr s e
    let known : Except Failure Ty := do
      let t ← t
      let known := element.getD t
      requireAssignable known t
      return known
    match known with
    | .error f => return (e :: es, .error f)
    | .ok known =>
      let (es, r) ← items s (some known) es
      return (e :: es, r)
termination_by structural es => es

end

/-! ### Statements -/

/-- Whether a block counts as empty: it has no statements, or it is missing. -/
def isEmptyBlock : List Stmt → Bool
  | [] => true
  | [.hole (.sequence k)] => k = .none
  | _ => false

/-- Analyzes an initial value against the declared type, if there is one; gives the type of the
variable. -/
def initial (s : Nat) (declared : Option Ty) :
    Option Expr → StateM Analyzer (Option Expr × Except Failure (Option Ty))
  | none => return (none, .ok declared)
  | some e => do
    let (e, t) ← expr tracer s e
    let type : Except Failure (Option Ty) := do
      let t ← t
      let type := declared.getD t
      requireAssignable type t
      return some type
    return (some e, type)

/-- The type that a name written in a declaration stands for. -/
def declaredType : Option Name → Except Failure (Option Ty)
  | some n => (typeNamed n).map some
  | none => .ok none

mutual

/-- Analyzes a statement. -/
def stmt (s : Nat) : Stmt → StateM Analyzer (Stmt × Except Failure Unit)
  | .expr e => do
    let (e, t) ← expr tracer s e
    return (.expr e, t.map fun _ => ())
  | .declare n typeName value slot => do
    if typeName.isNone && value.isNone then
      return (.declare n typeName value slot, .error (.type (.localNeedsType n.shown)))
    match declaredType typeName with
    | .error f => return (.declare n typeName value slot, .error f)
    | .ok declared =>
      let (value, type) ← initial tracer s declared value
      match type with
      | .error f => return (.declare n typeName value slot, .error f)
      | .ok type =>
        let type := type.getD .any
        let v : Variable := ⟨n, true, type, ⟨← number, none⟩⟩
        match ← define s v, slot with
        | .error f, _ => return (.declare n typeName value slot, .error f)
        | .ok _, some _ => return (.declare n typeName value slot, resolved .varDecl "variable")
        | .ok _, none =>
          saying tracer 2 (.plain "declare " ++ n.toText ++ .plain (": " ++ type.name))
            (.declare n typeName value (some v)) ()
  | .assign receiver value => do
    let isPlace := match receiver with
      | .name .. | .index .. => true
      | _ => false
    if !isPlace then return (.assign receiver value, .error (.type .badReceiver))
    let (receiver, rt) ← expr tracer s receiver
    let wanted : Except Failure Ty := do
      let rt ← rt
      match receiver with
      | .name n (some v) _ | .index n _ (some v) _ =>
        if v.mutable then return rt else throw (.type (.immutable n.shown))
      | _ => return rt
    match wanted with
    | .error f => return (.assign receiver value, .error f)
    | .ok wanted =>
      let (value, vt) ← expr tracer s value
      return (.assign receiver value, vt.bind (requireAssignable wanted))
  | .branch c t e => do
    let (c, ct) ← expr tracer s c
    let ready : Except Failure Unit := do
      requireAssignable .boolean (← ct)
      if isEmptyBlock t then throw (.type .emptyBranch)
    match ready with
    | .error f => return (.branch c t e, .error f)
    | .ok _ =>
      let (t, r) ← block (← child s) t
      match r with
      | .error f => return (.branch c t e, .error f)
      | .ok _ =>
        let (e, r) ← block (← child s) e
        return (.branch c t e, r)
  | .switch c cs => do
    let (c, ct) ← expr tracer s c
    match ct with
    | .error f => return (.switch c cs, .error f)
    | .ok ct =>
      let (cs, r) ← cases s ct cs
      return (.switch c cs, r)
  | .loop c b => do
    let (c, ct) ← expr tracer s c
    match ct.bind (requireAssignable .boolean) with
    | .error f => return (.loop c b, .error f)
    | .ok _ =>
      let (b, r) ← block (← child s) b
      return (.loop c b, r)
  | .ret e => do
    let (e, t) ← expr tracer s e
    return (.ret e, t.map fun _ => ())
  | .hole h => return (.hole h, .error (h.failure .analyzeStatement))
termination_by structural x => x

/-- Analyzes the statements of a block in one scope. -/
def block (s : Nat) : List Stmt → StateM Analyzer (List Stmt × Except Failure Unit)
  | [] => return ([], .ok ())
  | x :: xs => do
    let (x, r) ← stmt s x
    match r with
    | .error f => return (x :: xs, .error f)
    | .ok _ =>
      let (xs, r) ← block s xs
      return (x :: xs, r)
termination_by structural xs => xs

/-- Analyzes a case, whose value must be assignable to the type of the condition. -/
def case (s : Nat) (condition : Ty) : Case → StateM Analyzer (Case × Except Failure Unit)
  | .equals v b => do
    let (v, vt) ← expr tracer s v
    match vt.bind (requireAssignable condition) with
    | .error f => return (.equals v b, .error f)
    | .ok _ =>
      let (b, r) ← block (← child s) b
      return (.equals v b, r)
  | .otherwise b => do
    let (b, r) ← block (← child s) b
    return (.otherwise b, r)
  | .blockless none => return (.blockless none, .error (.tree .missingPart))
  | .blockless (some v) => do
    let (v, vt) ← expr tracer s v
    match vt.bind (requireAssignable condition) with
    | .error f => return (.blockless (some v), .error f)
    | .ok _ => return (.blockless (some v), .error (.tree .missingPart))
  | .hole h => return (.hole h, .error h.partFailure)
termination_by structural x => x

/-- Analyzes cases one after the other. -/
def cases (s : Nat) (condition : Ty) : List Case → StateM Analyzer (List Case × Except Failure Unit)
  | [] => return ([], .ok ())
  | x :: xs => do
    let (x, r) ← case s condition x
    match r with
    | .error f => return (x :: xs, .error f)
    | .ok _ =>
      let (xs, r) ← cases s condition xs
      return (x :: xs, r)
termination_by structural xs => xs

end

/-! ### Declarations -/

/-- Analyzes the initial value of a global; a list is held against the type of its items. -/
def globalInitial (s : Nat) (declared : Option Ty) :
    Option Expr → StateM Analyzer (Option Expr × Except Failure (Option Ty))
  | some (.list vs slot) => do
    let (vs, r) ← items tracer s (declared.bind Ty.element?) vs
    let (e, t) := settleList vs slot r
    let type : Except Failure (Option Ty) := do
      let t ← t
      let type := declared.getD t
      requireAssignable type t
      return some type
    return (some e, type)
  | value => initial tracer s declared value

/-- Analyzes a global. -/
def global (s : Nat) : Global → StateM Analyzer (Global × Except Failure Unit)
  | .decl d => do
    if d.typeName.isNone && d.value.isNone then
      return (.decl d, .error (.type (.globalNeedsType d.name.shown)))
    match declaredType d.typeName with
    | .error f => return (.decl d, .error f)
    | .ok declared =>
      let declared := if d.isList then declared.map .list else declared
      let (value, type) ← globalInitial tracer s declared d.value
      let d := { d with value }
      match type with
      | .error f => return (.decl d, .error f)
      | .ok type =>
        let type := type.getD .any
        let v : Variable := ⟨d.name, d.mutable, type, ⟨← number, none⟩⟩
        match ← define s v, d.declared with
        | .error f, _ => return (.decl d, .error f)
        | .ok _, some _ => return (.decl d, resolved .globalDecl "variable")
        | .ok _, none =>
          saying tracer 2 (.plain "global " ++ d.name.toText ++ .plain (": " ++ type.name))
            (.decl { d with declared := some v }) ()
  | .fragment n typeName value => do
    let missing : Except Failure Unit := .error (.tree .missingPart)
    match typeName with
    | none => return (.fragment n typeName value, missing)
    | some (some t) =>
      return (.fragment n typeName value, (typeNamed t).bind fun _ => missing)
    | some none =>
      match value with
      | none => return (.fragment n typeName value, missing)
      | some none => return (.fragment n typeName value, .error (.type (.globalNeedsType n.shown)))
      | some value =>
        let (value, type) ← globalInitial tracer s none value
        return (.fragment n typeName (some value), type.bind fun _ => missing)
  | .hole h => return (.hole h, .error h.partFailure)

/-- The type of a parameter. -/
def paramType : Param → Except Failure Ty
  | .typed _ (some t) => typeNamed t
  | .typed _ none => .ok .any
  | .untyped _ => .error (.tree .missingPart)
  | .hole h => .error h.partFailure

/-- The name of a parameter. -/
def paramName? : Param → Option Name
  | .typed n _ => some n
  | .untyped n => some n
  | .hole _ => none

/-- Binds the parameters of a function, from the one at a place on. -/
def defineParams (s declaration : Nat) :
    (place : Nat) → List Param → List Ty → StateM Analyzer (Except Failure Unit)
  | place, p :: ps, t :: ts => do
    let bound ← match paramName? p with
      | some n => define s ⟨n, false, t, ⟨declaration, some place⟩⟩
      | none => pure (.ok ())
    match bound with
    | .error f => return .error f
    | .ok _ => defineParams s declaration (place + 1) ps ts
  | _, _, _ => return .ok ()

/-- Analyzes the body of a function. A return directly in it is held against the signature. -/
def body (s : Nat) (returns : Ty) : List Stmt → StateM Analyzer (List Stmt × Except Failure Unit)
  | [] => return ([], .ok ())
  | x :: xs => do
    let (x, r) ← stmt tracer s x
    let checked : Except Failure Unit := do
      r
      match x with
      | .ret e => requireAssignable returns (e.type?.getD .any)
      | _ => return ()
    match checked with
    | .error f => return (x :: xs, .error f)
    | .ok _ =>
      let (xs, r) ← body s returns xs
      return (x :: xs, r)

/-- Analyzes a declaration of a function. -/
def funcDecl (s : Nat) (d : FuncDecl) : StateM Analyzer (FuncDecl × Except Failure Unit) := do
  let types : Except Failure (List Ty × Ty) := do
    let ps ← d.params.mapM paramType
    let r ← declaredType d.returnTypeName
    return (ps, r.getD .nil)
  match types with
  | .error f => return (d, .error f)
  | .ok (ps, r) =>
    let n ← number
    let f : Signature := ⟨d.name, ps, r, n⟩
    match ← defineFunction s f, d.signature with
    | .error e, _ => return (d, .error e)
    | .ok _, some _ => return (d, resolved .funcDecl "function")
    | .ok _, none =>
      let d := { d with signature := some f }
      match ← say tracer 2 (.plain "function " ++ f.text) with
      | .error e => return (d, .error e)
      | .ok _ =>
        let inner ← child s
        match ← defineParams inner n 0 d.params ps with
        | .error e => return (d, .error e)
        | .ok _ =>
          let (b, verdict) ← body tracer inner r d.body
          return ({ d with body := b }, verdict)

/-- Analyzes a member of the functions. -/
def func (s : Nat) : Func → StateM Analyzer (Func × Except Failure Unit)
  | .decl d => do
    let (d, r) ← funcDecl tracer s d
    return (.decl d, r)
  | .hole h => return (.hole h, .error h.partFailure)

/-- Analyzes globals one after the other. -/
def globals (s : Nat) : List Global → StateM Analyzer (List Global × Except Failure Unit)
  | [] => return ([], .ok ())
  | g :: gs => do
    let (g, r) ← global tracer s g
    match r with
    | .error f => return (g :: gs, .error f)
    | .ok _ =>
      let (gs, r) ← globals s gs
      return (g :: gs, r)

/-- Analyzes functions one after the other. -/
def functions (s : Nat) : List Func → StateM Analyzer (List Func × Except Failure Unit)
  | [] => return ([], .ok ())
  | f :: fs => do
    let (f, r) ← func tracer s f
    match r with
    | .error e => return (f :: fs, .error e)
    | .ok _ =>
      let (fs, r) ← functions s fs
      return (f :: fs, r)

/-- Analyzes a program: its globals, then its functions. -/
def program (p : Program) : StateM Analyzer (Program × Except Failure Unit) := do
  let root := (← get).root
  let (gs, r) ← globals tracer root p.globals
  match r with
  | .error f => return (⟨gs, p.functions⟩, .error f)
  | .ok _ =>
    let (fs, r) ← functions tracer root p.functions
    match r with
    | .error f => return (⟨gs, fs⟩, .error f)
    | .ok _ =>
      saying tracer 1
        (.plain ("analyzed " ++ toString gs.length ++ " globals, " ++ toString fs.length ++
          " functions")) ⟨gs, fs⟩ ()

variable {tracer} in
/-- An accepted program, with the tree that it is filled to. -/
theorem program_eq_of_ok {p : Program} {a : Analyzer}
    (h : ((program tracer p).run a).1.2 = .ok ()) :
    (program tracer p).run a =
      ((((program tracer p).run a).1.1, .ok ()), ((program tracer p).run a).2) :=
  Prod.ext (Prod.ext rfl h) rfl

end Analysis

end Scriptlet
