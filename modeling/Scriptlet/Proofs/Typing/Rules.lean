import Mathlib.Data.List.Forall2
import Scriptlet.Analysis.Annotate
import Scriptlet.Proofs.Typing.Operators

/-! # The typing rules

The rules by which a program is well typed, stated without scopes, tables and messages. A context
lists the variables and functions in force, the latest first; a block sees what is in force around
it, and what is declared in it is forgotten at its end. The rules speak about programs whose slots
are filled, so that the filled program is the record of its own derivation: the slots hold the types
of all expressions, the variables that names mean and the functions that calls mean. What a filled
program was written as is `erase`, which empties all slots.

* `Expr.HasType`, `Stmt.Typed`, `GlobalDecl.Typed`, `FuncDecl.Typed`, `Program.Typed`: the rules.
* `Program.Derives p q`: the program `p` is well typed, and `q` is the record of a derivation. -/

namespace Scriptlet

/-! ### Contexts -/

/-- Whether a table knows a name by a key. -/
def Name.isKnownAs (n : Name) (k : Key) : Bool :=
  match n.key with
  | .ok l => l = k
  | .error _ => false

/-- What is in force at a place of a program: variables and functions, the latest first, and the
number of the next declaration. -/
structure Context where
  vars : List Variable
  funs : List Signature
  next : Nat

namespace Context

/-- The variable that a name means. -/
def findVariable? (Γ : Context) (k : Key) : Option Variable :=
  Γ.vars.find? fun v => v.name.isKnownAs k

/-- The function that a name with a number of arguments means. -/
def findFunction? (Γ : Context) (k : Key) (arity : Nat) : Option Signature :=
  Γ.funs.find? fun f => f.name.isKnownAs k && f.arity = arity

/-- The context of a program: only the built-in function is known. -/
def start : Context := ⟨[], [Analyzer.printSignature], 1⟩

/-- The context after the declaration of a variable. -/
def declare (Γ : Context) (v : Variable) : Context :=
  { Γ with vars := v :: Γ.vars, next := Γ.next + 1 }

/-- The context after the declaration of a function. -/
def declareFunction (Γ : Context) (f : Signature) : Context :=
  { Γ with funs := f :: Γ.funs, next := Γ.next + 1 }

/-- The context inside a function whose parameters are given variables. -/
def enter (Γ : Context) (params : List Variable) : Context :=
  { Γ with vars := params.reverse ++ Γ.vars }

/-- The context after a block that ends with the context `Γ'`: only the numbers are used up. -/
def leave (Γ Γ' : Context) : Context :=
  { Γ with next := Γ'.next }

end Context

/-! ### Expressions -/

/-- Whether a name written for a type denotes the type. -/
def Name.Denotes (n : Name) (t : Ty) : Prop :=
  t ∈ Ty.named ∧ n = .text t.name

/-- The typing rules of literals. -/
inductive LiteralRule : Datum → LiteralKind → Ty → Prop where
  | nil : LiteralRule (.plain .null) .nil .nil
  | boolean (b : Bool) : LiteralRule (.plain (.bool b)) .boolean .boolean
  /-- Integers are in the range of 32 bits. -/
  | integer {n : Int} (hmin : minInteger ≤ n) (hmax : n ≤ maxInteger) :
    LiteralRule (.plain (.int n)) .integer .integer
  /-- The rounded magnitude of a decimal does not exceed the largest one. -/
  | decimal {d m : Decimal} (habs : Decimal.abs .working d = .ok m)
    (hmax : Decimal.less maxDecimal m = .ok false) : LiteralRule (.decimal d) .decimal .decimal
  | character (s : String) : LiteralRule (.plain (.str s)) .character .character
  | string (s : String) : LiteralRule (.plain (.str s)) .string .string

mutual

/-- The typing rules of expressions: an expression has a type in a context. -/
inductive Expr.HasType (Γ : Context) : Expr → Ty → Prop where
  | literal {v : Datum} {k : LiteralKind} {t : Ty} (hrule : LiteralRule v k t) :
    Expr.HasType Γ (.literal v k (some t)) t
  | group {e : Expr} {t : Ty} (he : Expr.HasType Γ e t) : Expr.HasType Γ (.group e (some t)) t
  | binary {op : String} {l r : Expr} {tl tr t : Ty} (hl : Expr.HasType Γ l tl)
    (hr : Expr.HasType Γ r tr) (hrule : OperatorRule op tl tr t) :
    Expr.HasType Γ (.binary op l r (some t)) t
  /-- A name has the type of the variable it means. -/
  | name {x : Name} {k : Key} {v : Variable} {t : Ty} (hk : x.key = .ok k)
    (hv : Γ.findVariable? k = some v) (ht : v.type = t) :
    Expr.HasType Γ (.name x (some v) (some t)) t
  /-- An element of a list has the type of the elements. -/
  | index {x : Name} {o : Expr} {k : Key} {v : Variable} {i t : Ty} (ho : Expr.HasType Γ o i)
    (hi : Ty.integer.assignable i = true) (hk : x.key = .ok k) (hv : Γ.findVariable? k = some v)
    (ht : v.type = .list t) : Expr.HasType Γ (.index x o (some v) (some t)) t
  /-- A call means a function by its name and the number of its arguments. -/
  | call {x : Name} {args : List Expr} {ts : List Ty} {k : Key} {f : Signature} {t : Ty}
    (hargs : Expr.HaveTypes Γ args ts) (hk : x.key = .ok k)
    (hf : Γ.findFunction? k args.length = some f)
    (hparams : List.Forall₂ (fun p s => Ty.assignable p s = true) f.params ts)
    (ht : f.returns = t) : Expr.HasType Γ (.call x args (some f) (some t)) t
  /-- The first item gives the type of the elements of a list. -/
  | list {e : Expr} {es : List Expr} {t : Ty} {ts : List Ty}
    (hes : Expr.HaveTypes Γ (e :: es) (t :: ts)) (hts : ∀ s ∈ ts, t.assignable s = true) :
    Expr.HasType Γ (.list (e :: es) (some (.list t))) (.list t)

/-- Expressions have types, one by one. -/
inductive Expr.HaveTypes (Γ : Context) : List Expr → List Ty → Prop where
  | nil : Expr.HaveTypes Γ [] []
  | cons {e : Expr} {es : List Expr} {t : Ty} {ts : List Ty} (he : Expr.HasType Γ e t)
    (hes : Expr.HaveTypes Γ es ts) : Expr.HaveTypes Γ (e :: es) (t :: ts)

end

/-! ### Statements -/

/-- The typing rules of declarations: the type of a variable that is declared with a written type,
an initial value, or both. -/
inductive Declares (Γ : Context) : Option Name → Option Expr → Ty → Prop where
  | written {n : Name} {t : Ty} (hn : n.Denotes t) : Declares Γ (some n) none t
  | inferred {e : Expr} {t : Ty} (he : e.HasType Γ t) : Declares Γ none (some e) t
  | checked {n : Name} {e : Expr} {t s : Ty} (hn : n.Denotes t) (he : e.HasType Γ s)
    (hts : t.assignable s = true) : Declares Γ (some n) (some e) t

/-- The variable that an assignment to an expression changes, or changes an element of. -/
def Expr.receiver? : Expr → Option Variable
  | .name _ v _ => v
  | .index _ _ v _ => v
  | _ => none

mutual

/-- The typing rules of statements: a statement is well typed in a context and leads to another. -/
inductive Stmt.Typed : Context → Stmt → Context → Prop where
  | expr {Γ : Context} {e : Expr} {t : Ty} (he : e.HasType Γ t) : Stmt.Typed Γ (.expr e) Γ
  | declare {Γ : Context} {n : Option Name} {name : Name} {value : Option Expr} {k : Key} {t : Ty}
    {v : Variable} (ht : Declares Γ n value t) (hk : name.key = .ok k)
    (hv : v = ⟨name, true, t, ⟨Γ.next, none⟩⟩) :
    Stmt.Typed Γ (.declare name n value (some v)) (Γ.declare v)
  /-- Only variables that can change are assigned to. -/
  | assign {Γ : Context} {r e : Expr} {v : Variable} {t s : Ty} (hr : r.HasType Γ t)
    (hv : r.receiver? = some v) (hmut : v.mutable = true) (he : e.HasType Γ s)
    (hts : t.assignable s = true) : Stmt.Typed Γ (.assign r e) Γ
  /-- The first block of a branch is not empty. -/
  | branch {Γ Γ₁ Γ₂ : Context} {c : Expr} {s : Ty} {x : Stmt} {xs ys : List Stmt}
    (hc : c.HasType Γ s) (hs : Ty.boolean.assignable s = true)
    (hthen : Stmt.BlockTyped Γ (x :: xs) Γ₁) (helse : Stmt.BlockTyped (Γ.leave Γ₁) ys Γ₂) :
    Stmt.Typed Γ (.branch c (x :: xs) ys) (Γ.leave Γ₂)
  | switch {Γ Γ' : Context} {c : Expr} {t : Ty} {cs : List Case} (hc : c.HasType Γ t)
    (hcs : Case.ListTyped Γ t cs Γ') : Stmt.Typed Γ (.switch c cs) Γ'
  | loop {Γ Γ' : Context} {c : Expr} {s : Ty} {b : List Stmt} (hc : c.HasType Γ s)
    (hs : Ty.boolean.assignable s = true) (hb : Stmt.BlockTyped Γ b Γ') :
    Stmt.Typed Γ (.loop c b) (Γ.leave Γ')
  | ret {Γ : Context} {e : Expr} {t : Ty} (he : e.HasType Γ t) : Stmt.Typed Γ (.ret e) Γ

/-- The statements of a block are well typed one after the other. -/
inductive Stmt.BlockTyped : Context → List Stmt → Context → Prop where
  | nil {Γ : Context} : Stmt.BlockTyped Γ [] Γ
  | cons {Γ Γ₁ Γ₂ : Context} {x : Stmt} {xs : List Stmt} (hx : Stmt.Typed Γ x Γ₁)
    (hxs : Stmt.BlockTyped Γ₁ xs Γ₂) : Stmt.BlockTyped Γ (x :: xs) Γ₂

/-- The typing rules of cases: the value of a case is assignable to the type of the condition. -/
inductive Case.Typed : Context → Ty → Case → Context → Prop where
  | equals {Γ Γ' : Context} {t s : Ty} {e : Expr} {b : List Stmt} (he : e.HasType Γ s)
    (hts : t.assignable s = true) (hb : Stmt.BlockTyped Γ b Γ') :
    Case.Typed Γ t (.equals e b) (Γ.leave Γ')
  | otherwise {Γ Γ' : Context} {t : Ty} {b : List Stmt} (hb : Stmt.BlockTyped Γ b Γ') :
    Case.Typed Γ t (.otherwise b) (Γ.leave Γ')

/-- The cases of a switch are well typed one after the other. -/
inductive Case.ListTyped : Context → Ty → List Case → Context → Prop where
  | nil {Γ : Context} {t : Ty} : Case.ListTyped Γ t [] Γ
  | cons {Γ Γ₁ Γ₂ : Context} {t : Ty} {c : Case} {cs : List Case} (hc : Case.Typed Γ t c Γ₁)
    (hcs : Case.ListTyped Γ₁ t cs Γ₂) : Case.ListTyped Γ t (c :: cs) Γ₂

end

/-! ### Declarations -/

/-- Whether an expression is a list of items. -/
def Expr.isItemized : Expr → Bool
  | .list _ _ => true
  | _ => false

/-- The type that is declared by a type name: for a list the name is that of its elements. -/
def GlobalDecl.listed (d : GlobalDecl) (t : Ty) : Ty :=
  if d.isList then .list t else t

/-- The typing rules of globals. A list of items is held against the declared type of the elements;
everything else is as for other declarations. -/
inductive GlobalDecl.Declares (Γ : Context) (d : GlobalDecl) : Ty → Prop where
  | written {n : Name} {t : Ty} (hd : d.typeName = some n) (hn : n.Denotes t)
    (hvalue : d.value = none) : GlobalDecl.Declares Γ d (d.listed t)
  | inferred {e : Expr} {t : Ty} (hd : d.typeName = none) (hvalue : d.value = some e)
    (he : e.HasType Γ t) : GlobalDecl.Declares Γ d t
  | checked {n : Name} {e : Expr} {t s : Ty} (hd : d.typeName = some n) (hn : n.Denotes t)
    (hvalue : d.value = some e) (hform : d.isList = true → e.isItemized = false)
    (he : e.HasType Γ s) (hts : (d.listed t).assignable s = true) :
    GlobalDecl.Declares Γ d (d.listed t)
  | items {n : Name} {es : List Expr} {t : Ty} {ts : List Ty} (hd : d.typeName = some n)
    (hn : n.Denotes t) (hlist : d.isList = true)
    (hvalue : d.value = some (.list es (some (.list t)))) (hes : Expr.HaveTypes Γ es ts)
    (hts : ∀ s ∈ ts, t.assignable s = true) : GlobalDecl.Declares Γ d (.list t)

/-- A global is bound after its initial value. -/
inductive GlobalDecl.Typed (Γ : Context) (d : GlobalDecl) : Context → Prop where
  | intro {t : Ty} {k : Key} {v : Variable} (ht : d.Declares Γ t) (hk : d.name.key = .ok k)
    (hv : v = ⟨d.name, d.mutable, t, ⟨Γ.next, none⟩⟩) (hslot : d.declared = some v) :
    GlobalDecl.Typed Γ d (Γ.declare v)

/-- The type of a parameter: `Any` unless a type is written. -/
inductive Param.HasType : Param → Ty → Prop where
  | any (x : Name) : Param.HasType (.typed x none) .any
  | written {x n : Name} {t : Ty} (hn : n.Denotes t) : Param.HasType (.typed x (some n)) t

/-- The type that a function returns: `Nil` unless a type is written. -/
inductive Returns : Option Name → Ty → Prop where
  | nil : Returns none .nil
  | written {n : Name} {t : Ty} (hn : n.Denotes t) : Returns (some n) t

/-- The variables of the parameters of a declaration, from the one at a place on. Parameters cannot
be assigned to. -/
def paramVariables (declaration : Nat) : (place : Nat) → List Param → List Ty → List Variable
  | place, p :: ps, t :: ts =>
    ((Analysis.paramName? p).map fun x =>
      (⟨x, false, t, ⟨declaration, some place⟩⟩ : Variable)).toList ++
        paramVariables declaration (place + 1) ps ts
  | _, _, _ => []

/-- A function is bound before its body. A return that stands directly in the body is held against
the type that the function returns. -/
inductive FuncDecl.Typed (Γ : Context) (d : FuncDecl) : Context → Prop where
  | intro {ps : List Ty} {r : Ty} {k : Key} {f : Signature} {Γ' : Context}
    (hps : List.Forall₂ Param.HasType d.params ps) (hr : Returns d.returnTypeName r)
    (hk : d.name.key = .ok k) (hf : f = ⟨d.name, ps, r, Γ.next⟩) (hslot : d.signature = some f)
    (hkeys : ∀ v ∈ paramVariables Γ.next 0 d.params ps, ∃ k, v.name.key = .ok k)
    (hbody : Stmt.BlockTyped ((Γ.declareFunction f).enter (paramVariables Γ.next 0 d.params ps))
      d.body Γ')
    (hret : ∀ e, Stmt.ret e ∈ d.body → ∃ t, e.type? = some t ∧ r.assignable t = true) :
    FuncDecl.Typed Γ d ((Γ.declareFunction f).leave Γ')

/-- The globals are well typed one after the other. -/
inductive Global.ListTyped : Context → List Global → Context → Prop where
  | nil {Γ : Context} : Global.ListTyped Γ [] Γ
  | cons {Γ Γ₁ Γ₂ : Context} {d : GlobalDecl} {gs : List Global} (hd : d.Typed Γ Γ₁)
    (hgs : Global.ListTyped Γ₁ gs Γ₂) : Global.ListTyped Γ (.decl d :: gs) Γ₂

/-- The functions are well typed one after the other. -/
inductive Func.ListTyped : Context → List Func → Context → Prop where
  | nil {Γ : Context} : Func.ListTyped Γ [] Γ
  | cons {Γ Γ₁ Γ₂ : Context} {d : FuncDecl} {fs : List Func} (hd : d.Typed Γ Γ₁)
    (hfs : Func.ListTyped Γ₁ fs Γ₂) : Func.ListTyped Γ (.decl d :: fs) Γ₂

/-- A program is well typed: its globals, then its functions. -/
inductive Program.Typed (p : Program) : Context → Prop where
  | intro {Γ₁ Γ₂ : Context} (hglobals : Global.ListTyped .start p.globals Γ₁)
    (hfunctions : Func.ListTyped Γ₁ p.functions Γ₂) : Program.Typed p Γ₂

/-! ### What a filled program was written as -/

mutual

/-- An expression with empty slots. -/
def Expr.erase : Expr → Expr
  | .literal v k _ => .literal v k none
  | .group e _ => .group e.erase none
  | .binary op l r _ => .binary op l.erase r.erase none
  | .name x _ _ => .name x none none
  | .index x o _ _ => .index x o.erase none none
  | .call x args _ _ => .call x (Expr.eraseAll args) none none
  | .list vs _ => .list (Expr.eraseAll vs) none
  | .hole h => .hole h
termination_by structural e => e

/-- Expressions with empty slots. -/
def Expr.eraseAll : List Expr → List Expr
  | [] => []
  | e :: es => e.erase :: Expr.eraseAll es
termination_by structural es => es

end

mutual

/-- A statement with empty slots. -/
def Stmt.erase : Stmt → Stmt
  | .expr e => .expr e.erase
  | .declare x n value _ => .declare x n (value.map Expr.erase) none
  | .assign r e => .assign r.erase e.erase
  | .branch c t e => .branch c.erase (Stmt.eraseBlock t) (Stmt.eraseBlock e)
  | .switch c cs => .switch c.erase (Case.eraseAll cs)
  | .loop c b => .loop c.erase (Stmt.eraseBlock b)
  | .ret e => .ret e.erase
  | .hole h => .hole h
termination_by structural x => x

/-- A block with empty slots. -/
def Stmt.eraseBlock : List Stmt → List Stmt
  | [] => []
  | x :: xs => x.erase :: Stmt.eraseBlock xs
termination_by structural xs => xs

/-- A case with empty slots. -/
def Case.erase : Case → Case
  | .equals e b => .equals e.erase (Stmt.eraseBlock b)
  | .otherwise b => .otherwise (Stmt.eraseBlock b)
  | .blockless e => .blockless (e.map Expr.erase)
  | .hole h => .hole h
termination_by structural c => c

/-- Cases with empty slots. -/
def Case.eraseAll : List Case → List Case
  | [] => []
  | c :: cs => c.erase :: Case.eraseAll cs
termination_by structural cs => cs

end

/-- A declaration of a global with empty slots. -/
def GlobalDecl.erase (d : GlobalDecl) : GlobalDecl :=
  { d with value := d.value.map Expr.erase, declared := none }

/-- A member of the globals with empty slots. -/
def Global.erase : Global → Global
  | .decl d => .decl d.erase
  | .fragment x n value => .fragment x n (value.map (Option.map Expr.erase))
  | .hole h => .hole h

/-- A declaration of a function with empty slots. -/
def FuncDecl.erase (d : FuncDecl) : FuncDecl :=
  { d with body := Stmt.eraseBlock d.body, signature := none }

/-- A member of the functions with empty slots. -/
def Func.erase : Func → Func
  | .decl d => .decl d.erase
  | .hole h => .hole h

/-- A program with empty slots. -/
def Program.erase (p : Program) : Program :=
  ⟨p.globals.map Global.erase, p.functions.map Func.erase⟩

/-- Whether a program is well typed and `q` is the record of a derivation. -/
structure Program.Derives (p q : Program) : Prop where
  written : q.erase = p
  typed : ∃ Γ, q.Typed Γ

end Scriptlet
