import Scriptlet.Node.Basic

/-! # Programs and exchanged trees

Every program has an exchanged tree, in which its slots are left out. Conversely every exchanged
tree stands for a program, in which whatever does not belong where it stands is a hole. -/

namespace Scriptlet

/-! ### From programs to trees -/

/-- A name that may be missing, as data. -/
def nameToJson : Option Name → Json
  | some n => n.toJson
  | none => .null

mutual

/-- The tree of an expression. -/
def Expr.toNode : Expr → Node
  | .literal v k _ => .literal v k.toJson
  | .group e _ => .group e.toNode
  | .binary op l r _ => .binaryOp (.str op) l.toNode r.toNode
  | .name n _ _ => .access n.toJson .null
  | .index n o _ _ => .access n.toJson o.toNode
  | .call n args _ _ => .call n.toJson (.list (Expr.listToNodes args))
  | .list vs _ => .listLit (.list (Expr.listToNodes vs))
  | .hole _ => .null
termination_by structural e => e

/-- The trees of expressions. -/
def Expr.listToNodes : List Expr → List Node
  | [] => []
  | e :: es => e.toNode :: Expr.listToNodes es
termination_by structural es => es

end

/-- The tree of an expression that may be missing. -/
def Expr.optionToNode : Option Expr → Node
  | some e => e.toNode
  | none => .null

mutual

/-- The tree of a statement. -/
def Stmt.toNode : Stmt → Node
  | .expr e => .exprStmt e.toNode
  | .declare n t v _ => .varDecl n.toJson (nameToJson t) (Expr.optionToNode v)
  | .assign r v => .assign r.toNode v.toNode
  | .branch c t e => .ifStmt c.toNode (.list (Stmt.listToNodes t)) (.list (Stmt.listToNodes e))
  | .switch c cs => .switchStmt c.toNode (.list (Case.listToNodes cs))
  | .loop c b => .whileStmt c.toNode (.list (Stmt.listToNodes b))
  | .ret v => .returnStmt v.toNode
  | .hole _ => .null
termination_by structural s => s

/-- The tree of a case. -/
def Case.toNode : Case → Node
  | .equals v b => .case v.toNode (.list (Stmt.listToNodes b))
  | .otherwise b => .case .null (.list (Stmt.listToNodes b))
  | .blockless v => .case (Expr.optionToNode v) .null
  | .hole _ => .null
termination_by structural c => c

/-- The trees of a block. -/
def Stmt.listToNodes : List Stmt → List Node
  | [] => []
  | s :: ss => s.toNode :: Stmt.listToNodes ss
termination_by structural ss => ss

/-- The trees of cases. -/
def Case.listToNodes : List Case → List Node
  | [] => []
  | c :: cs => c.toNode :: Case.listToNodes cs
termination_by structural cs => cs

end

/-- The tree of a parameter. -/
def Param.toNode : Param → Node
  | .typed n t => .funcParam n.toJson (nameToJson t)
  | .untyped n => .funcParam n.toJson .null
  | .hole _ => .null

/-- The tree of a member of the globals. -/
def Global.toNode : Global → Node
  | .decl d =>
    .globalDecl d.name.toJson d.mutable (nameToJson d.typeName) (Expr.optionToNode d.value) d.isList
  | .fragment n t v => .varDecl n.toJson (nameToJson t.join) (Expr.optionToNode v.join)
  | .hole _ => .null

/-- The tree of a member of the functions. -/
def Func.toNode : Func → Node
  | .decl d =>
    .funcDecl d.name.toJson (.list (d.params.map Param.toNode)) (nameToJson d.returnTypeName)
      (.list (Stmt.listToNodes d.body))
  | .hole _ => .null

/-- The tree of a program. -/
def Program.toNode (p : Program) : Node :=
  .source (.list (p.globals.map Global.toNode)) (.list (p.functions.map Func.toNode))

/-! ### From trees to programs -/

/-- A name that may be missing. -/
def nameOfJson : Json → Option Name
  | .null => none
  | j => some (.ofJson j)

mutual

/-- The expression that a tree stands for. -/
def Expr.ofNode : Node → Expr
  | .literal v t => .literal v (.ofJson t) none
  | .group e => .group (Expr.ofNode e) none
  | .binaryOp op l r => .binary op.toText.shown (Expr.ofNode l) (Expr.ofNode r) none
  | .access n o =>
    match o with
    | .null => .name (.ofJson n) none none
    | o => .index (.ofJson n) (Expr.ofNode o) none none
  | .call n args => .call (.ofJson n) (Expr.listOfNode args) none none
  | .listLit vs => .list (Expr.listOfNode vs) none
  | n => .hole (.item n.kind)
termination_by structural n => n

/-- The expressions that a part stands for. -/
def Expr.listOfNode : Node → List Expr
  | .list ns => Expr.ofNodes ns
  | n => [.hole (.sequence n.kind)]
termination_by structural n => n

/-- The expressions that the parts of a sequence stand for. -/
def Expr.ofNodes : List Node → List Expr
  | [] => []
  | n :: ns => Expr.ofNode n :: Expr.ofNodes ns
termination_by structural ns => ns

end

/-- The expression that a part stands for, if it is there. -/
def Expr.ofNode? : Node → Option Expr
  | .null => none
  | n => some (Expr.ofNode n)

/-- What stands in the place of an expression when the datum of a literal is taken for one. -/
def Expr.ofDatum? : Datum → Option Expr
  | .plain .null => none
  | v => some (.hole (.item v.kind))

mutual

/-- The statement that a tree stands for. -/
def Stmt.ofNode : Node → Stmt
  | .exprStmt e => .expr (Expr.ofNode e)
  | .varDecl n t v => .declare (.ofJson n) (nameOfJson t) (Expr.ofNode? v) none
  | .assign r v => .assign (Expr.ofNode r) (Expr.ofNode v)
  | .ifStmt c t e => .branch (Expr.ofNode c) (Stmt.blockOfNode t) (Stmt.blockOfNode e)
  | .switchStmt c cs => .switch (Expr.ofNode c) (Case.listOfNode cs)
  | .whileStmt c b => .loop (Expr.ofNode c) (Stmt.blockOfNode b)
  | .returnStmt v => .ret (Expr.ofNode v)
  | n => .hole (.item n.kind)
termination_by structural n => n

/-- The case that a tree stands for. -/
def Case.ofNode : Node → Case
  | .case v b =>
    match v with
    | .null => .otherwise (Stmt.blockOfNode b)
    | v => .equals (Expr.ofNode v) (Stmt.blockOfNode b)
  | .literal v _ => .blockless (Expr.ofDatum? v)
  | .globalDecl _ _ _ v _ => .blockless (Expr.ofNode? v)
  | .varDecl _ _ v => .blockless (Expr.ofNode? v)
  | .assign _ v => .blockless (Expr.ofNode? v)
  | .returnStmt v => .blockless (Expr.ofNode? v)
  | n => .hole (.item n.kind)
termination_by structural n => n

/-- The block that a part stands for. -/
def Stmt.blockOfNode : Node → List Stmt
  | .list ns => Stmt.ofNodes ns
  | n => [.hole (.sequence n.kind)]
termination_by structural n => n

/-- The cases that a part stands for. -/
def Case.listOfNode : Node → List Case
  | .list ns => Case.ofNodes ns
  | n => [.hole (.sequence n.kind)]
termination_by structural n => n

/-- The statements that the parts of a sequence stand for. -/
def Stmt.ofNodes : List Node → List Stmt
  | [] => []
  | n :: ns => Stmt.ofNode n :: Stmt.ofNodes ns
termination_by structural ns => ns

/-- The cases that the parts of a sequence stand for. -/
def Case.ofNodes : List Node → List Case
  | [] => []
  | n :: ns => Case.ofNode n :: Case.ofNodes ns
termination_by structural ns => ns

end

/-- The parameter that a tree stands for: whatever has a name and a place for a type will do. -/
def Param.ofNode : Node → Param
  | .funcParam n t => .typed (.ofJson n) (nameOfJson t)
  | .varDecl n t _ => .typed (.ofJson n) (nameOfJson t)
  | .globalDecl n _ t _ _ => .typed (.ofJson n) (nameOfJson t)
  | .funcDecl n _ _ _ => .untyped (.ofJson n)
  | .access n _ => .untyped (.ofJson n)
  | .call n _ => .untyped (.ofJson n)
  | n => .hole (.item n.kind)

/-- The global that a tree stands for. -/
def Global.ofNode : Node → Global
  | .globalDecl n m t v l => .decl ⟨.ofJson n, m, nameOfJson t, Expr.ofNode? v, l, none⟩
  | .varDecl n t v => .fragment (.ofJson n) (some (nameOfJson t)) (some (Expr.ofNode? v))
  | .funcParam n t => .fragment (.ofJson n) (some (nameOfJson t)) none
  | .literal v _ => .fragment (.text "") none (some (Expr.ofDatum? v))
  | .assign _ v => .fragment (.text "") none (some (Expr.ofNode? v))
  | .case v _ => .fragment (.text "") none (some (Expr.ofNode? v))
  | .returnStmt v => .fragment (.text "") none (some (Expr.ofNode? v))
  | n => .hole (.item n.kind)

/-- The function that a tree stands for. -/
def Func.ofNode : Node → Func
  | .funcDecl n ps r b =>
    .decl ⟨.ofJson n, members ps, nameOfJson r, Stmt.blockOfNode b, none⟩
  | n => .hole (.item n.kind)
where
  /-- The parameters that a part stands for. -/
  members : Node → List Param
    | .list ns => ns.map Param.ofNode
    | n => [.hole (.sequence n.kind)]

/-- The program that a tree stands for. A tree that is no program has neither globals nor functions,
and whatever asks for them fails. -/
def Program.ofNode : Node → Program
  | .source g f => ⟨globals g, functions f⟩
  | n => ⟨[.hole (.item n.kind)], []⟩
where
  /-- The globals that a part stands for. -/
  globals : Node → List Global
    | .list ns => ns.map Global.ofNode
    | n => [.hole (.sequence n.kind)]
  /-- The functions that a part stands for. -/
  functions : Node → List Func
    | .list ns => ns.map Func.ofNode
    | n => [.hole (.sequence n.kind)]

end Scriptlet
