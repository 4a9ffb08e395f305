import Scriptlet.Syntax.Basic

/-! # Outlines of analyzed programs

An outline shows what analysis has written into a tree: for each item its kind, its slots and the
outlines of its parts. -/

namespace Scriptlet

/-- A slot for a type. -/
def slotType (t : Option Ty) : Text × Json :=
  ("type", t.elim .null fun t => .str t.name)

/-- A slot for a variable. -/
def slotVariable (v : Option Variable) : Text × Json :=
  ("variable", v.elim .null fun v => .arr [v.name.toJson, .bool v.mutable, .str v.type.name])

/-- A slot for a function. -/
def slotFunction (f : Option Signature) : Text × Json :=
  ("function", f.elim .null fun f => .arr [.str f.text, .int f.arity])

/-- The outline of an item with its slots and the outlines of its parts. -/
def outlineItem (tag : Tag) (slots : List (Text × Json)) (parts : List Json) : Json :=
  .obj ((.plain "node", .str tag.word) :: slots ++
    (if parts.isEmpty then [] else [(.plain "children", .arr parts)]))

mutual

/-- The outline of an expression. -/
def Expr.outline : Expr → Json
  | .literal _ _ t => outlineItem .literal [slotType t] []
  | .group e t => outlineItem .group [slotType t] [e.outline]
  | .binary _ l r t => outlineItem .binaryOp [slotType t] [l.outline, r.outline]
  | .name _ m t => outlineItem .access [slotType t, slotVariable m] []
  | .index _ o m t => outlineItem .access [slotType t, slotVariable m] [o.outline]
  | .call _ args f t => outlineItem .call [slotType t, slotFunction f] (Expr.outlines args)
  | .list vs t => outlineItem .listLit [slotType t] (Expr.outlines vs)
  | .hole _ => .null
termination_by structural e => e

/-- The outlines of expressions. -/
def Expr.outlines : List Expr → List Json
  | [] => []
  | e :: es => e.outline :: Expr.outlines es
termination_by structural es => es

end

/-- The outline of an expression that may be missing. -/
def Expr.outline? (e : Option Expr) : List Json :=
  e.toList.map Expr.outline

mutual

/-- The outline of a statement. -/
def Stmt.outline : Stmt → Json
  | .expr e => outlineItem .exprStmt [] [e.outline]
  | .declare _ _ v slot => outlineItem .varDecl [slotVariable slot] (Expr.outline? v)
  | .assign r v => outlineItem .assign [] [r.outline, v.outline]
  | .branch c t e =>
    outlineItem .ifStmt [] (c.outline :: Stmt.outlines t ++ Stmt.outlines e)
  | .switch c cs => outlineItem .switchStmt [] (c.outline :: Case.outlines cs)
  | .loop c b => outlineItem .whileStmt [] (c.outline :: Stmt.outlines b)
  | .ret v => outlineItem .returnStmt [] [v.outline]
  | .hole _ => .null
termination_by structural s => s

/-- The outline of a case. -/
def Case.outline : Case → Json
  | .equals v b => outlineItem .case [] (v.outline :: Stmt.outlines b)
  | .otherwise b => outlineItem .case [] (Stmt.outlines b)
  | .blockless v => outlineItem .case [] (Expr.outline? v)
  | .hole _ => .null
termination_by structural c => c

/-- The outlines of the statements of a block. -/
def Stmt.outlines : List Stmt → List Json
  | [] => []
  | s :: ss => s.outline :: Stmt.outlines ss
termination_by structural ss => ss

/-- The outlines of cases. -/
def Case.outlines : List Case → List Json
  | [] => []
  | c :: cs => c.outline :: Case.outlines cs
termination_by structural cs => cs

end

/-- The outline of a global. -/
def Global.outline : Global → Json
  | .decl d => outlineItem .globalDecl [slotVariable d.declared] (Expr.outline? d.value)
  | .fragment _ _ _ => .null
  | .hole _ => .null

/-- The outline of a function; parameters are not items of their own. -/
def Func.outline : Func → Json
  | .decl d => outlineItem .funcDecl [slotFunction d.signature] (Stmt.outlines d.body)
  | .hole _ => .null

/-- The outline of a program. -/
def Program.outline (p : Program) : Json :=
  outlineItem .source [] (p.globals.map Global.outline ++ p.functions.map Func.outline)

end Scriptlet
