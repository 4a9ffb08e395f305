import Scriptlet.Syntax.Basic

/-! # Exchanged trees

The tree of a program as it is exchanged as data: eighteen kinds of items. An item keeps its names
as whatever data they were given as; a part is an item, a sequence of parts, or nothing. -/

namespace Scriptlet

/-- A part of an exchanged tree. -/
inductive Node where
  | null
  | list (items : List Node)
  | source (globals functions : Node)
  | globalDecl (name : Json) (mutable : Bool) (typeName : Json) (value : Node) (isList : Bool)
  | funcParam (name typeName : Json)
  | funcDecl (name : Json) (params : Node) (returnTypeName : Json) (body : Node)
  | exprStmt (expr : Node)
  | varDecl (name typeName : Json) (value : Node)
  | assign (receiver value : Node)
  | ifStmt (condition thenBlock elseBlock : Node)
  | switchStmt (condition cases : Node)
  | case (value block : Node)
  | whileStmt (condition body : Node)
  | returnStmt (value : Node)
  | literal (value : Datum) (literalType : Json)
  | group (expr : Node)
  | binaryOp (op : Json) (left right : Node)
  | access (name : Json) (offset : Node)
  | call (name : Json) (args : Node)
  | listLit (values : Node)
  deriving Inhabited, Repr

/-- The kind of a part. -/
def Node.kind : Node → Kind
  | .null => .none
  | .list _ => .data "list"
  | .source .. => .item .source
  | .globalDecl .. => .item .globalDecl
  | .funcParam .. => .item .funcParam
  | .funcDecl .. => .item .funcDecl
  | .exprStmt .. => .item .exprStmt
  | .varDecl .. => .item .varDecl
  | .assign .. => .item .assign
  | .ifStmt .. => .item .ifStmt
  | .switchStmt .. => .item .switchStmt
  | .case .. => .item .case
  | .whileStmt .. => .item .whileStmt
  | .returnStmt .. => .item .returnStmt
  | .literal .. => .item .literal
  | .group .. => .item .group
  | .binaryOp .. => .item .binaryOp
  | .access .. => .item .access
  | .call .. => .item .call
  | .listLit .. => .item .listLit

/-! ### Writing -/

/-- An item with its tag and its fields in order. -/
def taggedObject (tag : Tag) (fields : List (Text × Json)) : Json :=
  .obj (("type", .str tag.word) :: fields)

/-- The datum of a literal; a decimal is written in its exact form. -/
def Datum.toJson : Datum → Json
  | .plain j => j
  | .decimal d => .str d.exact

mutual

/-- A tree as data. -/
def Node.toJson : Node → Json
  | .null => .null
  | .list items => .arr (Node.listToJson items)
  | .source g f => taggedObject .source [("globals", g.toJson), ("functions", f.toJson)]
  | .globalDecl n m t v l =>
    taggedObject .globalDecl [("name", n), ("mutable", .bool m), ("type_name", t),
      ("value", v.toJson), ("is_list", .bool l)]
  | .funcParam n t => taggedObject .funcParam [("name", n), ("type_name", t)]
  | .funcDecl n p r b =>
    taggedObject .funcDecl [("name", n), ("params", p.toJson), ("return_type_name", r),
      ("body", b.toJson)]
  | .exprStmt e => taggedObject .exprStmt [("expr", e.toJson)]
  | .varDecl n t v => taggedObject .varDecl [("name", n), ("type_name", t), ("value", v.toJson)]
  | .assign r v => taggedObject .assign [("receiver", r.toJson), ("value", v.toJson)]
  | .ifStmt c t e =>
    taggedObject .ifStmt [("condition", c.toJson), ("then_block", t.toJson),
      ("else_block", e.toJson)]
  | .switchStmt c cs => taggedObject .switchStmt [("condition", c.toJson), ("cases", cs.toJson)]
  | .case v b => taggedObject .case [("value", v.toJson), ("block", b.toJson)]
  | .whileStmt c b => taggedObject .whileStmt [("condition", c.toJson), ("body", b.toJson)]
  | .returnStmt v => taggedObject .returnStmt [("value", v.toJson)]
  | .literal v t => taggedObject .literal [("value", v.toJson), ("literal_type", t)]
  | .group e => taggedObject .group [("expr", e.toJson)]
  | .binaryOp op l r => taggedObject .binaryOp [("op", op), ("left", l.toJson), ("right", r.toJson)]
  | .access n o => taggedObject .access [("name", n), ("offset", o.toJson)]
  | .call n as => taggedObject .call [("name", n), ("args", as.toJson)]
  | .listLit vs => taggedObject .listLit [("values", vs.toJson)]
termination_by structural n => n

/-- The parts of a sequence as data. -/
def Node.listToJson : List Node → List Json
  | [] => []
  | n :: ns => n.toJson :: Node.listToJson ns
termination_by structural ns => ns

end

mutual

/-- Writes raw data as if it were a tree; only nothing and sequences of nothing are trees. -/
def rawToJson : Json → Except Failure Json
  | .null => .ok .null
  | .arr xs => (rawListToJson xs).map .arr
  | j => .error (.tree (.notWritable j.kindName))
termination_by structural j => j

/-- Writes the items of a raw sequence. -/
def rawListToJson : List Json → Except Failure (List Json)
  | [] => .ok []
  | x :: xs => do
    let y ← rawToJson x
    let ys ← rawListToJson xs
    return y :: ys
termination_by structural xs => xs

end

end Scriptlet
