import Scriptlet.Failure

/-! # Programs

The trees of programs. Expressions, declarations and calls carry slots for what analysis finds out
about them: the type of an expression, the variable a name means, the function a call means; the
slots of a program that was just read are empty.

A tree that comes from a program text holds only declarations, statements and expressions in their
places. A tree that was exchanged as data may hold anything anywhere; what does not belong where it
stands is a hole, which names what stands there and makes every walk over it fail. -/

namespace Scriptlet

/-- The value written in a literal. -/
inductive Datum where
  | plain (j : Json)
  | decimal (d : Decimal)
  deriving Inhabited, Repr

/-- The kind of a datum. -/
def Datum.kind : Datum → Kind
  | .plain j => .data j.kindName
  | .decimal _ => .decimal

/-- The kinds of literals. -/
inductive LiteralKind where
  | nil | boolean | integer | decimal | character | string
  /-- A kind that the language does not have. -/
  | unknown (j : Json)
  deriving Inhabited, Repr

/-- The word for a kind of literals. -/
def LiteralKind.toJson : LiteralKind → Json
  | .nil => .str "Nil"
  | .boolean => .str "Boolean"
  | .integer => .str "Integer"
  | .decimal => .str "Decimal"
  | .character => .str "Character"
  | .string => .str "String"
  | .unknown j => j

/-- The kind of literals that a word stands for. -/
def LiteralKind.ofJson : Json → LiteralKind
  | .str (.plain "Nil") => .nil
  | .str (.plain "Boolean") => .boolean
  | .str (.plain "Integer") => .integer
  | .str (.plain "Decimal") => .decimal
  | .str (.plain "Character") => .character
  | .str (.plain "String") => .string
  | j => .unknown j

/-- Something that does not belong where it stands. -/
inductive Hole where
  /-- It stands for one item. -/
  | item (kind : Kind)
  /-- It stands for a whole sequence of items. -/
  | sequence (kind : Kind)
  deriving DecidableEq, Repr

/-- An expression. -/
inductive Expr where
  | literal (value : Datum) (kind : LiteralKind) (type : Option Ty)
  | group (inner : Expr) (type : Option Ty)
  | binary (op : String) (left right : Expr) (type : Option Ty)
  | name (name : Name) (meaning : Option Variable) (type : Option Ty)
  | index (name : Name) (offset : Expr) (meaning : Option Variable) (type : Option Ty)
  | call (name : Name) (args : List Expr) (target : Option Signature) (type : Option Ty)
  | list (values : List Expr) (type : Option Ty)
  | hole (h : Hole)
  deriving Inhabited, Repr

mutual

/-- A statement. -/
inductive Stmt where
  | expr (e : Expr)
  | declare (name : Name) (typeName : Option Name) (value : Option Expr)
      (declared : Option Variable)
  | assign (receiver value : Expr)
  | branch (condition : Expr) (thenBlock elseBlock : List Stmt)
  | switch (condition : Expr) (cases : List Case)
  | loop (condition : Expr) (body : List Stmt)
  | ret (value : Expr)
  | hole (h : Hole)
  deriving Inhabited, Repr

/-- A case of a switch. -/
inductive Case where
  | equals (value : Expr) (block : List Stmt)
  | otherwise (block : List Stmt)
  /-- An item with the value of a case but without a block. -/
  | blockless (value : Option Expr)
  | hole (h : Hole)
  deriving Inhabited, Repr

end

/-- A parameter of a function. -/
inductive Param where
  | typed (name : Name) (typeName : Option Name)
  /-- An item with a name but without a place for a type. -/
  | untyped (name : Name)
  | hole (h : Hole)
  deriving Inhabited, Repr

/-- The declaration of a global variable. For a list, the type name is that of its elements. -/
structure GlobalDecl where
  name : Name
  mutable : Bool
  typeName : Option Name
  value : Option Expr
  isList : Bool
  declared : Option Variable
  deriving Inhabited, Repr

/-- A member of the list of globals. -/
inductive Global where
  | decl (d : GlobalDecl)
  /-- An item that lacks parts of a declaration; the parts it has may themselves be empty. -/
  | fragment (name : Name) (typeName : Option (Option Name)) (value : Option (Option Expr))
  | hole (h : Hole)
  deriving Inhabited, Repr

/-- The declaration of a function. -/
structure FuncDecl where
  name : Name
  params : List Param
  returnTypeName : Option Name
  body : List Stmt
  signature : Option Signature
  deriving Inhabited, Repr

/-- A member of the list of functions. -/
inductive Func where
  | decl (d : FuncDecl)
  | hole (h : Hole)
  deriving Inhabited, Repr

/-- A program. -/
structure Program where
  globals : List Global
  functions : List Func
  deriving Inhabited, Repr

/-- The type that analysis found for an expression. -/
def Expr.type? : Expr → Option Ty
  | .literal _ _ t => t
  | .group _ t => t
  | .binary _ _ _ t => t
  | .name _ _ t => t
  | .index _ _ _ t => t
  | .call _ _ _ t => t
  | .list _ t => t
  | .hole _ => none

/-- The failure of a walk over a hole at a stage. -/
def Hole.failure (stage : Stage) : Hole → Failure
  | .item k => .tree (.unexpected stage k)
  | .sequence k => .tree (.notIterable k)

/-- The failure of a walk over a hole that is asked for one of its parts. -/
def Hole.partFailure : Hole → Failure
  | .item _ => .tree .missingPart
  | .sequence k => .tree (.notIterable k)

end Scriptlet
