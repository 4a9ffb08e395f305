import Scriptlet.Proofs.Typing.Declared

/-! # Guarded programs

The analysis lets through some programs in which a value comes to stand where its type does not
allow it: a variable without an initial value holds `NIL` whatever its type, a return inside a
branch is not held against the function, a function may end without a return, a later function of
the same name and arity answers the calls of an earlier one, and operands of type `Comparable` may
be of different kinds. A *guarded* program has none of these. -/

namespace Scriptlet

/-- Whether the value of what is missing is of a type. -/
def Ty.hasNil (t : Ty) : Bool :=
  t = .nil || t = .any

theorem Ty.hasNil_iff {t : Ty} : t.hasNil = true ↔ t = .nil ∨ t = .any := by
  simp [Ty.hasNil]

/-- Whether a statement declares no variable without a value of its type. -/
def Stmt.isInitialized : Stmt → Bool
  | .declare _ _ none (some v) => v.type.hasNil
  | _ => true

/-- Whether a statement returns nothing but what is assignable to a type. -/
def Stmt.returnsOnly (t : Ty) : Stmt → Bool
  | .ret e => e.type?.all t.assignable
  | _ => true

/-- Whether a statement is a return. -/
def Stmt.isReturn : Stmt → Bool
  | .ret _ => true
  | _ => false

/-- Whether a global is not without a value of its type. -/
def Global.isInitialized : Global → Bool
  | .decl d => d.value.isSome || d.declared.all fun v => v.type.hasNil
  | _ => true

/-- What keeps the values in a function to their types. -/
structure FuncDecl.IsGuarded (d : FuncDecl) : Prop where
  initialized : ∀ x ∈ Stmt.nestedIn d.body, x.isInitialized = true
  /-- Returns at any depth are of the type that the function returns. -/
  returned : ∀ f ∈ d.signature, ∀ x ∈ Stmt.nestedIn d.body, x.returnsOnly f.returns = true
  /-- A return stands directly in the body, unless a missing one is of the type. -/
  ends : ∀ f ∈ d.signature, f.returns.hasNil = true ∨ ∃ x ∈ d.body, x.isReturn = true

/-- What keeps the values in a program to their types. -/
structure Program.IsGuarded (p : Program) : Prop where
  initialized : ∀ g ∈ p.globals, g.isInitialized = true
  functions : ∀ d ∈ p.funcDecls, d.IsGuarded
  /-- No two functions have the same name and arity, the built-in one included. -/
  distinct : ((Analyzer.printSignature :: p.declaredFunctions).map fun f =>
    (f.name.key.toOption, f.arity)).Nodup
  plain : Name.comparable ∉ p.typeNames

instance (d : FuncDecl) : Decidable d.IsGuarded :=
  decidable_of_iff
    ((∀ x ∈ Stmt.nestedIn d.body, x.isInitialized = true) ∧
      (∀ f ∈ d.signature, ∀ x ∈ Stmt.nestedIn d.body, x.returnsOnly f.returns = true) ∧
      ∀ f ∈ d.signature, f.returns.hasNil = true ∨ ∃ x ∈ d.body, x.isReturn = true)
    ⟨fun ⟨h₁, h₂, h₃⟩ => ⟨h₁, h₂, h₃⟩, fun ⟨h₁, h₂, h₃⟩ => ⟨h₁, h₂, h₃⟩⟩

instance (p : Program) : Decidable p.IsGuarded :=
  decidable_of_iff
    ((∀ g ∈ p.globals, g.isInitialized = true) ∧ (∀ d ∈ p.funcDecls, d.IsGuarded) ∧
      ((Analyzer.printSignature :: p.declaredFunctions).map fun f =>
        (f.name.key.toOption, f.arity)).Nodup ∧ Name.comparable ∉ p.typeNames)
    ⟨fun ⟨h₁, h₂, h₃, h₄⟩ => ⟨h₁, h₂, h₃, h₄⟩, fun ⟨h₁, h₂, h₃, h₄⟩ => ⟨h₁, h₂, h₃, h₄⟩⟩

end Scriptlet
