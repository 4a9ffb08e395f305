import Scriptlet.Proofs.Machine.Origins
import Scriptlet.Proofs.Machine.Outcomes
import Scriptlet.Proofs.Typing.Guards
import Scriptlet.Proofs.Value.Failures
import Scriptlet.Proofs.Value.HeapTyping

/-! # What runs of well-typed programs keep

A run is held against a *setting*: the variables of the program, the globals in force and the
functions that can be called. Every binding is explained by a variable of the program, names mean in
the scopes of the run what they mean in the contexts of the rules, and functions do what they were
declared to do. A strict setting also asks that values fit the types of their declarations, which
holds only of some well-typed programs.

* `Holds W w`: the invariant of a world, which is what a run works on.
* `Shows W f s Γ`: what a context has is what a scope shows.
* `Evolves W n w w'`: the invariant holds again, lists keep their types, and the scopes below `n`
  keep their declarations.
* `Exit W`: what is known of every early end of a run. -/

namespace Scriptlet

open Machine

/-- What an analysis knows about a callable thing. -/
def Callable.signature? : Callable → Option Signature
  | .print => some Analyzer.printSignature
  | .user u => u.signature
  | _ => none

/-- What a run is held against. -/
structure Setting where
  /-- Whether values are held against the types of their declarations. -/
  strict : Bool
  /-- The variables of the program. -/
  vars : List Variable
  /-- The globals in force, the latest first. -/
  globals : List Variable
  /-- The functions that were declared and can be called, or are hidden by later ones. -/
  known : List Signature
  /-- The functions that can be called, by name and number of arguments. -/
  table : Key → Nat → Option Callable

/-- What a run works on, with the types of the elements of all lists by address. -/
structure World where
  scopes : Forest Binding Callable
  heap : Heap
  typing : List Ty

/-- The world of a machine under a typing of its lists. -/
abbrev Machine.world (m : Machine) (τ : List Ty) : World := ⟨m.scopes, m.heap, τ⟩

/-- Whether lists are added and keep their types. -/
structure World.Grows (w w' : World) : Prop where
  typing : w.typing <+: w'.typing
  size_le : w.heap.cells.size ≤ w'.heap.cells.size

theorem World.Grows.of_eq {w w' : World} (hheap : w'.heap = w.heap)
    (htyping : w'.typing = w.typing) : w.Grows w' :=
  ⟨htyping ▸ List.prefix_refl _, hheap ▸ le_rfl⟩

theorem World.Grows.trans {w w' w'' : World} (h : w.Grows w') (h' : w'.Grows w'') : w.Grows w'' :=
  ⟨h.typing.trans h'.typing, le_trans h.size_le h'.size_le⟩

/-! ### Resolved places -/

/-- The name that an expression looks up itself, and the slot for what it means. -/
def Expr.access? : Expr → Option (Name × Option Variable)
  | .name x v _ => some (x, v)
  | .index x _ v _ => some (x, v)
  | _ => none

/-- Whether a binding was created by the declaration of a variable. -/
structure Binding.IsOf (b : Binding) (v : Variable) : Prop where
  origin : b.origin = some v.origin
  mutable : b.mutable = v.mutable

/-- Whether the name that is looked up at a place, or assigned to there, means a binding of the
variable in its slot. -/
def Place.Resolves (vars : List Variable) (m : Machine) : Place → Prop
  | .expr s e => ∀ x slot, e.access? = some (x, slot) →
    ∃ v ∈ vars, slot = some v ∧ ∃ b, m.scopes.lookupVariable s x = .ok b ∧ b.IsOf v
  | .receiver s e => ∃ x, ∃ v ∈ vars, e.access? = some (x, some v) ∧
    ∃ t b, writable x s m = .ok (t, b) ∧ b.IsOf v
  | _ => True

namespace Setting

variable (W : Setting)

/-! ### Values and failures -/

/-- Whether a value belongs to a world and, in a strict setting, fits a type. -/
structure Fits (w : World) (t : Ty) (v : Value) : Prop where
  owns : w.heap.Owns v
  fits : W.strict = true → t.Fits w.typing w.heap v

/-- Whether a binding is explained by a variable of the program. -/
def Explains (w : World) (b : Binding) : Prop :=
  ∃ v ∈ W.vars, b.IsOf v ∧ W.Fits w v.type b.value

/-- Whether a run may fail so. What it fails with is told in one line if the names of variables
are. -/
structure Allows (f : Failure) : Prop where
  static : ¬ f.IsStatic
  kind : W.strict = true → ¬ f.IsKind
  line : (∀ v ∈ W.vars, v.name.IsLine) → f.IsLine

/-! ### Scopes and contexts -/

/-- Whether all functions of a context were declared and can be called. Unless the setting is
strict, what is called may be another function of the same name and arity. -/
def Covers (Γ : Context) : Prop :=
  ∀ k n g, Γ.findFunction? k n = some g → g ∈ W.known ∧
    ∃ c, W.table k n = some c ∧ (W.strict = true → c.signature? = some g)

/-- Whether a scope shows what a context has. -/
structure Shows (f : Forest Binding Callable) (s : Nat) (Γ : Context) : Prop where
  lt : s < f.size
  vars : ∀ k v, Γ.findVariable? k = some v → v ∈ W.vars ∧ origin? f s k = some v.origin
  funs : W.Covers Γ

/-- What is asked of each statement in a function that returns a type: its declaration is one of the
program; and in a strict setting it has an initial value, if only that can fit its type, and what
it returns is of the type. -/
structure Admits (returns : Ty) (x : Stmt) : Prop where
  declared : ∀ v, x.declares? = some v → v ∈ W.vars
  initialized : W.strict = true → x.isInitialized = true
  returned : W.strict = true → x.returnsOnly returns = true

/-- Whether a callable thing does what a signature says. -/
inductive Implements : Callable → Signature → Prop where
  | print : Implements .print Analyzer.printSignature
  | user {u : UserFunction} {g : Signature} {Γ Γ' : Context} {params : List Variable}
    (hsignature : u.signature = some g) (hparams : List.Forall₂ Param.HasType u.params g.params)
    (hvariables : params = paramVariables g.declaration 0 u.params g.params)
    (hmem : ∀ v ∈ params, v ∈ W.vars) (hkeys : ∀ v ∈ params, ∃ k, v.name.key = .ok k)
    (hvars : Γ.vars = W.globals) (hfuns : W.Covers Γ)
    (hbody : Stmt.BlockTyped (Γ.enter params) u.body Γ')
    (hadmits : ∀ x ∈ Stmt.nestedIn u.body, W.Admits g.returns x)
    (hends : W.strict = true → g.returns.hasNil = true ∨ ∃ x ∈ u.body, x.isReturn = true) :
    Implements (.user u) g

/-- Whether a setting can be one of a well-typed program. -/
structure IsSound : Prop where
  nodup : (W.vars.map Variable.origin).Nodup
  plain : W.strict = true → ∀ v ∈ W.vars, v.type.IsPlain
  table : ∀ k n c, W.table k n = some c →
    ∃ g, W.Implements c g ∧ g.params.length = n ∧ (W.strict = true → g.returns.IsPlain)

/-! ### The invariant -/

/-- The invariant of a world. -/
structure Holds (w : World) : Prop where
  nested : w.scopes.IsNested
  rooted : ∀ t < w.scopes.size, root ∈ w.scopes.chain t
  inner : ∀ t, t ≠ root → ∀ k n, w.scopes.ownFunction? k n t = none
  table : ∀ k n, (w.scopes.ownFunction? k n root).join = W.table k n
  globals : W.Shows w.scopes root ⟨W.globals, [], 0⟩
  bindings : ∀ t k o, w.scopes.ownVariable? k t = some o → ∃ b, o = some b ∧ W.Explains w b
  closed : w.heap.IsClosed
  typed : W.strict = true → w.heap.Typed w.typing

/-- Whether the invariant holds in a later world, in which lists have kept their types and the
scopes below `n` their declarations. -/
structure Evolves (n : Nat) (w w' : World) : Prop where
  holds : W.Holds w'
  grows : w.Grows w'
  keeps : Keeps n w.scopes w'.scopes

/-- What is known of a place that a run comes to. What is looked up there is resolved, and a call
is well typed with what its scope shows. -/
def Meets (m : Machine) : Place → Prop
  | .expr s e => (Place.expr s e).Resolves W.vars m ∧
    ∀ x args slot t, e = .call x args slot t → ∃ Γ u, e.HasType Γ u ∧ W.Shows m.scopes s Γ
  | p => p.Resolves W.vars m

/-- What is known of every early end of a run. -/
def Exit (stop : Stop) (m : Machine) : Prop :=
  ∃ τ, W.Holds (m.world τ) ∧
    match stop with
    | .failed f => W.Allows f
    | .paused => ∃ p, m.place = some p ∧ W.Meets m p

/-- What is known of a result with `P` that comes out of a world. -/
def Gives {α : Type} (n : Nat) (w : World) (P : World → α → Prop) (a : α) (m' : Machine) : Prop :=
  ∃ τ, W.Evolves n w (m'.world τ) ∧ P (m'.world τ) a

end Setting

end Scriptlet
