import Scriptlet.Proofs.Scope.Forest
import Scriptlet.Proofs.Syntax.Written
import Scriptlet.Proofs.Typing.Rules

/-! # Scopes and contexts

The analysis keeps what is in force in a forest of scopes that it extends while it walks; the rules
keep it in a context. A scope of an analysis *represents* a context if every name means the same in
both. A new scope represents the context of the scope around it, a definition in a scope is a
declaration in the context, and what happens in younger scopes is forgotten by older ones.

The scope of the globals *is* its context (`Holds`): it is the only scope of its chain, and it binds
exactly what the context has. -/

namespace Scriptlet

theorem Name.isKnownAs_label (n : Label) (k : Key) : n.name.isKnownAs k = decide (k = n.key) := by
  rw [Name.isKnownAs, n.key_eq]
  exact decide_eq_decide.mpr eq_comm

theorem Name.isKnownAs_iff {x : Name} {k : Key} : x.isKnownAs k = true ↔ x.key = .ok k := by
  unfold Name.isKnownAs
  cases x.key with
  | ok l => simp
  | error e => simp

/-- A name that can be looked up has a label. -/
theorem Name.label_of_key {x : Name} {k : Key} (h : x.key = .ok k) : x.label = .ok ⟨x, k, h⟩ := by
  unfold Name.label
  split
  · next k' h' =>
    cases h.symm.trans h'
    rfl
  · next e h' => cases h.symm.trans h'

theorem Name.of_label {x : Name} {n : Label} (h : x.label = .ok n) :
    n.name = x ∧ x.key = .ok n.key := by
  unfold Name.label at h
  split at h
  · next k hk =>
    cases h
    exact ⟨rfl, hk⟩
  · cases h

namespace Forest

variable {V F : Type} {f : Forest V F} {s : Nat} {x : Name}

theorem lookupVariable_eq_ok_iff {v : V} :
    f.lookupVariable s x = .ok v ↔ ∃ k, x.key = .ok k ∧ f.findVariable? s k = some v := by
  constructor
  · intro h
    obtain ⟨n, hn, h⟩ := ok_of_bind h
    refine ⟨n.key, (Name.of_label hn).2, ?_⟩
    split at h
    · next w hw =>
      cases h
      exact hw
    · cases h
  · rintro ⟨k, hk, hv⟩
    rw [lookupVariable, Name.label_of_key hk, ok_bind]
    simp only [hv, pure_eq_ok]

theorem lookupFunction_eq_ok_iff {n : Nat} {c : F} :
    f.lookupFunction s x n = .ok c ↔ ∃ k, x.key = .ok k ∧ f.findFunction? s k n = some c := by
  constructor
  · intro h
    obtain ⟨l, hl, h⟩ := ok_of_bind h
    refine ⟨l.key, (Name.of_label hl).2, ?_⟩
    split at h
    · next w hw =>
      cases h
      exact hw
    · cases h
  · rintro ⟨k, hk, hc⟩
    rw [lookupFunction, Name.label_of_key hk, ok_bind]
    simp only [hc, pure_eq_ok]

end Forest

/-! ### Scopes that represent contexts -/

/-- Whether a scope of an analysis represents a context: names mean the same in both. -/
structure Analyzer.Represents (a : Analyzer) (s : Nat) (Γ : Context) : Prop where
  nested : a.scopes.IsNested
  lt : s < a.scopes.size
  vars : ∀ k, a.scopes.findVariable? s k = Γ.findVariable? k
  funs : ∀ k n, a.scopes.findFunction? s k n = Γ.findFunction? k n
  next : a.next = Γ.next

theorem Context.findVariable?_cons (Γ : Context) (v : Variable) {n : Label} (hn : n.name = v.name)
    (k : Key) (i : Nat) :
    (⟨v :: Γ.vars, Γ.funs, i⟩ : Context).findVariable? k =
      if k = n.key then some v else Γ.findVariable? k := by
  unfold Context.findVariable?
  simp only [List.find?_cons, ← hn, Name.isKnownAs_label]
  by_cases hk : k = n.key
  · simp [hk]
  · simp [hk]

theorem Context.findFunction?_cons (Γ : Context) (f : Signature) {n : Label} (hn : n.name = f.name)
    (k : Key) (m i : Nat) :
    (⟨Γ.vars, f :: Γ.funs, i⟩ : Context).findFunction? k m =
      if k = n.key ∧ m = f.arity then some f else Γ.findFunction? k m := by
  unfold Context.findFunction?
  simp only [List.find?_cons, ← hn, Name.isKnownAs_label]
  by_cases hk : k = n.key
  · by_cases hm : f.arity = m
    · simp [hk, hm]
    · simp [hk, hm, Ne.symm hm]
  · simp [hk]

namespace Analyzer.Represents

variable {a a' : Analyzer} {s t : Nat} {Γ Γ' : Context}

/-- Tracing does not touch scopes. -/
theorem traced (h : a.Represents s Γ) (l : Array String) :
    { a with trace := l }.Represents s Γ :=
  ⟨h.nested, h.lt, h.vars, h.funs, h.next⟩

/-- A new scope represents what the scope around it represents. -/
theorem child (h : a.Represents s Γ) :
    { a with scopes := a.scopes.addChild s }.Represents a.scopes.size Γ := by
  refine ⟨h.nested.addChild s, by simp, fun k => ?_, fun k n => ?_, h.next⟩
  · rw [Forest.findVariable?_addChild h.nested, h.vars]
  · rw [Forest.findFunction?_addChild h.nested, h.funs]

/-- A definition in a scope is a declaration in the context. -/
theorem define (h : a.Represents s Γ) {v : Variable} {n : Label} (hn : n.name = v.name) :
    { a with scopes := a.scopes.defineVariable s n (some v) }.Represents s
      { Γ with vars := v :: Γ.vars } := by
  refine ⟨h.nested.defineVariable, by simpa using h.lt, fun k => ?_, fun k i => ?_, h.next⟩
  · rw [Γ.findVariable?_cons v hn, Forest.findVariable?_defineVariable h.lt h.nested, h.vars]
  · exact (Forest.findFunction?_defineVariable k i s).trans (h.funs k i)

/-- What is done in a younger scope is forgotten, but the numbers are used up. -/
theorem leave (h : a.Represents s Γ) (hgrows : Forest.GrowsAt t a.scopes a'.scopes)
    (ht : a.scopes.size ≤ t) (h' : a'.Represents t Γ') : a'.Represents s (Γ.leave Γ') := by
  have hown : ∀ u ∈ a.scopes.chain s, a'.scopes.scopes[u]? = a.scopes.scopes[u]? := by
    intro u hu
    have hlt := h.nested.lt_of_mem_chain hu
    exact hgrows.scope_eq u hlt (by omega)
  refine ⟨h'.nested, lt_of_lt_of_le h.lt hgrows.size_le, fun k => ?_, fun k n => ?_, h'.next⟩
  · rw [Forest.findVariable?_congr (hgrows.chain_eq s h.lt), h.vars]
    · rfl
    · exact fun u hu => by rw [Forest.ownVariable?, Forest.ownVariable?, hown u hu]
  · rw [Forest.findFunction?_congr (hgrows.chain_eq s h.lt), h.funs]
    · rfl
    · exact fun u hu => by rw [Forest.ownFunction?, Forest.ownFunction?, hown u hu]

end Analyzer.Represents

/-- Whether an analysis has gone on from another by definitions in one scope and by new scopes. -/
structure Analyzer.Grows (s : Nat) (a a' : Analyzer) : Prop where
  scopes : Forest.GrowsAt s a.scopes a'.scopes
  root : a'.root = a.root

namespace Analyzer.Grows

variable {a a' a'' : Analyzer} {s : Nat} {Γ Γ' : Context}

theorem refl (s : Nat) (a : Analyzer) : Grows s a a :=
  ⟨.refl s _, rfl⟩

theorem traced (s : Nat) (a : Analyzer) (l : Array String) : Grows s a { a with trace := l } :=
  ⟨.refl s _, rfl⟩

theorem trans (h : Grows s a a') (h' : Grows s a' a'') : Grows s a a'' :=
  ⟨h.scopes.trans h'.scopes, h'.root.trans h.root⟩

/-- After a block in a new scope, the scope around it is as it was. -/
theorem leave (h : a.Represents s Γ)
    (hgrows : Grows a.scopes.size { a with scopes := a.scopes.addChild s } a')
    (h' : a'.Represents a.scopes.size Γ') : a'.Represents s (Γ.leave Γ') ∧ Grows s a a' := by
  have hchild := Forest.growsAt_addChild (f := a.scopes) (s := s)
  refine ⟨h.leave ((hchild _).trans hgrows.scopes) le_rfl h', ?_, hgrows.root⟩
  exact (hchild s).of_young hgrows.scopes le_rfl

end Analyzer.Grows

/-! ### The scope of the globals -/

/-- Whether the scope of the globals binds exactly what a context has. -/
structure Analyzer.Holds (a : Analyzer) (Γ : Context) : Prop where
  nested : a.scopes.IsNested
  chain : a.scopes.chain a.root = [a.root]
  vars : ∀ k, a.scopes.ownVariable? k a.root = (Γ.findVariable? k).map some
  funs : ∀ k n, a.scopes.ownFunction? k n a.root = (Γ.findFunction? k n).map some
  next : a.next = Γ.next

namespace Analyzer.Holds

variable {a a' : Analyzer} {Γ Γ' : Context}

theorem lt (h : a.Holds Γ) : a.root < a.scopes.size :=
  h.nested.lt_of_mem_chain (s := a.root) (by rw [h.chain]; simp)

theorem represents (h : a.Holds Γ) : a.Represents a.root Γ := by
  refine ⟨h.nested, h.lt, fun k => ?_, fun k n => ?_, h.next⟩
  · rw [Forest.findVariable?, h.chain, List.findSome?_cons, h.vars]
    cases Γ.findVariable? k <;> rfl
  · rw [Forest.findFunction?, h.chain, List.findSome?_cons, h.funs]
    cases Γ.findFunction? k n <;> rfl

theorem traced (h : a.Holds Γ) (l : Array String) : { a with trace := l }.Holds Γ :=
  ⟨h.nested, h.chain, h.vars, h.funs, h.next⟩

/-- A global is bound in the scope of the globals. -/
theorem define (h : a.Holds Γ) {v : Variable} {n : Label} (hn : n.name = v.name) :
    { a with scopes := a.scopes.defineVariable a.root n (some v), next := a.next + 1 }.Holds
      (Γ.declare v) := by
  refine ⟨h.nested.defineVariable, ?_, fun k => ?_, fun k i => ?_, congrArg (· + 1) h.next⟩
  · exact (Forest.chain_defineVariable _).trans h.chain
  · rw [Context.declare, Γ.findVariable?_cons v hn]
    refine (Forest.ownVariable?_defineVariable_self k h.lt).trans ?_
    rw [h.vars]
    split <;> rfl
  · exact (Forest.ownFunction?_defineVariable k i a.root).trans (h.funs k i)

/-- A function is bound in the scope of the globals. -/
theorem defineFunction (h : a.Holds Γ) {f : Signature} {n : Label} (hn : n.name = f.name) :
    { a with
      scopes := a.scopes.defineFunction a.root n f.arity (some f)
      next := a.next + 1 }.Holds (Γ.declareFunction f) := by
  refine ⟨h.nested.defineFunction, ?_, fun k => ?_, fun k i => ?_, congrArg (· + 1) h.next⟩
  · exact (Forest.chain_defineFunction _).trans h.chain
  · exact (Forest.ownVariable?_defineFunction k a.root).trans (h.vars k)
  · rw [Context.declareFunction, Γ.findFunction?_cons f hn]
    refine (Forest.ownFunction?_defineFunction_self k i h.lt).trans ?_
    rw [h.funs]
    split <;> rfl

/-- After a block in a new scope, the scope of the globals is as it was. -/
theorem leave (h : a.Holds Γ)
    (hgrows : Analyzer.Grows a.scopes.size { a with scopes := a.scopes.addChild a.root } a')
    (h' : a'.Represents a.scopes.size Γ') : a'.Holds (Γ.leave Γ') ∧ a'.root = a.root := by
  have hlt := h.lt
  have hroot : a'.root = a.root := hgrows.root
  have hgrown := (Forest.growsAt_addChild _).trans hgrows.scopes
  have hscope : a'.scopes.scopes[a.root]? = a.scopes.scopes[a.root]? :=
    hgrown.scope_eq a.root hlt (by omega)
  refine ⟨⟨h'.nested, ?_, fun k => ?_, fun k n => ?_, h'.next⟩, hroot⟩
  · rw [hroot, hgrown.chain_eq a.root hlt, h.chain]
  · rw [hroot, Forest.ownVariable?, hscope]
    exact h.vars k
  · rw [hroot, Forest.ownFunction?, hscope]
    exact h.funs k n

/-- A fresh analysis has the context of a program. -/
theorem fresh : Analyzer.fresh.Holds .start := by
  refine ⟨?_, rfl, fun k => rfl, fun k n => ?_, rfl⟩
  · intro s sc hsc
    have hs : s < 1 := (Array.getElem?_eq_some_iff.mp hsc).1
    obtain rfl : s = 0 := by omega
    cases hsc
    exact fun t ht => (List.not_mem_nil ht).elim
  · have hfind := (⟨[], [], 1⟩ : Context).findFunction?_cons Analyzer.printSignature
      (n := .text "print") rfl k n 1
    rw [Context.start, hfind]
    refine (Forest.ownFunction?_defineFunction_self k n (by decide)).trans ?_
    rw [show Analyzer.printSignature.arity = 1 from rfl]
    split <;> rfl

end Analyzer.Holds

end Scriptlet
