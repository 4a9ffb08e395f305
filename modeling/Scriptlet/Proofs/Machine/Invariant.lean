import Scriptlet.Proofs.Machine.Settings

/-! # Single changes of a world

What the invariant of a world says about values, names and functions, and that each single change
that a run makes to a world keeps it: a new scope, a definition, an assignment, a new list and a new
item of a list. -/

namespace Scriptlet.Setting

open Machine

variable {W : Setting} {w w' w'' : World} {n s : Nat} {Γ : Context} {t u : Ty} {v : Value}

/-! ### Values -/

theorem Fits.mono (hv : W.Fits w t v) (h : w.Grows w') : W.Fits w' t v :=
  ⟨Ty.owns_mono h.size_le hv.owns, fun hs => Ty.fits_mono h.typing h.size_le (hv.fits hs)⟩

theorem Explains.mono {b : Binding} (hb : W.Explains w b) (h : w.Grows w') : W.Explains w' b := by
  obtain ⟨x, hx, hbx, hfits⟩ := hb
  exact ⟨x, hx, hbx, hfits.mono h⟩

theorem Fits.assignable (hv : W.Fits w u v) (hw : W.Holds w) (htu : t.assignable u = true) :
    W.Fits w t v :=
  ⟨hv.owns, fun hs => Ty.fits_of_assignable (hw.typed hs).length htu (hv.fits hs)⟩

/-- Values fit every type unless the setting is strict. -/
theorem Fits.loose (hv : W.Fits w u v) (hs : W.strict = false) : W.Fits w t v :=
  ⟨hv.owns, fun h => by rw [hs] at h; cases h⟩

theorem fits_of_inhabits (ht : t.element? = none) (hv : t.Inhabits w.heap v) : W.Fits w t v :=
  ⟨Ty.inhabits_any hv, fun _ => Ty.fits_of_inhabits ht hv⟩

theorem fits_nil (ht : W.strict = true → t.hasNil = true) : W.Fits w t .nil := by
  refine ⟨trivial, fun hs => ?_⟩
  rcases Ty.hasNil_iff.mp (ht hs) with rfl | rfl
  · exact rfl
  · exact trivial

theorem isFinite_of_literal {d m : Decimal} (habs : Decimal.abs .working d = .ok m)
    (hmax : Decimal.less maxDecimal m = .ok false) : d.isFinite = true := by
  cases d with
  | finite neg c e => rfl
  | infinite neg =>
    cases habs
    cases hmax
  | nan neg signaling payload =>
    cases signaling with
    | true => cases habs
    | false =>
      cases habs
      cases hmax

/-- The value of a literal is one of its type. -/
theorem fits_literal {d : Datum} {k : LiteralKind} (h : LiteralRule d k t) :
    W.Fits w t (.ofLiteral d k) := by
  cases h with
  | nil => exact fits_of_inhabits rfl rfl
  | boolean b => exact fits_of_inhabits rfl ⟨b, rfl⟩
  | integer _ _ => exact fits_of_inhabits rfl trivial
  | decimal habs hmax => exact fits_of_inhabits rfl (isFinite_of_literal habs hmax)
  | character c => exact fits_of_inhabits rfl ⟨c, rfl⟩
  | string c => exact fits_of_inhabits rfl ⟨c, rfl⟩

theorem Allows.of_isMild {f : Failure} (hf : f.IsMild) (hkind : W.strict = true → ¬ f.IsKind) :
    W.Allows f :=
  ⟨hf.static, hkind, fun _ => hf.line⟩

/-- **Operators give values of the type that their rule says, or fail as they may.** -/
theorem binary_cases {op : String} {l r : Ty} {a b : Value} (hw : W.Holds w)
    (hrule : OperatorRule op l r t) (hl : W.strict = true → l ≠ .comparable)
    (ha : W.Fits w l a) (hb : W.Fits w r b) :
    (∀ v, Value.binary w.heap op a b = .ok v → W.Fits w t v) ∧
      ∀ f, Value.binary w.heap op a b = .error f → W.Allows f := by
  have hmild := Value.isMild_binary hw.closed ha.owns hb.owns hrule.not_mem_op
  have houtcome (hs : W.strict = true) : OperatorOutcome w.heap op l r t a b := by
    have hinhabits := @Ty.inhabits_of_fits _ _ (hw.typed hs)
    exact outcome_of_rule hrule hw.closed (hinhabits (ha.fits hs)) (hinhabits (hb.fits hs))
  refine ⟨fun v hv => ⟨hmild.1 v hv, fun hs => ?_⟩,
    fun f hf => .of_isMild (hmild.2 f hf) fun hs => ?_⟩
  · exact Ty.fits_of_inhabits hrule.isPlain.2 ((houtcome hs).result v hv)
  · exact ((houtcome hs).failure f hf).not_isKind (hl hs)

/-! ### Several values -/

theorem owns_of_fits_all : ∀ {ts : List Ty} {vs : List Value}, List.Forall₂ (W.Fits w) ts vs →
    ∀ v ∈ vs, w.heap.Owns v
  | _, _, .nil, v, hv => by cases hv
  | _, _, .cons hx hxs, v, hv => by
    rcases List.mem_cons.mp hv with rfl | hv
    · exact hx.owns
    · exact owns_of_fits_all hxs v hv

theorem fits_all_of_assignable (hw : W.Holds w) : ∀ {ps ts : List Ty} {vs : List Value},
    List.Forall₂ (fun p u => Ty.assignable p u = true) ps ts → List.Forall₂ (W.Fits w) ts vs →
      List.Forall₂ (W.Fits w) ps vs
  | _, _, _, .nil, .nil => .nil
  | _, _, _, .cons hp hps, .cons hv hvs =>
    .cons (hv.assignable hw hp) (fits_all_of_assignable hw hps hvs)

theorem fits_all_of_loose (hs : W.strict = false) : ∀ {ps : List Ty} {vs : List Value},
    ps.length = vs.length → (∀ v ∈ vs, w.heap.Owns v) → List.Forall₂ (W.Fits w) ps vs
  | [], [], _, _ => .nil
  | p :: ps, v :: vs, hlength, hvs => by
    refine .cons ⟨hvs v (by simp), fun h => ?_⟩ ?_
    · rw [hs] at h
      cases h
    · exact fits_all_of_loose hs (by simpa using hlength) fun v hv => hvs v (by simp [hv])

/-- Values of types that are assignable to one type fit that type. -/
theorem fits_of_fits_all (hw : W.Holds w) : ∀ {ts : List Ty} {vs : List Value},
    (∀ u ∈ ts, t.assignable u = true) → List.Forall₂ (W.Fits w) ts vs → ∀ v ∈ vs, W.Fits w t v
  | _, _, _, .nil, v, hv => by cases hv
  | _, _, hts, .cons hx hxs, v, hv => by
    rcases List.mem_cons.mp hv with rfl | hv
    · exact hx.assignable hw (hts _ (by simp))
    · exact fits_of_fits_all hw (fun u hu => hts u (by simp [hu])) hxs v hv

/-! ### Lists, conditions and failures -/

/-- The items of a list fit the type of its elements. -/
theorem Fits.item {a : Nat} {x : Value} (hw : W.Holds w) (ha : W.Fits w (.list t) (.list a))
    (hx : x ∈ w.heap.items a) : W.Fits w t x := by
  refine ⟨hw.closed a x hx, fun hs => ?_⟩
  obtain ⟨a', hvalue, ha'⟩ := ha.fits hs
  cases hvalue
  exact (hw.typed hs).items a t ha' x hx

theorem allows_tooManyDigits : W.Allows .tooManyDigits :=
  .of_isMild .tooManyDigits fun _ => id

theorem allows_unwritable (flaw : Text.Flaw) : W.Allows (.unwritable flaw) :=
  .of_isMild (.unwritable flaw) fun _ => id

theorem allows_of_equal {h : Heap} {a b : Value} {f : Failure} (hf : h.equal a b = .error f) :
    W.Allows f := by
  obtain ⟨signal, rfl⟩ := Heap.error_of_equalAt hf
  exact .of_isMild (.signal signal) fun _ => id

theorem eq_list_of_requireList {x : Name} {a : Nat} (h : requireList x v = .ok a) :
    v = .list a := by
  cases v with
  | list b =>
    cases h
    rfl
  | _ => cases h

theorem allows_of_requireList {x : Name} {f : Failure} (hv : W.Fits w (.list t) v)
    (hx : (∀ y ∈ W.vars, y.name.IsLine) → x.IsLine) (h : requireList x v = .error f) :
    W.Allows f := by
  by_cases hlist : ∃ a, v = .list a
  · obtain ⟨a, rfl⟩ := hlist
    cases h
  · cases (requireList_error fun a ha => hlist ⟨a, ha⟩).symm.trans h
    refine ⟨id, fun hs => ?_, fun hvars => ?_⟩
    · obtain ⟨a, rfl, -⟩ := hv.fits hs
      exact absurd ⟨a, rfl⟩ hlist
    · have hshown := (hx hvars).not_mem_shown
      intro s hs
      rcases List.mem_pair.mp hs with rfl | rfl
      · exact v.not_mem_kindName
      · exact hshown

theorem allows_of_requireBoolean {construct : String} {f : Failure} (hv : W.Fits w t v)
    (ht : Ty.boolean.assignable t = true) (hconstruct : '\n' ∉ construct.toList)
    (h : requireBoolean construct v = .error f) : W.Allows f := by
  by_cases hboolean : ∃ b, v = .bool b
  · obtain ⟨b, rfl⟩ := hboolean
    cases h
  · cases (requireBoolean_error fun b hb => hboolean ⟨b, hb⟩).symm.trans h
    refine ⟨id, fun hs => ?_, fun _ s hs => ?_⟩
    · rcases Ty.assignable_iff.mp ht with ht | rfl | ⟨ht, -⟩
      · cases ht
      · exact absurd (hv.fits hs) hboolean
      · cases ht
    · rcases List.mem_pair.mp hs with rfl | rfl
      · exact hconstruct
      · exact v.not_mem_kindName

theorem allows_of_position {size : Nat} {f : Failure} (h : position v size = .error f) :
    W.Allows f := by
  unfold position at h
  split at h
  · cases h
    exact .of_isMild (.run id (List.forall_mem_singleton.mpr v.not_mem_kindName)) fun _ => id
  · next k hk =>
    split_ifs at h
    rcases error_of_bind h with h | ⟨line, -, h⟩
    · rcases Heap.showInt_cases k with ⟨-, hshow⟩ | ⟨-, hshow⟩
      · cases hshow.symm.trans h
      · cases hshow.symm.trans h
        exact allows_tooManyDigits
    · cases h
      exact .of_isMild (.run id (List.forall_mem_nil _)) fun _ => id

theorem lt_of_position {size k : Nat} (h : position v size = .ok k) : k < size := by
  unfold position at h
  split at h
  · cases h
  · split_ifs at h with hk
    · cases h
      simp only [Bool.and_eq_true, decide_eq_true_eq] at hk
      omega
    · obtain ⟨line, -, h⟩ := ok_of_bind h
      cases h

/-! ### Later worlds -/

theorem Holds.evolves (hw : W.Holds w) (n : Nat) : W.Evolves n w w :=
  ⟨hw, .of_eq rfl rfl, .refl n w.scopes⟩

theorem Evolves.trans (h : W.Evolves n w w') (h' : W.Evolves n w' w'') : W.Evolves n w w'' :=
  ⟨h'.holds, h.grows.trans h'.grows, h.keeps.trans h'.keeps⟩

theorem Evolves.mono {m : Nat} (h : W.Evolves n w w') (hm : m ≤ n) : W.Evolves m w w' :=
  ⟨h.holds, h.grows, h.keeps.mono hm⟩

/-! ### Names -/

section Names

variable {f f' : Forest Binding Callable}

theorem Shows.keeps (h : W.Shows f s Γ) (hf : f.IsNested) (hkeeps : Keeps (s + 1) f f') :
    W.Shows f' s Γ := by
  refine ⟨lt_of_lt_of_le h.lt hkeeps.size_le, fun k x hx => ?_, h.funs⟩
  rw [hkeeps.origin?_eq hf h.lt]
  exact h.vars k x hx

theorem Shows.later (h : W.Shows w.scopes s Γ) (hw : W.Holds w) (hlater : W.Evolves (s + 1) w w') :
    W.Shows w'.scopes s Γ :=
  h.keeps hw.nested hlater.keeps

/-- Only the variables and functions of a context matter. -/
theorem Shows.congr {Γ' : Context} (h : W.Shows f s Γ) (hvars : Γ'.vars = Γ.vars)
    (hfuns : Γ'.funs = Γ.funs) : W.Shows f s Γ' := by
  refine ⟨h.lt, fun k x hx => h.vars k x ?_, fun k n g hg => h.funs k n g ?_⟩
  · rwa [Context.findVariable?, ← hvars]
  · rwa [Context.findFunction?, ← hfuns]

theorem Shows.child (h : W.Shows f s Γ) (hf : f.IsNested) : W.Shows (f.addChild s) f.size Γ := by
  refine ⟨by simp, fun k x hx => ?_, h.funs⟩
  rw [origin?, Forest.findVariable?_addChild hf]
  exact h.vars k x hx

/-- What is declared in a scope is shown there. -/
theorem Shows.declare {x : Variable} {l : Label} {b : Binding} (h : W.Shows f s Γ)
    (hf : f.IsNested) (hx : x ∈ W.vars) (hl : l.name = x.name) (hb : b.origin = some x.origin) :
    W.Shows (f.defineVariable s l (some b)) s (Γ.declare x) := by
  refine ⟨by simpa using h.lt, fun k y hy => ?_, h.funs⟩
  rw [Context.declare, Context.findVariable?_cons Γ x hl] at hy
  rw [origin?, Forest.findVariable?_defineVariable h.lt hf]
  split_ifs at hy ⊢ with hk
  · cases hy
    exact ⟨hx, hb⟩
  · exact h.vars k y hy

/-- **A name means a binding of the variable that the context says.** -/
theorem Shows.resolve {k : Key} {x : Variable} (h : W.Shows w.scopes s Γ) (hW : W.IsSound)
    (hw : W.Holds w) (hx : Γ.findVariable? k = some x) :
    ∃ b, w.scopes.findVariable? s k = some b ∧ b.IsOf x ∧ W.Fits w x.type b.value := by
  obtain ⟨hmem, horigin⟩ := h.vars k x hx
  obtain ⟨b, hb, hbo⟩ := Option.bind_eq_some_iff.mp horigin
  obtain ⟨u, -, hown, -⟩ := own_of_findVariable? hb
  obtain ⟨b', hbb', y, hy, hby, hfits⟩ := hw.bindings u k _ hown
  cases hbb'
  obtain rfl : y = x := by
    refine eq_of_origin_eq hW.nodup hy hmem ?_
    simpa using hby.origin.symm.trans hbo
  exact ⟨b, hb, hby, hfits⟩

/-- **An assignment to a mutable variable goes to a binding of it.** -/
theorem Shows.writable {m : Machine} {τ : List Ty} {x : Name} {k : Key} {y : Variable}
    (h : W.Shows m.scopes s Γ) (hW : W.IsSound) (hw : W.Holds (m.world τ)) (hk : x.key = .ok k)
    (hy : Γ.findVariable? k = some y) (hmut : y.mutable = true) :
    ∃ u b, Machine.writable x s m = .ok (u, b) ∧ u < m.scopes.size ∧
      m.scopes.ownVariable? k u = some (some b) ∧ b.IsOf y ∧ W.Fits (m.world τ) y.type b.value := by
  obtain ⟨b, hb, hby, hfits⟩ := h.resolve hW hw hy
  obtain ⟨u, hu, hown, hholder⟩ := own_of_findVariable? hb
  refine ⟨u, b, ?_, hw.nested.lt_of_mem_chain hu, hown, hby, hfits⟩
  change m.scopes.findVariable? s k = some b at hb
  rw [Machine.writable, Name.label_of_key hk, ok_bind, hb, hholder]
  simp only [hby.mutable, hmut]
  rfl

/-- The scope of the globals shows every context with the globals in force. -/
theorem Holds.shows_root (hw : W.Holds w) (hvars : Γ.vars = W.globals) (hfuns : W.Covers Γ) :
    W.Shows w.scopes root Γ := by
  refine ⟨hw.globals.lt, fun k x hx => hw.globals.vars k x ?_, hfuns⟩
  rwa [Context.findVariable?, ← hvars]

/-- What a function means does not depend on the scope. -/
theorem Holds.findFunction? (hw : W.Holds w) (hs : s < w.scopes.size) (k : Key) (n : Nat) :
    w.scopes.findFunction? s k n = W.table k n := by
  rw [Forest.findFunction?, ← hw.table]
  refine congrArg Option.join (Forest.findSome?_eq_of_others ?_ (hw.rooted s hs))
  exact fun t ht => hw.inner t ht k n

theorem Implements.signature?_eq {c : Callable} {g : Signature} (h : W.Implements c g) :
    c.signature? = some g := by
  cases h with
  | print => rfl
  | user hsignature => exact hsignature

/-- In a strict setting no name means anything with `Comparable`. -/
theorem Shows.isPlain (h : W.Shows f s Γ) (hW : W.IsSound) (hs : W.strict = true) : Γ.IsPlain := by
  refine ⟨fun k x hx => hW.plain hs x (h.vars k x hx).1, fun k n g hg => ?_⟩
  obtain ⟨-, c, hc, hsignature⟩ := h.funs k n g hg
  obtain ⟨g', hg', -, hplain⟩ := hW.table k n c hc
  cases (hsignature hs).symm.trans hg'.signature?_eq
  exact hplain hs

end Names

/-! ### Changes of the scopes -/

/-- A new scope. -/
theorem Holds.child (hw : W.Holds w) (hs : s < w.scopes.size) (hn : n ≤ w.scopes.size) :
    W.Evolves n w { w with scopes := w.scopes.addChild s } := by
  have hroot : root < w.scopes.size := hw.globals.lt
  have hgrows : w.Grows { w with scopes := w.scopes.addChild s } := .of_eq rfl rfl
  refine ⟨⟨hw.nested.addChild s, fun t ht => ?_, fun t ht k i => ?_, fun k i => ?_, ?_,
    fun t k o ho => ?_, hw.closed, hw.typed⟩, hgrows, keeps_addChild hn⟩
  · rcases Nat.lt_succ_iff_lt_or_eq.mp (by simpa using ht) with ht | rfl
    · rw [Forest.chain_addChild_of_lt ht]
      exact hw.rooted t ht
    · rw [Forest.chain_addChild_self]
      exact List.mem_cons_of_mem _ (hw.rooted s hs)
  · rcases Nat.lt_trichotomy t w.scopes.size with hlt | rfl | hgt
    · rw [Forest.ownFunction?_addChild_of_lt k i hlt]
      exact hw.inner t ht k i
    · exact Forest.ownFunction?_addChild_self k i
    · exact Forest.ownFunction?_of_le (by simp; omega) k i
  · rw [Forest.ownFunction?_addChild_of_lt k i hroot]
    exact hw.table k i
  · exact hw.globals.keeps hw.nested (keeps_addChild hroot)
  · obtain ⟨b, rfl, hb⟩ := hw.bindings t k o (Forest.ownVariable_of_addChild ho)
    exact ⟨b, rfl, hb.mono hgrows⟩

/-- A definition, if the globals are shown as before. -/
theorem Holds.define {l : Label} {b : Binding} (hw : W.Holds w) (hb : W.Explains w b)
    (hglobals : W.Shows (w.scopes.defineVariable s l (some b)) root ⟨W.globals, [], 0⟩) :
    W.Holds { w with scopes := w.scopes.defineVariable s l (some b) } := by
  refine ⟨hw.nested.defineVariable, fun t ht => ?_, fun t ht k i => ?_, fun k i => ?_, hglobals,
    fun t k o ho => ?_, hw.closed, hw.typed⟩
  · rw [Forest.chain_defineVariable]
    exact hw.rooted t (by simpa using ht)
  · rw [Forest.ownFunction?_defineVariable]
    exact hw.inner t ht k i
  · rw [Forest.ownFunction?_defineVariable]
    exact hw.table k i
  · have hgrows : w.Grows { w with scopes := w.scopes.defineVariable s l (some b) } :=
      .of_eq rfl rfl
    rcases Forest.ownVariable_of_defineVariable ho with ⟨-, rfl⟩ | hold
    · exact ⟨b, rfl, hb.mono hgrows⟩
    · obtain ⟨b', rfl, hb'⟩ := hw.bindings t k o hold
      exact ⟨b', rfl, hb'.mono hgrows⟩

/-- A definition in an inner scope. -/
theorem Holds.declare {l : Label} {b : Binding} (hw : W.Holds w) (hroot : root < s)
    (hb : W.Explains w b) :
    W.Evolves s w { w with scopes := w.scopes.defineVariable s l (some b) } := by
  refine ⟨hw.define hb ?_, .of_eq rfl rfl, keeps_defineVariable le_rfl⟩
  exact hw.globals.keeps hw.nested (keeps_defineVariable hroot)

/-- A new value of a variable. -/
theorem Holds.assign {l : Label} {b : Binding} (hw : W.Holds w) (hs : s < w.scopes.size)
    (hown : w.scopes.ownVariable? l.key s = some (some b))
    (hb : W.Explains w { b with value := v }) :
    W.Evolves n w
      { w with scopes := w.scopes.defineVariable s l (some { b with value := v }) } := by
  refine ⟨hw.define hb ?_, .of_eq rfl rfl, keeps_assign hs hown⟩
  exact hw.globals.keeps hw.nested (keeps_assign hs hown)

/-! ### Changes of the heap -/

theorem Holds.reheap {h : Heap} {τ : List Ty} (hw : W.Holds w)
    (hgrows : w.Grows ⟨w.scopes, h, τ⟩) (hclosed : h.IsClosed)
    (htyped : W.strict = true → h.Typed τ) : W.Evolves n w ⟨w.scopes, h, τ⟩ := by
  refine ⟨⟨hw.nested, hw.rooted, hw.inner, hw.table, hw.globals, fun t k o ho => ?_, hclosed,
    htyped⟩, hgrows, .refl n w.scopes⟩
  obtain ⟨b, rfl, hb⟩ := hw.bindings t k o ho
  exact ⟨b, rfl, hb.mono hgrows⟩

/-- **A new list.** -/
theorem Holds.alloc {vs : List Value} (hw : W.Holds w) (hvs : ∀ v ∈ vs, W.Fits w t v) (n : Nat) :
    W.Evolves n w ⟨w.scopes, (w.heap.alloc vs.toArray).2, w.typing ++ [t]⟩ ∧
      W.Fits ⟨w.scopes, (w.heap.alloc vs.toArray).2, w.typing ++ [t]⟩ (.list t)
        (.list w.heap.cells.size) := by
  have hsize := w.heap.size_alloc vs.toArray
  have halloc (hs : W.strict = true) := (hw.typed hs).alloc fun v hv => (hvs v hv).fits hs
  constructor
  · refine hw.reheap ⟨List.prefix_append _ _, ?_⟩ (hw.closed.alloc fun v hv => (hvs v hv).owns)
      fun hs => (halloc hs).1
    rw [hsize]
    exact Nat.le_succ _
  · refine ⟨?_, fun hs => (halloc hs).2⟩
    change _ < _
    rw [hsize]
    exact Nat.lt_succ_self _

/-- **A new item of a list.** -/
theorem Holds.set {a : Nat} (hw : W.Holds w) (ha : W.Fits w (.list t) (.list a))
    (hv : W.Fits w t v) (n k : Nat) :
    W.Evolves n w { w with heap := w.heap.set a k v } := by
  refine hw.reheap ⟨List.prefix_refl _, ?_⟩ (hw.closed.set k ha.owns hv.owns) fun hs => ?_
  · exact (w.heap.size_set a k v).ge
  · obtain ⟨a', hvalue, ha'⟩ := ha.fits hs
    cases hvalue
    exact (hw.typed hs).set k ha' (hv.fits hs)

/-! ### Changes of the setting -/

section Change

variable {W' : Setting}

theorem Fits.congr (hv : W.Fits w t v) (hstrict : W'.strict = W.strict) : W'.Fits w t v :=
  ⟨hv.owns, fun hs => hv.fits (hstrict ▸ hs)⟩

theorem Explains.congr {b : Binding} (hb : W.Explains w b) (hstrict : W'.strict = W.strict)
    (hvars : W'.vars = W.vars) : W'.Explains w b := by
  obtain ⟨x, hx, hbx, hfits⟩ := hb
  exact ⟨x, hvars ▸ hx, hbx, hfits.congr hstrict⟩

theorem covers_nil (W : Setting) (globals : List Variable) (i : Nat) :
    W.Covers ⟨globals, [], i⟩ := by
  intro k n g hg
  cases hg

/-- The invariant for other globals that are in force. -/
theorem Holds.of_globals (hw : W.Holds w) (hstrict : W'.strict = W.strict)
    (hvars : W'.vars = W.vars) (htable : W'.table = W.table)
    (hglobals : W'.Shows w.scopes root ⟨W'.globals, [], 0⟩) : W'.Holds w := by
  refine ⟨hw.nested, hw.rooted, hw.inner, fun k n => ?_, hglobals, fun t k o ho => ?_, hw.closed,
    fun hs => hw.typed (hstrict ▸ hs)⟩
  · rw [htable]
    exact hw.table k n
  · obtain ⟨b, rfl, hb⟩ := hw.bindings t k o ho
    exact ⟨b, rfl, hb.congr hstrict hvars⟩

/-- A global more. -/
theorem Holds.defineGlobal {x : Variable} {l : Label} {b : Binding} (hw : W.Holds w)
    (hstrict : W'.strict = W.strict) (hvars : W'.vars = W.vars) (htable : W'.table = W.table)
    (hglobals : W'.globals = x :: W.globals) (hx : x ∈ W.vars) (hl : l.name = x.name)
    (hb : b.IsOf x) (hv : W.Fits w x.type b.value) :
    W'.Holds { w with scopes := w.scopes.defineVariable root l (some b) } := by
  have hshows : W'.Shows w.scopes root ⟨W.globals, [], 0⟩ := by
    refine ⟨hw.globals.lt, fun k y hy => ?_, covers_nil W' W.globals 0⟩
    rw [hvars]
    exact hw.globals.vars k y hy
  -- Between the two settings no global is in force, since the new one may hide an old one.
  let W₀ : Setting := { W with globals := [] }
  have hw₀ : W₀.Holds w := by
    refine hw.of_globals rfl rfl rfl ⟨hw.globals.lt, fun k y hy => ?_, covers_nil W₀ [] 0⟩
    cases hy
  have hdefined : W₀.Holds { w with scopes := w.scopes.defineVariable root l (some b) } := by
    refine hw₀.define ⟨x, hx, hb, hv.congr rfl⟩ ?_
    refine ⟨by simpa using hw.globals.lt, fun k y hy => ?_, covers_nil W₀ [] 0⟩
    cases hy
  refine hdefined.of_globals hstrict hvars htable ?_
  rw [hglobals]
  exact (hshows.declare hw.nested (hvars ▸ hx) hl hb.origin).congr rfl rfl

/-- A function more. -/
theorem Holds.defineFunction {l : Label} {c : Callable} {i : Nat} (hw : W.Holds w)
    (hstrict : W'.strict = W.strict) (hvars : W'.vars = W.vars)
    (hglobals : W'.globals = W.globals)
    (htable : ∀ k n, W'.table k n = if k = l.key ∧ n = i then some c else W.table k n) :
    W'.Holds { w with scopes := w.scopes.defineFunction root l i (some c) } := by
  refine ⟨hw.nested.defineFunction, fun t ht => ?_, fun t ht k n => ?_, fun k n => ?_, ?_,
    fun t k o ho => ?_, hw.closed, fun hs => hw.typed (hstrict ▸ hs)⟩
  · rw [Forest.chain_defineFunction]
    exact hw.rooted t (by simpa using ht)
  · rw [Forest.ownFunction?_defineFunction_of_ne k n ht]
    exact hw.inner t ht k n
  · rw [Forest.ownFunction?_defineFunction_self k n hw.globals.lt, htable]
    split_ifs
    · rfl
    · exact hw.table k n
  · refine ⟨by simpa using hw.globals.lt, fun k x hx => ?_, covers_nil W' W'.globals 0⟩
    rw [hvars, origin?, Forest.findVariable?_defineFunction]
    rw [hglobals] at hx
    exact hw.globals.vars k x hx
  · rw [Forest.ownVariable?_defineFunction] at ho
    obtain ⟨b, rfl, hb⟩ := hw.bindings t k o ho
    exact ⟨b, rfl, (hb.congr hstrict hvars).mono (.of_eq rfl rfl)⟩

end Change

end Scriptlet.Setting
