import Scriptlet.Proofs.Typing.Declarations

/-! # What well-typed programs declare

All variables of a filled program, from its globals, its parameters and its local declarations at
any depth. Declarations are numbered in the order in which they are walked, so no two variables have
one origin, and an origin identifies the declaration that a binding was created by.

* `Program.Typed.nodup_origins`: the variables of a well-typed program have different origins.
* `Program.Typed.isPlain_variables`: without the type name `Comparable`, no variable has a type with
  it.
* `Program.Typed.names`: variables have the names that are written in the program. -/

namespace Scriptlet

mutual

/-- A statement and all statements in it, in the order of the text. -/
def Stmt.nested : Stmt → List Stmt
  | .branch c t e => .branch c t e :: (Stmt.nestedIn t ++ Stmt.nestedIn e)
  | .switch c cs => .switch c cs :: Case.nestedIn cs
  | .loop c b => .loop c b :: Stmt.nestedIn b
  | x => [x]
termination_by structural x => x

/-- The statements of a block and all statements in them. -/
def Stmt.nestedIn : List Stmt → List Stmt
  | [] => []
  | x :: xs => x.nested ++ Stmt.nestedIn xs
termination_by structural xs => xs

/-- All statements in a case. -/
def Case.nested : Case → List Stmt
  | .equals _ b => Stmt.nestedIn b
  | .otherwise b => Stmt.nestedIn b
  | _ => []
termination_by structural c => c

/-- All statements in cases. -/
def Case.nestedIn : List Case → List Stmt
  | [] => []
  | c :: cs => c.nested ++ Case.nestedIn cs
termination_by structural cs => cs

end

theorem Stmt.mem_nested (x : Stmt) : x ∈ x.nested := by
  cases x <;> simp [Stmt.nested]

theorem Case.nested_subset {c : Case} : ∀ {cs : List Case}, c ∈ cs →
    ∀ {x : Stmt}, x ∈ c.nested → x ∈ Case.nestedIn cs
  | d :: cs, hc, x, hx => by
    rw [Case.nestedIn, List.mem_append]
    rcases List.mem_cons.mp hc with rfl | hc
    · exact Or.inl hx
    · exact Or.inr (Case.nested_subset hc hx)

/-- Cases leave what is in force around them as it is. -/
theorem Case.Typed.context {Γ Γ' : Context} {t : Ty} {c : Case} (h : Case.Typed Γ t c Γ') :
    Γ'.vars = Γ.vars ∧ Γ'.funs = Γ.funs := by
  cases h <;> exact ⟨rfl, rfl⟩

theorem Case.ListTyped.context : ∀ {Γ Γ' : Context} {t : Ty} {cs : List Case},
    Case.ListTyped Γ t cs Γ' → Γ'.vars = Γ.vars ∧ Γ'.funs = Γ.funs
  | _, _, _, _, .nil => ⟨rfl, rfl⟩
  | _, _, _, _, .cons hc hcs => by
    obtain ⟨hvars, hfuns⟩ := hc.context
    obtain ⟨hvars', hfuns'⟩ := hcs.context
    exact ⟨hvars'.trans hvars, hfuns'.trans hfuns⟩

/-- Each case is well typed with what is in force around the switch. -/
theorem Case.ListTyped.typed_of_mem {c : Case} : ∀ {Γ Γ' : Context} {t : Ty} {cs : List Case},
    Case.ListTyped Γ t cs Γ' → c ∈ cs →
      ∃ Γ₁ Γ₂, Γ₁.vars = Γ.vars ∧ Γ₁.funs = Γ.funs ∧ Case.Typed Γ₁ t c Γ₂
  | _, _, _, _, .cons hd hcs, hc => by
    rcases List.mem_cons.mp hc with rfl | hc
    · exact ⟨_, _, rfl, rfl, hd⟩
    · obtain ⟨hvars, hfuns⟩ := hd.context
      obtain ⟨Γ₁, Γ₂, hvars', hfuns', hc⟩ := hcs.typed_of_mem hc
      exact ⟨Γ₁, Γ₂, hvars'.trans hvars, hfuns'.trans hfuns, hc⟩

/-- The block of each case is well typed with what is in force around the switch. -/
theorem Case.ListTyped.block_of_mem {Γ Γ' : Context} {t : Ty} {cs : List Case} {b : List Stmt}
    (h : Case.ListTyped Γ t cs Γ') (hb : (∃ e, Case.equals e b ∈ cs) ∨ Case.otherwise b ∈ cs) :
    ∃ Γ₁ Γ₂, Γ₁.vars = Γ.vars ∧ Γ₁.funs = Γ.funs ∧ Stmt.BlockTyped Γ₁ b Γ₂ ∧
      ∀ x ∈ Stmt.nestedIn b, x ∈ Case.nestedIn cs := by
  rcases hb with ⟨e, hc⟩ | hc
  · obtain ⟨Γ₁, Γ₂, hvars, hfuns, hcase⟩ := h.typed_of_mem hc
    cases hcase with
    | equals _ _ hblock =>
      exact ⟨Γ₁, _, hvars, hfuns, hblock, fun x hx => Case.nested_subset hc hx⟩
  · obtain ⟨Γ₁, Γ₂, hvars, hfuns, hcase⟩ := h.typed_of_mem hc
    cases hcase with
    | otherwise hblock =>
      exact ⟨Γ₁, _, hvars, hfuns, hblock, fun x hx => Case.nested_subset hc hx⟩

/-- The variable that a statement declares itself. -/
def Stmt.declares? : Stmt → Option Variable
  | .declare _ _ _ v => v
  | _ => none

/-- The variables of the parameters of a function. -/
def FuncDecl.parameters (d : FuncDecl) : List Variable :=
  match d.signature with
  | some f => paramVariables f.declaration 0 d.params f.params
  | none => []

/-- The variables of a function: its parameters, and what is declared in its body. -/
def FuncDecl.variables (d : FuncDecl) : List Variable :=
  d.parameters ++ (Stmt.nestedIn d.body).filterMap Stmt.declares?

/-- The declarations of the functions of a program. -/
def Program.funcDecls (p : Program) : List FuncDecl :=
  p.functions.filterMap fun
    | .decl d => some d
    | .hole _ => none

/-- All variables of a filled program. -/
def Program.variables (p : Program) : List Variable :=
  p.declaredGlobals ++ p.funcDecls.flatMap FuncDecl.variables

/-! ### Origins -/

/-- Whether variables have different origins with numbers in a range. -/
structure Numbered (lo hi : Nat) (vs : List Variable) : Prop where
  le : lo ≤ hi
  bounds : ∀ v ∈ vs, lo ≤ v.origin.declaration ∧ v.origin.declaration < hi
  nodup : (vs.map Variable.origin).Nodup

namespace Numbered

variable {lo mid hi : Nat} {vs ws : List Variable}

theorem nil (lo : Nat) : Numbered lo lo [] :=
  ⟨le_rfl, by simp, by simp⟩

theorem append (h : Numbered lo mid vs) (h' : Numbered mid hi ws) :
    Numbered lo hi (vs ++ ws) := by
  have hle := h.le
  have hle' := h'.le
  refine ⟨le_trans hle hle', fun v hv => ?_, ?_⟩
  · rcases List.mem_append.mp hv with hv | hv
    · have := h.bounds v hv
      omega
    · have := h'.bounds v hv
      omega
  · rw [List.map_append]
    refine List.nodup_append.mpr ⟨h.nodup, h'.nodup, ?_⟩
    rintro o ho o' ho' rfl
    obtain ⟨v, hv, rfl⟩ := List.mem_map.mp ho
    obtain ⟨w, hw, how⟩ := List.mem_map.mp ho'
    have hbv := h.bounds v hv
    have hbw := h'.bounds w hw
    rw [how] at hbw
    omega

theorem singleton {v : Variable} (hv : v.origin.declaration = lo) : Numbered lo (lo + 1) [v] :=
  ⟨by omega, by simp [hv], by simp⟩

end Numbered

mutual

/-- The declarations in a statement take the numbers between its two contexts. -/
theorem Stmt.Typed.numbered : ∀ {Γ Γ' : Context} {x : Stmt}, Stmt.Typed Γ x Γ' →
    Numbered Γ.next Γ'.next (x.nested.filterMap Stmt.declares?)
  | Γ, _, _, .expr _ => .nil Γ.next
  | _, _, _, .declare _ _ hv => .singleton (by rw [hv])
  | Γ, _, _, .assign _ _ _ _ _ => .nil Γ.next
  | _, _, _, .branch _ _ hthen helse => by
    rw [Stmt.nested, List.filterMap_cons_none rfl, List.filterMap_append]
    exact hthen.numbered.append helse.numbered
  | _, _, _, .switch _ hcs => by
    rw [Stmt.nested, List.filterMap_cons_none rfl]
    exact hcs.numbered
  | _, _, _, .loop _ _ hb => by
    rw [Stmt.nested, List.filterMap_cons_none rfl]
    exact hb.numbered
  | Γ, _, _, .ret _ => .nil Γ.next

theorem Stmt.BlockTyped.numbered : ∀ {Γ Γ' : Context} {xs : List Stmt}, Stmt.BlockTyped Γ xs Γ' →
    Numbered Γ.next Γ'.next ((Stmt.nestedIn xs).filterMap Stmt.declares?)
  | Γ, _, _, .nil => .nil Γ.next
  | _, _, _, .cons hx hxs => by
    rw [Stmt.nestedIn, List.filterMap_append]
    exact hx.numbered.append hxs.numbered

theorem Case.Typed.numbered : ∀ {Γ Γ' : Context} {t : Ty} {c : Case}, Case.Typed Γ t c Γ' →
    Numbered Γ.next Γ'.next (c.nested.filterMap Stmt.declares?)
  | _, _, _, _, .equals _ _ hb => by
    rw [Case.nested]
    exact hb.numbered
  | _, _, _, _, .otherwise hb => by
    rw [Case.nested]
    exact hb.numbered

theorem Case.ListTyped.numbered : ∀ {Γ Γ' : Context} {t : Ty} {cs : List Case},
    Case.ListTyped Γ t cs Γ' →
      Numbered Γ.next Γ'.next ((Case.nestedIn cs).filterMap Stmt.declares?)
  | Γ, _, _, _, .nil => .nil Γ.next
  | _, _, _, _, .cons hc hcs => by
    rw [Case.nestedIn, List.filterMap_append]
    exact hc.numbered.append hcs.numbered

end

/-- Parameters have the number of their function, and their places. -/
theorem origin_of_paramVariables {n : Nat} :
    ∀ {ps : List Param} {ts : List Ty} {i : Nat} {v : Variable},
      v ∈ paramVariables n i ps ts → ∃ j ≥ i, v.origin = ⟨n, some j⟩
  | [], _, _, _, hv => by cases hv
  | _ :: _, [], _, _, hv => by cases hv
  | p :: ps, t :: ts, i, v, hv => by
    rw [paramVariables, List.mem_append] at hv
    rcases hv with hv | hv
    · obtain ⟨x, -, rfl⟩ := Option.map_eq_some_iff.mp (Option.mem_toList.mp hv)
      exact ⟨i, le_rfl, rfl⟩
    · obtain ⟨j, hj, hv⟩ := origin_of_paramVariables hv
      exact ⟨j, by omega, hv⟩

theorem nodup_paramVariables {n : Nat} :
    ∀ {ps : List Param} {ts : List Ty} {i : Nat},
      ((paramVariables n i ps ts).map Variable.origin).Nodup
  | [], _, _ => by simp [paramVariables]
  | _ :: _, [], _ => by simp [paramVariables]
  | p :: ps, t :: ts, i => by
    rw [paramVariables]
    cases Analysis.paramName? p with
    | none => exact nodup_paramVariables
    | some x =>
      refine List.nodup_cons.mpr ⟨fun h => ?_, nodup_paramVariables⟩
      obtain ⟨v, hv, ho⟩ := List.mem_map.mp h
      obtain ⟨j, hj, ho'⟩ := origin_of_paramVariables hv
      have hij : i = j := by simpa using ho.symm.trans ho'
      omega

theorem FuncDecl.Typed.numbered {Γ Γ' : Context} {d : FuncDecl} (h : d.Typed Γ Γ') :
    Numbered Γ.next Γ'.next d.variables := by
  obtain @⟨ps, r, k, f, Γ₁, hps, hr, hk, hf, hslot, hkeys, hbody, hret⟩ := h
  have hparams : Numbered Γ.next (Γ.next + 1) (paramVariables Γ.next 0 d.params ps) := by
    refine ⟨by omega, fun v hv => ?_, nodup_paramVariables⟩
    obtain ⟨j, -, hj⟩ := origin_of_paramVariables hv
    rw [hj]
    exact ⟨le_rfl, Nat.lt_succ_self _⟩
  rw [FuncDecl.variables, FuncDecl.parameters, hslot, hf]
  exact hparams.append hbody.numbered

theorem Global.ListTyped.numbered : ∀ {Γ Γ' : Context} {gs : List Global},
    Global.ListTyped Γ gs Γ' → Numbered Γ.next Γ'.next (gs.filterMap Global.declared?)
  | Γ, _, _, .nil => .nil Γ.next
  | Γ, _, _, .cons hd hgs => by
    obtain ⟨ht, hk, hv, hslot⟩ := hd
    rw [List.filterMap_cons_some (by exact hslot)]
    exact (Numbered.singleton (by rw [hv])).append hgs.numbered

/-- A global that is filled declares a variable of its own name. -/
theorem Global.ListTyped.name_of_mem {g : Global} {v : Variable} :
    ∀ {Γ Γ' : Context} {gs : List Global}, Global.ListTyped Γ gs Γ' → g ∈ gs →
      g.declared? = some v → ∃ d, g = .decl d ∧ v.name = d.name
  | _, _, _, .cons hd hgs, hg, hv => by
    rcases List.mem_cons.mp hg with rfl | hg
    · obtain ⟨-, -, hx, hslot⟩ := hd
      obtain rfl := Option.some.inj (hslot.symm.trans hv)
      exact ⟨_, rfl, by rw [hx]⟩
    · exact hgs.name_of_mem hg hv

theorem Func.ListTyped.numbered : ∀ {Γ Γ' : Context} {fs : List Func}, Func.ListTyped Γ fs Γ' →
    Numbered Γ.next Γ'.next ((Program.funcDecls ⟨[], fs⟩).flatMap FuncDecl.variables)
  | Γ, _, _, .nil => .nil Γ.next
  | _, _, _, .cons hd hfs => hd.numbered.append hfs.numbered

/-- **The variables of a well-typed program have different origins.** -/
theorem Program.Typed.nodup_origins {p : Program} {Γ : Context} (h : p.Typed Γ) :
    (p.variables.map Variable.origin).Nodup := by
  obtain ⟨hgs, hfs⟩ := h
  exact (hgs.numbered.append hfs.numbered).nodup

/-- An origin identifies a variable. -/
theorem eq_of_origin_eq {vs : List Variable} (h : (vs.map Variable.origin).Nodup) {v w : Variable}
    (hv : v ∈ vs) (hw : w ∈ vs) (ho : v.origin = w.origin) : v = w :=
  List.inj_on_of_nodup_map h hv hw ho

/-! ### Types without `Comparable` -/

/-- Whether a type is not made from `Comparable`. -/
def Ty.IsPlain : Ty → Prop
  | .comparable => False
  | .list t => t.IsPlain
  | _ => True

theorem Ty.IsPlain.ne_comparable {t : Ty} (h : t.IsPlain) : t ≠ .comparable := by
  rintro rfl
  exact h

/-- The name of the type that `Comparable` stands for. -/
def Name.comparable : Name := .text "Comparable"

theorem Name.Denotes.isPlain {n : Name} {t : Ty} (h : n.Denotes t) (hn : n ≠ .comparable) :
    t.IsPlain := by
  obtain ⟨ht, rfl⟩ := h
  simp only [Ty.named, List.mem_cons, List.not_mem_nil, or_false] at ht
  rcases ht with rfl | rfl | rfl | rfl | rfl | rfl | rfl | rfl
  case inr.inr.inr.inl => exact (hn rfl).elim
  all_goals trivial

theorem OperatorRule.isPlain {op : String} {l r t : Ty} (h : OperatorRule op l r t) :
    t.IsPlain ∧ t.element? = none := by
  cases h with
  | logic => exact ⟨trivial, rfl⟩
  | comparison => exact ⟨trivial, rfl⟩
  | concatenation => exact ⟨trivial, rfl⟩
  | sum ht => rcases ht with rfl | rfl <;> exact ⟨trivial, rfl⟩
  | arithmetic _ hl _ => rcases hl with rfl | rfl <;> exact ⟨trivial, rfl⟩
  | power => exact ⟨trivial, rfl⟩

/-- Whether no variable and no function that a name can mean has a type with `Comparable`. -/
structure Context.IsPlain (Γ : Context) : Prop where
  vars : ∀ k v, Γ.findVariable? k = some v → v.type.IsPlain
  funs : ∀ k n f, Γ.findFunction? k n = some f → f.returns.IsPlain

/-- Expressions in a plain context have plain types. -/
theorem Expr.HasType.isPlain {Γ : Context} (hΓ : Γ.IsPlain) :
    ∀ {e : Expr} {t : Ty}, e.HasType Γ t → t.IsPlain
  | _, _, .literal hrule => by cases hrule <;> trivial
  | _, _, .group he => he.isPlain hΓ
  | _, _, .binary _ _ hrule => hrule.isPlain.1
  | _, _, .name _ hv ht => ht ▸ hΓ.vars _ _ hv
  | _, _, .index _ _ _ hv ht => by
    have := hΓ.vars _ _ hv
    rwa [ht] at this
  | _, _, .call _ _ hf _ ht => ht ▸ hΓ.funs _ _ _ hf
  | _, _, .list (.cons he _) _ => by
    have := he.isPlain hΓ
    exact this

theorem Context.IsPlain.start : Context.start.IsPlain := by
  refine ⟨fun k v hv => (by cases hv), fun k n f hf => ?_⟩
  obtain rfl := List.mem_singleton.mp (List.mem_of_find?_eq_some hf)
  trivial

theorem Context.IsPlain.declare {Γ : Context} {v : Variable} (hΓ : Γ.IsPlain)
    (hv : v.type.IsPlain) : (Γ.declare v).IsPlain := by
  refine ⟨fun k w hw => ?_, hΓ.funs⟩
  rcases List.find?_cons_eq_some.mp hw with ⟨-, rfl⟩ | ⟨-, hw⟩
  · exact hv
  · exact hΓ.vars k w hw

theorem Context.IsPlain.leave {Γ : Context} (hΓ : Γ.IsPlain) (Γ' : Context) :
    (Γ.leave Γ').IsPlain :=
  ⟨hΓ.vars, hΓ.funs⟩

/-- The type name that is written in a statement itself. -/
def Stmt.typeName? : Stmt → Option Name
  | .declare _ n _ _ => n
  | _ => none

theorem Declares.isPlain {Γ : Context} {n : Option Name} {value : Option Expr} {t : Ty}
    (hΓ : Γ.IsPlain) (h : Declares Γ n value t) (hn : n ≠ some .comparable) : t.IsPlain := by
  cases h with
  | written hm => exact hm.isPlain (by simpa using hn)
  | inferred he => exact he.isPlain hΓ
  | checked hm _ _ => exact hm.isPlain (by simpa using hn)

mutual

theorem Stmt.Typed.isPlain : ∀ {Γ Γ' : Context} {x : Stmt}, Γ.IsPlain → Stmt.Typed Γ x Γ' →
    (∀ y ∈ x.nested, y.typeName? ≠ some .comparable) →
      Γ'.IsPlain ∧ ∀ v ∈ x.nested.filterMap Stmt.declares?, v.type.IsPlain
  | _, _, _, hΓ, .expr _, _ => ⟨hΓ, by simp [Stmt.nested, Stmt.declares?]⟩
  | _, _, _, hΓ, .declare (v := v) ht _ hv, hx => by
    have hn := hx _ (List.mem_singleton.mpr rfl)
    have hplain : v.type.IsPlain := by
      rw [hv]
      exact ht.isPlain hΓ hn
    exact ⟨hΓ.declare hplain, by simpa [Stmt.nested, Stmt.declares?] using hplain⟩
  | _, _, _, hΓ, .assign _ _ _ _ _, _ => ⟨hΓ, by simp [Stmt.nested, Stmt.declares?]⟩
  | _, _, _, hΓ, .branch _ _ hthen helse, hx => by
    rw [Stmt.nested] at hx ⊢
    obtain ⟨-, hx⟩ := List.forall_mem_cons.mp hx
    obtain ⟨ht, he⟩ := List.forall_mem_append.mp hx
    have hthen' := (hthen.isPlain hΓ ht).2
    have helse' := (helse.isPlain (hΓ.leave _) he).2
    refine ⟨hΓ.leave _, ?_⟩
    rw [List.filterMap_cons_none rfl, List.filterMap_append]
    exact List.forall_mem_append.mpr ⟨hthen', helse'⟩
  | _, _, _, hΓ, .switch _ hcs, hx => by
    rw [Stmt.nested] at hx ⊢
    rw [List.filterMap_cons_none rfl]
    exact hcs.isPlain hΓ (List.forall_mem_cons.mp hx).2
  | _, _, _, hΓ, .loop _ _ hb, hx => by
    rw [Stmt.nested] at hx ⊢
    rw [List.filterMap_cons_none rfl]
    exact ⟨hΓ.leave _, (hb.isPlain hΓ (List.forall_mem_cons.mp hx).2).2⟩
  | _, _, _, hΓ, .ret _, _ => ⟨hΓ, by simp [Stmt.nested, Stmt.declares?]⟩

theorem Stmt.BlockTyped.isPlain : ∀ {Γ Γ' : Context} {xs : List Stmt}, Γ.IsPlain →
    Stmt.BlockTyped Γ xs Γ' → (∀ y ∈ Stmt.nestedIn xs, y.typeName? ≠ some .comparable) →
      Γ'.IsPlain ∧ ∀ v ∈ (Stmt.nestedIn xs).filterMap Stmt.declares?, v.type.IsPlain
  | _, _, _, hΓ, .nil, _ => ⟨hΓ, by simp [Stmt.nestedIn]⟩
  | _, _, _, hΓ, .cons hx hxs, h => by
    rw [Stmt.nestedIn] at h ⊢
    obtain ⟨h₁, h₂⟩ := List.forall_mem_append.mp h
    obtain ⟨hΓ₁, hx'⟩ := hx.isPlain hΓ h₁
    obtain ⟨hΓ₂, hxs'⟩ := hxs.isPlain hΓ₁ h₂
    rw [List.filterMap_append]
    exact ⟨hΓ₂, List.forall_mem_append.mpr ⟨hx', hxs'⟩⟩

theorem Case.Typed.isPlain : ∀ {Γ Γ' : Context} {t : Ty} {c : Case}, Γ.IsPlain →
    Case.Typed Γ t c Γ' → (∀ y ∈ c.nested, y.typeName? ≠ some .comparable) →
      Γ'.IsPlain ∧ ∀ v ∈ c.nested.filterMap Stmt.declares?, v.type.IsPlain
  | _, _, _, _, hΓ, .equals _ _ hb, h => by
    rw [Case.nested] at h ⊢
    exact ⟨hΓ.leave _, (hb.isPlain hΓ h).2⟩
  | _, _, _, _, hΓ, .otherwise hb, h => by
    rw [Case.nested] at h ⊢
    exact ⟨hΓ.leave _, (hb.isPlain hΓ h).2⟩

theorem Case.ListTyped.isPlain : ∀ {Γ Γ' : Context} {t : Ty} {cs : List Case}, Γ.IsPlain →
    Case.ListTyped Γ t cs Γ' → (∀ y ∈ Case.nestedIn cs, y.typeName? ≠ some .comparable) →
      Γ'.IsPlain ∧ ∀ v ∈ (Case.nestedIn cs).filterMap Stmt.declares?, v.type.IsPlain
  | _, _, _, _, hΓ, .nil, _ => ⟨hΓ, by simp [Case.nestedIn]⟩
  | _, _, _, _, hΓ, .cons hc hcs, h => by
    rw [Case.nestedIn] at h ⊢
    obtain ⟨h₁, h₂⟩ := List.forall_mem_append.mp h
    obtain ⟨hΓ₁, hc'⟩ := hc.isPlain hΓ h₁
    obtain ⟨hΓ₂, hcs'⟩ := hcs.isPlain hΓ₁ h₂
    rw [List.filterMap_append]
    exact ⟨hΓ₂, List.forall_mem_append.mpr ⟨hc', hcs'⟩⟩

end

theorem GlobalDecl.Declares.isPlain {Γ : Context} {d : GlobalDecl} {t : Ty} (hΓ : Γ.IsPlain)
    (h : d.Declares Γ t) (hd : d.typeName ≠ some .comparable) : t.IsPlain := by
  have hlisted : ∀ {n u}, d.typeName = some n → n.Denotes u → (d.listed u).IsPlain := by
    intro n u hn hu
    have hplain := hu.isPlain fun hc => hd (by rw [hn, hc])
    unfold GlobalDecl.listed
    split
    · exact hplain
    · exact hplain
  cases h with
  | written hn hu _ => exact hlisted hn hu
  | inferred _ _ he => exact he.isPlain hΓ
  | checked hn hu _ _ _ _ => exact hlisted hn hu
  | items hn hu hlist _ _ _ =>
    have := hlisted hn hu
    rwa [GlobalDecl.listed, if_pos hlist] at this

theorem Global.ListTyped.isPlain : ∀ {Γ Γ' : Context} {gs : List Global}, Γ.IsPlain →
    Global.ListTyped Γ gs Γ' → (∀ d, Global.decl d ∈ gs → d.typeName ≠ some .comparable) →
      Γ'.IsPlain ∧ ∀ v ∈ gs.filterMap Global.declared?, v.type.IsPlain
  | _, _, _, hΓ, .nil, _ => ⟨hΓ, by simp⟩
  | _, _, _, hΓ, .cons (d := d) hd hgs, h => by
    obtain @⟨t, k, v, ht, hk, hv, hslot⟩ := hd
    have hplain : v.type.IsPlain := by
      rw [hv]
      exact ht.isPlain hΓ (h d (by simp))
    obtain ⟨hΓ', hgs'⟩ := hgs.isPlain (hΓ.declare hplain) fun d hd => h d (by simp [hd])
    rw [List.filterMap_cons_some (by exact hslot)]
    exact ⟨hΓ', List.forall_mem_cons.mpr ⟨hplain, hgs'⟩⟩

/-- The type name that is written for a parameter. -/
def Param.typeName? : Param → Option Name
  | .typed _ n => n
  | _ => none

/-- The type name that is written for a global. -/
def Global.typeName? : Global → Option Name
  | .decl d => d.typeName
  | _ => none

/-- The type names that are written in a function. -/
def FuncDecl.typeNames (d : FuncDecl) : List Name :=
  d.params.filterMap Param.typeName? ++ d.returnTypeName.toList ++
    (Stmt.nestedIn d.body).filterMap Stmt.typeName?

/-- The type names that are written in a program. -/
def Program.typeNames (p : Program) : List Name :=
  p.globals.filterMap Global.typeName? ++ p.funcDecls.flatMap FuncDecl.typeNames

theorem FuncDecl.not_mem_typeNames {d : FuncDecl} {n : Name} (h : n ∉ d.typeNames) :
    (∀ q ∈ d.params, q.typeName? ≠ some n) ∧ d.returnTypeName ≠ some n ∧
      ∀ y ∈ Stmt.nestedIn d.body, y.typeName? ≠ some n := by
  simp only [FuncDecl.typeNames, List.mem_append, not_or] at h
  obtain ⟨⟨hparams, hreturns⟩, hbody⟩ := h
  refine ⟨fun q hq hn => ?_, fun hn => ?_, fun y hy hn => ?_⟩
  · exact hparams (List.mem_filterMap.mpr ⟨q, hq, hn⟩)
  · exact hreturns (Option.mem_toList.mpr hn)
  · exact hbody (List.mem_filterMap.mpr ⟨y, hy, hn⟩)

theorem isPlain_of_paramVariables {n i : Nat} {ps : List Param} {ts : List Ty}
    (hps : List.Forall₂ Param.HasType ps ts) (h : ∀ q ∈ ps, q.typeName? ≠ some .comparable) :
    ∀ v ∈ paramVariables n i ps ts, v.type.IsPlain := by
  induction hps generalizing i with
  | nil =>
    intro v hv
    cases hv
  | cons hp _ ih =>
    intro v hv
    rw [paramVariables, List.mem_append] at hv
    rcases hv with hv | hv
    · obtain ⟨x, -, rfl⟩ := Option.map_eq_some_iff.mp (Option.mem_toList.mp hv)
      cases hp with
      | any => trivial
      | written hn =>
        refine hn.isPlain fun hc => ?_
        subst hc
        exact h _ List.mem_cons_self rfl
    · exact ih (fun q hq => h q (List.mem_cons_of_mem _ hq)) v hv

theorem Context.IsPlain.enter {Γ : Context} {vs : List Variable} (hΓ : Γ.IsPlain)
    (hvs : ∀ v ∈ vs, v.type.IsPlain) : (Γ.enter vs).IsPlain := by
  refine ⟨fun k v hv => ?_, hΓ.funs⟩
  rw [Context.findVariable?, Context.enter, List.find?_append] at hv
  rcases Option.or_eq_some_iff.mp hv with hv | ⟨-, hv⟩
  · exact hvs v (by simpa using List.mem_of_find?_eq_some hv)
  · exact hΓ.vars k v hv

theorem Context.IsPlain.declareFunction {Γ : Context} {f : Signature} (hΓ : Γ.IsPlain)
    (hf : f.returns.IsPlain) : (Γ.declareFunction f).IsPlain := by
  refine ⟨hΓ.vars, fun k n g hg => ?_⟩
  rcases List.find?_cons_eq_some.mp hg with ⟨-, rfl⟩ | ⟨-, hg⟩
  · exact hf
  · exact hΓ.funs k n g hg

theorem Returns.isPlain {n : Option Name} {t : Ty} (h : Returns n t) (hn : n ≠ some .comparable) :
    t.IsPlain := by
  cases h with
  | nil => trivial
  | written hm => exact hm.isPlain (by simpa using hn)

theorem FuncDecl.Typed.isPlain {Γ Γ' : Context} {d : FuncDecl} (hΓ : Γ.IsPlain)
    (h : d.Typed Γ Γ') (hd : Name.comparable ∉ d.typeNames) :
    Γ'.IsPlain ∧ ∀ v ∈ d.variables, v.type.IsPlain := by
  obtain ⟨hnparams, hnreturns, hnbody⟩ := FuncDecl.not_mem_typeNames hd
  obtain @⟨ps, r, k, f, Γ₁, hps, hr, hk, hf, hslot, hkeys, hbody, hret⟩ := h
  have hreturns : f.returns.IsPlain := by
    rw [hf]
    exact hr.isPlain hnreturns
  have hparams := isPlain_of_paramVariables (n := Γ.next) (i := 0) hps hnparams
  have hΓf := hΓ.declareFunction hreturns
  refine ⟨hΓf.leave _, ?_⟩
  rw [FuncDecl.variables, FuncDecl.parameters, hslot, hf]
  exact List.forall_mem_append.mpr ⟨hparams, (hbody.isPlain (hΓf.enter hparams) hnbody).2⟩

theorem Func.ListTyped.isPlain : ∀ {Γ Γ' : Context} {fs : List Func}, Γ.IsPlain →
    Func.ListTyped Γ fs Γ' → (∀ d, Func.decl d ∈ fs → Name.comparable ∉ d.typeNames) →
      Γ'.IsPlain ∧ ∀ d, Func.decl d ∈ fs → ∀ v ∈ d.variables, v.type.IsPlain
  | _, _, _, hΓ, .nil, _ => ⟨hΓ, by simp⟩
  | _, _, _, hΓ, .cons hd hfs, h => by
    obtain ⟨hΓ₁, hd'⟩ := hd.isPlain hΓ (h _ List.mem_cons_self)
    obtain ⟨hΓ₂, hfs'⟩ := hfs.isPlain hΓ₁ fun d hd => h d (List.mem_cons_of_mem _ hd)
    refine ⟨hΓ₂, fun e he => ?_⟩
    rcases List.mem_cons.mp he with he | he
    · cases he
      exact hd'
    · exact hfs' e he

theorem Program.mem_funcDecls {p : Program} {d : FuncDecl} :
    d ∈ p.funcDecls ↔ Func.decl d ∈ p.functions := by
  constructor
  · intro hd
    obtain ⟨f, hf, hdecl⟩ := List.mem_filterMap.mp hd
    cases f with
    | hole _ => cases hdecl
    | decl e =>
      cases hdecl
      exact hf
  · exact fun hd => List.mem_filterMap.mpr ⟨_, hd, rfl⟩

theorem Program.mem_variables_of_decl {p : Program} {d : FuncDecl} (hd : Func.decl d ∈ p.functions)
    {v : Variable} (hv : v ∈ d.variables) : v ∈ p.variables :=
  List.mem_append_right _ (List.mem_flatMap.mpr ⟨d, Program.mem_funcDecls.mpr hd, hv⟩)

theorem Program.not_mem_typeNames {p : Program} {d : FuncDecl} {n : Name} (h : n ∉ p.typeNames)
    (hd : Func.decl d ∈ p.functions) : n ∉ d.typeNames := fun hn =>
  h (List.mem_append_right _ (List.mem_flatMap.mpr ⟨d, Program.mem_funcDecls.mpr hd, hn⟩))

/-- **Without the type name `Comparable`, no variable has a type with it.** -/
theorem Program.Typed.isPlain_variables {p : Program} {Γ : Context} (h : p.Typed Γ)
    (hp : Name.comparable ∉ p.typeNames) : ∀ v ∈ p.variables, v.type.IsPlain := by
  obtain ⟨hgs, hfs⟩ := h
  have hglobals (d : GlobalDecl) (hd : Global.decl d ∈ p.globals) :
      d.typeName ≠ some .comparable := fun hn =>
    hp (List.mem_append_left _ (List.mem_filterMap.mpr ⟨_, hd, hn⟩))
  have hfunctions (d : FuncDecl) (hd : Func.decl d ∈ p.functions) :=
    Program.not_mem_typeNames hp hd
  obtain ⟨hΓ₁, hvars⟩ := hgs.isPlain .start hglobals
  refine List.forall_mem_append.mpr ⟨hvars, fun v hv => ?_⟩
  obtain ⟨d, hd, hv⟩ := List.mem_flatMap.mp hv
  exact (hfs.isPlain hΓ₁ hfunctions).2 d (Program.mem_funcDecls.mp hd) v hv

/-! ### Names -/

section Names

variable {P : Name → Prop}

mutual

/-- The variables that are declared in a statement have the names that are written there. -/
theorem Stmt.Typed.names : ∀ {Γ Γ' : Context} {x : Stmt}, Stmt.Typed Γ x Γ' →
    x.erase.IsTreeOf P → ∀ v ∈ x.nested.filterMap Stmt.declares?, P v.name
  | _, _, _, .expr _, _, v, hv => by cases hv
  | _, _, _, .declare _ _ hx, h, v, hv => by
    obtain rfl := List.mem_singleton.mp hv
    rw [hx]
    exact h.1
  | _, _, _, .assign _ _ _ _ _, _, v, hv => by cases hv
  | _, _, _, .branch _ _ hthen helse, h, v, hv => by
    rw [Stmt.nested, List.filterMap_cons_none rfl, List.filterMap_append] at hv
    rcases List.mem_append.mp hv with hv | hv
    · exact hthen.names h.2.1 v hv
    · exact helse.names h.2.2 v hv
  | _, _, _, .switch _ hcs, h, v, hv => by
    rw [Stmt.nested, List.filterMap_cons_none rfl] at hv
    exact hcs.names h.2 v hv
  | _, _, _, .loop _ _ hb, h, v, hv => by
    rw [Stmt.nested, List.filterMap_cons_none rfl] at hv
    exact hb.names h.2 v hv
  | _, _, _, .ret _, _, v, hv => by cases hv

theorem Stmt.BlockTyped.names : ∀ {Γ Γ' : Context} {xs : List Stmt}, Stmt.BlockTyped Γ xs Γ' →
    Stmt.AreTreesOf P (Stmt.eraseBlock xs) →
      ∀ v ∈ (Stmt.nestedIn xs).filterMap Stmt.declares?, P v.name
  | _, _, _, .nil, _, v, hv => by cases hv
  | _, _, _, .cons hx hxs, h, v, hv => by
    rw [Stmt.nestedIn, List.filterMap_append] at hv
    rcases List.mem_append.mp hv with hv | hv
    · exact hx.names h.1 v hv
    · exact hxs.names h.2 v hv

theorem Case.Typed.names : ∀ {Γ Γ' : Context} {t : Ty} {c : Case}, Case.Typed Γ t c Γ' →
    c.erase.IsTreeOf P → ∀ v ∈ c.nested.filterMap Stmt.declares?, P v.name
  | _, _, _, _, .equals _ _ hb, h, v, hv => hb.names h.2 v hv
  | _, _, _, _, .otherwise hb, h, v, hv => hb.names h v hv

theorem Case.ListTyped.names : ∀ {Γ Γ' : Context} {t : Ty} {cs : List Case},
    Case.ListTyped Γ t cs Γ' → Case.AreTreesOf P (Case.eraseAll cs) →
      ∀ v ∈ (Case.nestedIn cs).filterMap Stmt.declares?, P v.name
  | _, _, _, _, .nil, _, v, hv => by cases hv
  | _, _, _, _, .cons hc hcs, h, v, hv => by
    rw [Case.nestedIn, List.filterMap_append] at hv
    rcases List.mem_append.mp hv with hv | hv
    · exact hc.names h.1 v hv
    · exact hcs.names h.2 v hv

end

theorem names_paramVariables {n : Nat} :
    ∀ {ps : List Param} {ts : List Ty} {i : Nat}, (∀ q ∈ ps, q.IsTreeOf P) →
      ∀ v ∈ paramVariables n i ps ts, P v.name
  | [], _, _, _, v, hv => by cases hv
  | _ :: _, [], _, _, v, hv => by cases hv
  | p :: ps, t :: ts, i, h, v, hv => by
    rw [paramVariables, List.mem_append] at hv
    rcases hv with hv | hv
    · obtain ⟨x, hx, rfl⟩ := Option.map_eq_some_iff.mp (Option.mem_toList.mp hv)
      have hp := h p List.mem_cons_self
      cases p with
      | typed y _ =>
        cases hx
        exact hp.1
      | _ => cases hp
    · exact names_paramVariables (fun q hq => h q (List.mem_cons_of_mem _ hq)) v hv

/-- **The variables of a well-typed program have the names that are written in it.** -/
theorem Program.Typed.names {p : Program} {Γ : Context} (h : p.Typed Γ)
    (hp : p.erase.IsTreeOf P) : ∀ v ∈ p.variables, P v.name := by
  obtain ⟨hgs, hfs⟩ := h
  refine List.forall_mem_append.mpr ⟨fun v hv => ?_, fun v hv => ?_⟩
  · obtain ⟨g, hg, hv⟩ := List.mem_filterMap.mp hv
    obtain ⟨d, rfl, hname⟩ := hgs.name_of_mem hg hv
    rw [hname]
    exact (hp.1 _ (List.mem_map_of_mem hg)).1
  · obtain ⟨d, hd, hv⟩ := List.mem_flatMap.mp hv
    have hd := Program.mem_funcDecls.mp hd
    obtain ⟨-, hps, -, hbody⟩ := hp.2 _ (List.mem_map_of_mem hd)
    obtain ⟨Γ₁, Γ₂, htyped, -⟩ := hfs.typed_of_mem hd
    obtain @⟨ps, r, k, f, Γ₃, -, -, -, hf, hslot, -, hblock, -⟩ := htyped
    rw [FuncDecl.variables, FuncDecl.parameters, hslot, hf] at hv
    rcases List.mem_append.mp hv with hv | hv
    · exact names_paramVariables hps v hv
    · exact hblock.names hbody v hv

end Names

end Scriptlet
