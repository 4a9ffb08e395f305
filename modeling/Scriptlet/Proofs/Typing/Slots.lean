import Scriptlet.Proofs.Typing.Declarations

/-! # Slots

The slots of a tree are written once. The first analysis of a program of a text finds all of them
empty, and fills all of them if it accepts the program. A second one fails at the first slot that it
comes to, and changes nothing.

The second analysis knows the built-in function only. What it walks first has a type in a context
without variables and with that one function, so it ends at a literal.

* `Program.IsFilled`: all slots of a program are filled.
* `slots_written_once`: slots are written exactly once. -/

namespace Scriptlet

/-! ### Filled trees -/

mutual

/-- Whether all slots of an expression are filled. -/
def Expr.IsFilled : Expr → Prop
  | .literal _ _ t => t ≠ none
  | .group e t => e.IsFilled ∧ t ≠ none
  | .binary _ l r t => l.IsFilled ∧ r.IsFilled ∧ t ≠ none
  | .name _ m t => m ≠ none ∧ t ≠ none
  | .index _ o m t => o.IsFilled ∧ m ≠ none ∧ t ≠ none
  | .call _ args f t => Expr.AreFilled args ∧ f ≠ none ∧ t ≠ none
  | .list vs t => Expr.AreFilled vs ∧ t ≠ none
  | .hole _ => False
termination_by structural e => e

/-- Whether all slots of expressions are filled. -/
def Expr.AreFilled : List Expr → Prop
  | [] => True
  | e :: es => e.IsFilled ∧ Expr.AreFilled es
termination_by structural es => es

end

mutual

/-- Whether all slots of a statement are filled. -/
def Stmt.IsFilled : Stmt → Prop
  | .expr e => e.IsFilled
  | .declare _ _ value v => (∀ e ∈ value, e.IsFilled) ∧ v ≠ none
  | .assign r e => r.IsFilled ∧ e.IsFilled
  | .branch c t e => c.IsFilled ∧ Stmt.AreFilled t ∧ Stmt.AreFilled e
  | .switch c cs => c.IsFilled ∧ Case.AreFilled cs
  | .loop c b => c.IsFilled ∧ Stmt.AreFilled b
  | .ret e => e.IsFilled
  | .hole _ => False
termination_by structural x => x

/-- Whether all slots of a block are filled. -/
def Stmt.AreFilled : List Stmt → Prop
  | [] => True
  | x :: xs => x.IsFilled ∧ Stmt.AreFilled xs
termination_by structural xs => xs

/-- Whether all slots of a case are filled. -/
def Case.IsFilled : Case → Prop
  | .equals e b => e.IsFilled ∧ Stmt.AreFilled b
  | .otherwise b => Stmt.AreFilled b
  | .blockless _ => False
  | .hole _ => False
termination_by structural c => c

/-- Whether all slots of cases are filled. -/
def Case.AreFilled : List Case → Prop
  | [] => True
  | c :: cs => c.IsFilled ∧ Case.AreFilled cs
termination_by structural cs => cs

end

/-- Whether all slots of a member of the globals are filled. -/
def Global.IsFilled : Global → Prop
  | .decl d => (∀ e ∈ d.value, e.IsFilled) ∧ d.declared ≠ none
  | _ => False

/-- Whether all slots of a member of the functions are filled. -/
def Func.IsFilled : Func → Prop
  | .decl d => Stmt.AreFilled d.body ∧ d.signature ≠ none
  | .hole _ => False

/-- Whether all slots of a program are filled. -/
structure Program.IsFilled (p : Program) : Prop where
  globals : ∀ g ∈ p.globals, g.IsFilled
  functions : ∀ f ∈ p.functions, f.IsFilled

/-! ### Typed trees are filled -/

mutual

theorem Expr.HasType.isFilled {Γ : Context} : ∀ {e : Expr} {t : Ty}, e.HasType Γ t → e.IsFilled
  | _, _, .literal _ => Option.some_ne_none _
  | _, _, .group he => ⟨he.isFilled, Option.some_ne_none _⟩
  | _, _, .binary hl hr _ => ⟨hl.isFilled, hr.isFilled, Option.some_ne_none _⟩
  | _, _, .name _ _ _ => ⟨Option.some_ne_none _, Option.some_ne_none _⟩
  | _, _, .index ho _ _ _ _ => ⟨ho.isFilled, Option.some_ne_none _, Option.some_ne_none _⟩
  | _, _, .call hargs _ _ _ _ =>
    ⟨hargs.areFilled, Option.some_ne_none _, Option.some_ne_none _⟩
  | _, _, .list hes _ => ⟨hes.areFilled, Option.some_ne_none _⟩

theorem Expr.HaveTypes.areFilled {Γ : Context} : ∀ {es : List Expr} {ts : List Ty},
    Expr.HaveTypes Γ es ts → Expr.AreFilled es
  | _, _, .nil => trivial
  | _, _, .cons he hes => ⟨he.isFilled, hes.areFilled⟩

end

theorem Declares.isFilled {Γ : Context} {n : Option Name} {value : Option Expr} {t : Ty}
    (h : Declares Γ n value t) : ∀ e ∈ value, e.IsFilled := by
  intro e he
  cases h with
  | written _ => cases he
  | inferred hvalue =>
    obtain rfl := Option.some.inj he
    exact hvalue.isFilled
  | checked _ hvalue _ =>
    obtain rfl := Option.some.inj he
    exact hvalue.isFilled

mutual

theorem Stmt.Typed.isFilled : ∀ {Γ Γ' : Context} {x : Stmt}, Stmt.Typed Γ x Γ' → x.IsFilled
  | _, _, _, .expr he => he.isFilled
  | _, _, _, .declare ht _ _ => ⟨ht.isFilled, Option.some_ne_none _⟩
  | _, _, _, .assign hr _ _ he _ => ⟨hr.isFilled, he.isFilled⟩
  | _, _, _, .branch hc _ hthen helse => ⟨hc.isFilled, hthen.areFilled, helse.areFilled⟩
  | _, _, _, .switch hc hcs => ⟨hc.isFilled, hcs.areFilled⟩
  | _, _, _, .loop hc _ hb => ⟨hc.isFilled, hb.areFilled⟩
  | _, _, _, .ret he => he.isFilled

theorem Stmt.BlockTyped.areFilled : ∀ {Γ Γ' : Context} {xs : List Stmt},
    Stmt.BlockTyped Γ xs Γ' → Stmt.AreFilled xs
  | _, _, _, .nil => trivial
  | _, _, _, .cons hx hxs => ⟨hx.isFilled, hxs.areFilled⟩

theorem Case.Typed.isFilled : ∀ {Γ Γ' : Context} {t : Ty} {c : Case},
    Case.Typed Γ t c Γ' → c.IsFilled
  | _, _, _, _, .equals he _ hb => ⟨he.isFilled, hb.areFilled⟩
  | _, _, _, _, .otherwise hb => hb.areFilled

theorem Case.ListTyped.areFilled : ∀ {Γ Γ' : Context} {t : Ty} {cs : List Case},
    Case.ListTyped Γ t cs Γ' → Case.AreFilled cs
  | _, _, _, _, .nil => trivial
  | _, _, _, _, .cons hc hcs => ⟨hc.isFilled, hcs.areFilled⟩

end

theorem GlobalDecl.Typed.isFilled {Γ Γ' : Context} {d : GlobalDecl} (h : d.Typed Γ Γ') :
    (Global.decl d).IsFilled := by
  obtain ⟨ht, -, -, hslot⟩ := h
  refine ⟨fun e he => ?_, by simp [hslot]⟩
  cases ht with
  | written _ _ hvalue => cases hvalue.symm.trans he
  | inferred _ hvalue he' =>
    obtain rfl := Option.some.inj (hvalue.symm.trans he)
    exact he'.isFilled
  | checked _ _ hvalue _ he' _ =>
    obtain rfl := Option.some.inj (hvalue.symm.trans he)
    exact he'.isFilled
  | items _ _ _ hvalue hes _ =>
    obtain rfl := Option.some.inj (hvalue.symm.trans he)
    exact ⟨hes.areFilled, Option.some_ne_none _⟩

theorem FuncDecl.Typed.isFilled {Γ Γ' : Context} {d : FuncDecl} (h : d.Typed Γ Γ') :
    (Func.decl d).IsFilled := by
  obtain ⟨-, -, -, -, hslot, -, hbody, -⟩ := h
  exact ⟨hbody.areFilled, by simp [hslot]⟩

theorem Global.ListTyped.isFilled : ∀ {Γ Γ' : Context} {gs : List Global},
    Global.ListTyped Γ gs Γ' → ∀ g ∈ gs, g.IsFilled
  | _, _, _, .nil, _, hg => by cases hg
  | _, _, _, .cons hd hgs, g, hg => by
    rcases List.mem_cons.mp hg with rfl | hg
    · exact hd.isFilled
    · exact hgs.isFilled g hg

theorem Func.ListTyped.isFilled : ∀ {Γ Γ' : Context} {fs : List Func},
    Func.ListTyped Γ fs Γ' → ∀ f ∈ fs, f.IsFilled
  | _, _, _, .nil, _, hf => by cases hf
  | _, _, _, .cons hd hfs, f, hf => by
    rcases List.mem_cons.mp hf with rfl | hf
    · exact hd.isFilled
    · exact hfs.isFilled f hf

theorem Program.Typed.isFilled {p : Program} {Γ : Context} (h : p.Typed Γ) : p.IsFilled := by
  obtain ⟨hgs, hfs⟩ := h
  exact ⟨hgs.isFilled, hfs.isFilled⟩

/-! ### A second analysis -/

/-- The built-in function has one parameter. -/
theorem Context.arity_of_start {k : Key} {n : Nat} {f : Signature}
    (h : Context.start.findFunction? k n = some f) : n = 1 := by
  obtain rfl := List.mem_singleton.mp (List.mem_of_find?_eq_some h)
  exact (Context.arity_of_findFunction? h).symm

namespace Analysis

variable (tracer : Tracer)

mutual

/-- **A typed expression that needs no variables fails at its first literal when it is analyzed
again.** -/
theorem expr_again : ∀ {e : Expr} {t : Ty}, e.HasType .start t → ∀ (s : Nat) (a : Analyzer),
    expr tracer s e a = ((e, resolved .literal "type"), a)
  | _, _, .literal hrule, s, a => by
    rw [expr, literalType_of_rule hrule]
    rfl
  | _, _, .group he, s, a => by
    rw [expr, run_bind, expr_again he]
    rfl
  | _, _, .binary hl _ _, s, a => by
    rw [expr, run_bind, expr_again hl]
    rfl
  | _, _, .name _ hv _, _, _ => by cases hv
  | _, _, .index _ _ _ hv _, _, _ => by cases hv
  | _, _, .call hargs hk hf _ _, s, a => by
    have hargs' : _ ≠ [] := List.ne_nil_of_length_eq_add_one (Context.arity_of_start hf)
    rw [expr, run_bind, exprs_again hargs hargs']
    rfl
  | _, _, .list hes hts, s, a => by
    rw [expr, run_bind, items_again hes (List.cons_ne_nil _ _)]
    rfl

theorem exprs_again : ∀ {es : List Expr} {ts : List Ty}, Expr.HaveTypes .start es ts → es ≠ [] →
    ∀ (s : Nat) (a : Analyzer), exprs tracer s es a = ((es, resolved .literal "type"), a)
  | _, _, .nil, h, _, _ => (h rfl).elim
  | _, _, .cons he _, _, s, a => by
    rw [exprs, run_bind, expr_again he]
    rfl

theorem items_again : ∀ {es : List Expr} {ts : List Ty}, Expr.HaveTypes .start es ts → es ≠ [] →
    ∀ (s : Nat) (element : Option Ty) (a : Analyzer),
      items tracer s element es a = ((es, resolved .literal "type"), a)
  | _, _, .nil, h, _, _, _ => (h rfl).elim
  | _, _, .cons he _, _, s, _, a => by
    rw [items, run_bind, expr_again he]
    rfl

end

/-- A typed initial value of the first global fails at its first literal. -/
theorem typedInitial_again {e : Expr} {t : Ty} (he : e.HasType .start t) (s : Nat)
    (declared : Option Ty) (a : Analyzer) :
    globalInitial tracer s declared (some e) a = ((some e, resolved .literal "type"), a) := by
  by_cases hitem : e.isItemized = true
  · cases he with
    | list hes hts =>
      rw [globalInitial, run_bind, items_again tracer hes (List.cons_ne_nil _ _)]
      rfl
    | _ => cases hitem
  · rw [globalInitial_eq_initial fun h => (hitem h).elim, initial, run_bind, expr_again tracer he]
    rfl

/-- The initial value of the first global is not written again. A list without items fails at the
slot of the list. -/
theorem globalInitial_again {d : GlobalDecl} {t : Ty} {e : Expr} (h : d.Declares .start t)
    (hvalue : d.value = some e) {declared : Option Ty} (hn : declaredType d.typeName = .ok declared)
    (s : Nat) (a : Analyzer) :
    ∃ tag slot, globalInitial tracer s (declared.map d.listed) d.value a =
      ((d.value, resolved tag slot), a) := by
  rw [hvalue]
  cases h with
  | written _ _ hnone => cases hnone.symm.trans hvalue
  | inferred _ hsome he =>
    obtain rfl := Option.some.inj (hsome.symm.trans hvalue)
    exact ⟨_, _, typedInitial_again tracer he s _ a⟩
  | checked _ _ hsome _ he _ =>
    obtain rfl := Option.some.inj (hsome.symm.trans hvalue)
    exact ⟨_, _, typedInitial_again tracer he s _ a⟩
  | @items n es t ts hd hname hlist hsome hes hts =>
    obtain rfl := Option.some.inj (hsome.symm.trans hvalue)
    cases hes with
    | nil =>
      refine ⟨.listLit, "type", ?_⟩
      rw [hd, declaredType, typeNamed_eq_ok_iff.mpr hname] at hn
      obtain rfl := Except.ok.inj hn
      rw [Option.map_some, GlobalDecl.listed, if_pos hlist]
      rfl
    | cons he hes =>
      refine ⟨.literal, "type", ?_⟩
      rw [globalInitial, run_bind, items_again tracer (.cons he hes) (List.cons_ne_nil _ _)]
      rfl

theorem declaredType_of_declares {d : GlobalDecl} {Γ : Context} {t : Ty} (h : d.Declares Γ t) :
    ∃ declared, declaredType d.typeName = .ok declared := by
  cases h with
  | inferred hd _ _ => exact ⟨none, declaredType_eq_ok_iff.mpr (.inl ⟨hd, rfl⟩)⟩
  | written hd hn _ => exact ⟨_, declaredType_eq_ok_iff.mpr (.inr ⟨_, _, hd, rfl, hn⟩)⟩
  | checked hd hn _ _ _ _ => exact ⟨_, declaredType_eq_ok_iff.mpr (.inr ⟨_, _, hd, rfl, hn⟩)⟩
  | items hd hn _ _ _ _ => exact ⟨_, declaredType_eq_ok_iff.mpr (.inr ⟨_, _, hd, rfl, hn⟩)⟩

/-- The first global fails at a slot of its initial value or at its own. -/
theorem global_again {d : GlobalDecl} {Γ : Context} (h : d.Typed .start Γ) (s : Nat)
    (a : Analyzer) :
    ∃ tag slot a', global tracer s (.decl d) a = ((.decl d, resolved tag slot), a') := by
  obtain @⟨t, k, v, ht, hk, hv, hslot⟩ := h
  obtain ⟨declared, hn⟩ := declaredType_of_declares ht
  have hcond : (d.typeName.isNone && d.value.isNone) = false := by
    simpa using isSome_of_globalDeclares ht
  rw [global]
  simp only [hcond, Bool.false_eq_true, if_false, hn, d.map_listed, run_bind]
  cases hvalue : d.value with
  | none =>
    obtain ⟨x, mutable, n, value, isList, slot⟩ := d
    obtain rfl : slot = some v := hslot
    obtain rfl : value = none := hvalue
    simp only [globalInitial, initial, run_pure, run_bind, run_number]
    rw [run_define (v := ⟨x, _, _, _⟩) (Name.label_of_key hk)]
    exact ⟨_, _, _, rfl⟩
  | some e =>
    obtain ⟨tag, slot, hinitial⟩ := globalInitial_again tracer ht hvalue hn s a
    rw [hvalue] at hinitial
    refine ⟨tag, slot, a, ?_⟩
    rw [hinitial, ← hvalue]
    rfl

/-- A function fails at its own slot. -/
theorem func_again {d : FuncDecl} {Γ Γ' : Context} (h : d.Typed Γ Γ') (s : Nat) (a : Analyzer) :
    ∃ a', func tracer s (.decl d) a = ((.decl d, resolved .funcDecl "function"), a') := by
  obtain @⟨ps, r, k, f, Γ', hps, hr, hk, hf, hslot, -, -, -⟩ := h
  obtain ⟨declared, hdeclared, rfl⟩ := declaredType_getD_eq_iff.mpr hr
  have hlabel := Name.label_of_key hk
  rw [func, run_bind, funcDecl]
  simp only [mapM_paramType_eq_ok_iff.mpr hps, hdeclared, ok_bind, pure_eq_ok, run_bind, run_number,
    run_defineFunction (f := ⟨d.name, ps, declared.getD .nil, a.next⟩) hlabel, hslot]
  exact ⟨_, rfl⟩

/-- **A typed program with a declaration cannot be analyzed again, and stays as it is.** -/
theorem program_again {p : Program} {Γ : Context} (h : p.Typed Γ)
    (hne : p.globals ≠ [] ∨ p.functions ≠ []) (a : Analyzer) :
    ∃ tag slot a', program tracer p a = ((p, resolved tag slot), a') := by
  obtain ⟨gs, fs⟩ := p
  obtain ⟨hgs, hfs⟩ := h
  cases hgs with
  | cons hd _ =>
    obtain ⟨tag, slot, a', h⟩ := global_again tracer hd a.root a
    refine ⟨tag, slot, a', ?_⟩
    rw [program, run_bind, run_get]
    simp only [globals, run_bind, h]
    rfl
  | nil =>
    cases hfs with
    | nil => simp at hne
    | cons hd _ =>
      obtain ⟨a', h⟩ := func_again tracer hd a.root a
      refine ⟨.funcDecl, "function", a', ?_⟩
      rw [program, run_bind, run_get]
      simp only [globals, functions, run_bind, run_pure, h]
      rfl

end Analysis

/-- **Slots are written exactly once.** The first analysis of a program of a text finds no slot that
is written. If it accepts the program, all slots of the tree are filled and nothing else has
changed. Every later analysis of that tree, whatever is in scope, fails because a slot is written
and leaves the tree as it is, if there is something declared in it. -/
theorem slots_written_once {text : String} {p : Program} (hp : readProgram text = .ok p)
    (tracer : Tracer) :
    let outcome := ((Analysis.program tracer p).run Analyzer.fresh).1
    let q := outcome.1
    let verdict := outcome.2
    (∀ tag slot, verdict ≠ Analysis.resolved tag slot) ∧
      (verdict = .ok () → q.IsFilled ∧ q.erase = p ∧
        (q.globals ≠ [] ∨ q.functions ≠ [] → ∀ tracer' a, ∃ tag slot,
          ((Analysis.program tracer' q).run a).1 = (q, Analysis.resolved tag slot))) := by
  intro outcome q verdict
  have hrun : Analysis.program tracer p Analyzer.fresh =
    ((q, verdict), ((Analysis.program tracer p).run Analyzer.fresh).2) := rfl
  have hjudged : Judged verdict := judges_of_readProgram hp tracer Analyzer.fresh
  clear_value q verdict
  refine ⟨fun tag slot h => ?_, ?_⟩
  · cases hjudged _ h
  · rintro rfl
    obtain ⟨Γ, hΓ, herase, -⟩ := Analysis.program_sound (isWritten_of_readProgram hp) hrun
    refine ⟨hΓ.isFilled, herase, fun hne tracer' a => ?_⟩
    obtain ⟨tag, slot, a', h⟩ := Analysis.program_again tracer' hΓ hne a
    exact ⟨tag, slot, congrArg Prod.fst h⟩

/-- A program with a global and a function is analyzed once, and then no more. -/
theorem slots_written_once_flag :
    ∃ p q, readProgram "VAR flag = TRUE; FUN main(): Boolean DO flag = FALSE; RETURN flag; END" =
        .ok p ∧ ((Analysis.program 0 p).run Analyzer.fresh).1 = (q, .ok ()) ∧ q.IsFilled ∧
      ∀ a, ∃ tag slot,
        ((Analysis.program 0 q).run a).1 = (q, Analysis.resolved tag slot) := by
  refine ⟨_, _, by cbv, rfl, ?_⟩
  have h := @slots_written_once
    "VAR flag = TRUE; FUN main(): Boolean DO flag = FALSE; RETURN flag; END" _ (by cbv) 0
  have hfilled := h.2 rfl
  exact ⟨hfilled.1, hfilled.2.2 (.inl (List.cons_ne_nil _ _)) 0⟩

end Scriptlet
