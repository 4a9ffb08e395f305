import Scriptlet.Proofs.Typing.Declarations

/-! # What an analysis changes

Whatever the verdict, a part of a program that is analyzed in a scope changes little. Expressions
add to the trace only. Statements define variables in that scope, and all else that they define is
in younger scopes. So an analysis that stops somewhere leaves the older scopes as they were.

* `Traces`: a computation adds to the trace only; this holds of expressions.
* `Extends`: a computation defines in one scope and in younger ones only; this holds of
  statements. -/

namespace Scriptlet.Analysis

variable {α β γ : Type} {level : Int} {s : Nat}

/-! ### Computations that trace -/

/-- Whether a computation adds to the trace only. -/
def Traces (x : StateM Analyzer α) : Prop :=
  ∀ a, ∃ l, (x a).2 = { a with trace := l }

namespace Traces

theorem pure (y : α) : Traces (Pure.pure y) :=
  fun a => ⟨a.trace, rfl⟩

theorem get : Traces MonadState.get :=
  fun a => ⟨a.trace, rfl⟩

theorem say (least : Int) (line : Text) : Traces (say level least line) := by
  intro a
  obtain ⟨l, hl⟩ := say_eq level least line a
  exact ⟨l, congrArg Prod.snd hl⟩

theorem saying (least : Int) (line : Text) (tree : α) (verdict : β) :
    Traces (saying level least line tree verdict) := by
  intro a
  obtain ⟨l, hl⟩ := run_saying level least line tree verdict a
  exact ⟨l, congrArg Prod.snd hl⟩

theorem bind {x : StateM Analyzer α} {f : α → StateM Analyzer β} (hx : Traces x)
    (hf : ∀ y, Traces (f y)) : Traces (x >>= f) := by
  intro a
  obtain ⟨l, hl⟩ := hx a
  obtain ⟨l', hl'⟩ := hf (x a).1 (x a).2
  rw [run_bind, hl', hl]
  exact ⟨l', rfl⟩

/-- The first computation gives a tree and a verdict. -/
theorem andThen {x : StateM Analyzer (α × β)} {f : α × β → StateM Analyzer γ} (hx : Traces x)
    (hf : ∀ y r, Traces (f (y, r))) : Traces (x >>= f) :=
  hx.bind fun y => hf y.1 y.2

end Traces

mutual

theorem traces_expr (s : Nat) : ∀ e, Traces (expr level s e)
  | .literal v k slot => by
    rw [expr]
    split <;> exact .pure _
  | .group e slot => by
    rw [expr]
    refine (traces_expr s e).andThen fun e' r => ?_
    cases r with
    | error f => exact .pure _
    | ok t => exact .pure _
  | .binary op l r slot => by
    rw [expr]
    refine (traces_expr s l).andThen fun l' lt => ?_
    cases lt with
    | error f => exact .pure _
    | ok lt =>
      refine (traces_expr s r).andThen fun r' rt => ?_
      dsimp only
      split <;> exact .pure _
  | .name n m slot => by
    rw [expr]
    refine .bind .get fun a => ?_
    split
    · exact .pure _
    · split <;> exact .pure _
  | .index n o m slot => by
    rw [expr]
    refine (traces_expr s o).andThen fun o' ot => .bind .get fun a => ?_
    dsimp only
    split
    · exact .pure _
    · split
      · exact .pure _
      · split <;> exact .pure _
  | .call n args target slot => by
    rw [expr]
    refine (traces_exprs s args).andThen fun args' ts => .bind .get fun a => ?_
    dsimp only
    split
    · exact .pure _
    · split
      · exact .pure _
      · exact .pure _
      · exact .saying _ _ _ _
  | .list vs slot => by
    rw [expr]
    exact (traces_items s none vs).andThen fun _ _ => .pure _
  | .hole h => by
    rw [expr]
    exact .pure _

theorem traces_exprs (s : Nat) : ∀ es, Traces (exprs level s es)
  | [] => .pure _
  | e :: es => by
    rw [exprs]
    refine (traces_expr s e).andThen fun e' t => ?_
    cases t with
    | error f => exact .pure _
    | ok t => exact (traces_exprs s es).andThen fun _ _ => .pure _

theorem traces_items (s : Nat) : ∀ element es, Traces (items level s element es)
  | _, [] => .pure _
  | element, e :: es => by
    rw [items]
    refine (traces_expr s e).andThen fun e' t => ?_
    dsimp only
    split
    · exact .pure _
    · exact (traces_items s _ es).andThen fun _ _ => .pure _

end

theorem traces_initial (declared : Option Ty) :
    ∀ value, Traces (initial level s declared value)
  | none => .pure _
  | some e => (traces_expr s e).andThen fun _ _ => .pure _

theorem traces_globalInitial (level : Int) (s : Nat) (declared : Option Ty) (value : Option Expr) :
    Traces (globalInitial level s declared value) := by
  unfold globalInitial
  split
  · exact (traces_items s _ _).andThen fun _ _ => .pure _
  · exact traces_initial declared value

/-! ### Computations that define -/

/-- Whether a computation defines in a scope and in younger ones only. -/
def Extends (s : Nat) (x : StateM Analyzer α) : Prop :=
  ∀ a : Analyzer, a.Grows s (x a).2

theorem Traces.extends {x : StateM Analyzer α} (hx : Traces x) : Extends s x := by
  intro a
  obtain ⟨l, hl⟩ := hx a
  rw [hl]
  exact .traced s a l

namespace Extends

theorem pure (y : α) : Extends s (Pure.pure y) :=
  (Traces.pure y).extends

theorem number : Extends s number :=
  fun _ => ⟨.refl s _, rfl⟩

theorem define (v : Variable) : Extends s (define s v) := by
  intro a
  cases hn : v.name.label with
  | error f =>
    rw [run_define_error hn]
    exact .refl s a
  | ok n =>
    rw [run_define hn]
    exact ⟨Forest.growsAt_defineVariable, rfl⟩

theorem bind {x : StateM Analyzer α} {f : α → StateM Analyzer β} (hx : Extends s x)
    (hf : ∀ y, Extends s (f y)) : Extends s (x >>= f) :=
  fun a => (hx a).trans (hf _ _)

/-- The first computation gives a tree and a verdict. -/
theorem andThen {x : StateM Analyzer (α × β)} {f : α × β → StateM Analyzer γ} (hx : Extends s x)
    (hf : ∀ y r, Extends s (f (y, r))) : Extends s (x >>= f) :=
  hx.bind fun y => hf y.1 y.2

/-- What is defined in a new scope is younger than all scopes that were there. -/
theorem young {x : Nat → StateM Analyzer α} (hx : ∀ c, Extends c (x c)) (s : Nat) (a : Analyzer) :
    a.Grows a.scopes.size ((child s >>= x) a).2 := by
  have hopened : a.Grows a.scopes.size { a with scopes := a.scopes.addChild s } :=
    ⟨Forest.growsAt_addChild _, rfl⟩
  exact hopened.trans (hx a.scopes.size { a with scopes := a.scopes.addChild s })

theorem enter {x : Nat → StateM Analyzer α} (hx : ∀ c, Extends c (x c)) :
    Extends s (child s >>= x) :=
  fun a => ⟨(Forest.GrowsAt.refl s _).of_young (young hx s a).scopes le_rfl, (young hx s a).root⟩

theorem inner {x : Nat → StateM Analyzer (α × β)} {f : α × β → StateM Analyzer γ}
    (hx : ∀ c, Extends c (x c)) (hf : ∀ y r, Extends s (f (y, r))) :
    Extends s (child s >>= fun c => x c >>= f) :=
  fun a => ((enter hx) a).trans (hf _ _ _)

end Extends

mutual

theorem extends_stmt (s : Nat) : ∀ x, Extends s (stmt level s x)
  | .expr e => by
    rw [stmt]
    exact (traces_expr s e).extends.andThen fun _ _ => .pure _
  | .declare n typeName value slot => by
    rw [stmt]
    split
    · exact .pure _
    · split
      · exact .pure _
      · refine (traces_initial _ value).extends.andThen fun value' type => ?_
        cases type with
        | error f => exact .pure _
        | ok type =>
          refine .bind .number fun _ => .bind (.define _) fun r => ?_
          split
          · exact .pure _
          · exact .pure _
          · exact (Traces.saying _ _ _ _).extends
  | .assign receiver value => by
    unfold stmt
    dsimp only
    -- only a name and an element are walked
    split <;> split
    any_goals exact .pure _
    all_goals
      refine (traces_expr s _).extends.andThen fun receiver' rt => ?_
      dsimp only
      split
      · exact .pure _
      · exact (traces_expr s value).extends.andThen fun _ _ => .pure _
  | .branch c t e => by
    rw [stmt]
    refine (traces_expr s c).extends.andThen fun c' ct => ?_
    dsimp only
    split
    · exact .pure _
    · refine .inner (fun i => extends_block i t) fun t' r => ?_
      cases r with
      | error f => exact .pure _
      | ok _ => exact .inner (fun i => extends_block i e) fun _ _ => .pure _
  | .switch c cs => by
    rw [stmt]
    refine (traces_expr s c).extends.andThen fun c' ct => ?_
    cases ct with
    | error f => exact .pure _
    | ok ct => exact (extends_cases s ct cs).andThen fun _ _ => .pure _
  | .loop c b => by
    rw [stmt]
    refine (traces_expr s c).extends.andThen fun c' ct => ?_
    dsimp only
    split
    · exact .pure _
    · exact .inner (fun i => extends_block i b) fun _ _ => .pure _
  | .ret e => by
    rw [stmt]
    exact (traces_expr s e).extends.andThen fun _ _ => .pure _
  | .hole h => by
    rw [stmt]
    exact .pure _

theorem extends_block (s : Nat) : ∀ xs, Extends s (block level s xs)
  | [] => .pure _
  | x :: xs => by
    rw [block]
    refine (extends_stmt s x).andThen fun x' r => ?_
    cases r with
    | error f => exact .pure _
    | ok _ => exact (extends_block s xs).andThen fun _ _ => .pure _

theorem extends_case (s : Nat) (condition : Ty) : ∀ x, Extends s (case level s condition x)
  | .equals v b => by
    rw [case]
    refine (traces_expr s v).extends.andThen fun v' vt => ?_
    dsimp only
    split
    · exact .pure _
    · exact .inner (fun i => extends_block i b) fun _ _ => .pure _
  | .otherwise b => by
    rw [case]
    exact .inner (fun i => extends_block i b) fun _ _ => .pure _
  | .blockless none => by
    rw [case]
    exact .pure _
  | .blockless (some v) => by
    rw [case]
    refine (traces_expr s v).extends.andThen fun v' vt => ?_
    dsimp only
    split <;> exact .pure _
  | .hole h => by
    rw [case]
    exact .pure _

theorem extends_cases (s : Nat) (condition : Ty) : ∀ xs, Extends s (cases level s condition xs)
  | [] => .pure _
  | x :: xs => by
    rw [Analysis.cases]
    refine (extends_case s condition x).andThen fun x' r => ?_
    cases r with
    | error f => exact .pure _
    | ok _ => exact (extends_cases s condition xs).andThen fun _ _ => .pure _

end

theorem extends_defineParams (declaration : Nat) : ∀ place ps ts,
    Extends s (defineParams s declaration place ps ts)
  | place, p :: ps, t :: ts => by
    rw [defineParams]
    have hrest := extends_defineParams declaration (place + 1) ps ts
    cases paramName? p with
    | none => exact hrest
    | some n =>
      refine .bind (.define _) fun bound => ?_
      cases bound with
      | error f => exact .pure _
      | ok _ => exact hrest
  | _, [], _ => .pure _
  | _, _ :: _, [] => .pure _

theorem extends_body (returns : Ty) : ∀ xs, Extends s (body level s returns xs)
  | [] => .pure _
  | x :: xs => by
    rw [body]
    refine (extends_stmt s x).andThen fun x' r => ?_
    dsimp only
    split
    · exact .pure _
    · exact (extends_body returns xs).andThen fun _ _ => .pure _

/-! ### Declarations -/

variable {x : String}

/-- **A refused global changes no scope, and an accepted one is defined in its scope.** -/
theorem global_effect (level : Int) {d : GlobalDecl} (hx : d.name = .text x)
    (hslot : d.declared = none) (s : Nat) (a : Analyzer) :
    (∃ f l, (global level s (.decl d) a).1.2 = .error f ∧
        (global level s (.decl d) a).2 = { a with trace := l }) ∨
      ∃ (g : GlobalDecl) (v : Variable) (l : Array String), (global level s (.decl d) a).1 =
          (.decl { g with declared := some v }, .ok ()) ∧
        (global level s (.decl d) a).2 =
          { a with
            scopes := a.scopes.defineVariable s (.text x) (some v)
            next := a.next + 1
            trace := l } := by
  rw [global]
  split
  · exact .inl ⟨_, a.trace, rfl, rfl⟩
  · cases hn : declaredType d.typeName with
    | error f => exact .inl ⟨f, a.trace, rfl, rfl⟩
    | ok declared =>
      simp only [run_bind, d.map_listed]
      obtain ⟨l, hl⟩ := traces_globalInitial level s (declared.map d.listed) d.value a
      rcases hvalue : globalInitial level s (declared.map d.listed) d.value a with ⟨⟨value, r⟩, a₁⟩
      rw [hvalue] at hl
      dsimp only at hl
      subst hl
      cases r with
      | error f => exact .inl ⟨f, l, rfl, rfl⟩
      | ok t =>
        simp only [run_bind, run_number]
        generalize hv : (⟨d.name, d.mutable, t.getD .any, ⟨a.next, none⟩⟩ : Variable) = v
        have hlabel : v.name.label = .ok (.text x) := by rw [← hv, hx, Name.label_text]
        simp only [run_define hlabel, hslot]
        obtain ⟨l', hl'⟩ := run_saying level _ _ _ _ _
        exact .inr ⟨{ d with value }, v, l', congrArg Prod.fst hl', congrArg Prod.snd hl'⟩

/-- **A function whose types are known is defined in the scope around it, whatever its body is; all
else that it defines is in younger scopes. A function with an unknown type changes nothing.** -/
theorem func_effect (level : Int) {d : FuncDecl} (hx : d.name = .text x)
    (hslot : d.signature = none) (s : Nat) (a : Analyzer) :
    ((∀ ps r, List.Forall₂ Param.HasType d.params ps → ¬ Returns d.returnTypeName r) ∧
        (func level s (.decl d) a).2 = a) ∨
      ∃ ps r l, List.Forall₂ Param.HasType d.params ps ∧ Returns d.returnTypeName r ∧
        Analyzer.Grows a.scopes.size
          { a with
            scopes := a.scopes.defineFunction s (.text x) ps.length
              (some ⟨.text x, ps, r, a.next⟩)
            next := a.next + 1
            trace := l } (func level s (.decl d) a).2 := by
  have hdecl : (func level s (.decl d) a).2 = (funcDecl level s d a).2 := rfl
  rw [hdecl]
  unfold funcDecl
  cases hps : d.params.mapM paramType with
  | error f =>
    refine .inl ⟨fun ps r hps' => ?_, rfl⟩
    rw [mapM_paramType_eq_ok_iff.mpr hps'] at hps
    cases hps
  | ok ps =>
    cases hr : declaredType d.returnTypeName with
    | error f =>
      refine .inl ⟨fun ps r _ hr' => ?_, rfl⟩
      obtain ⟨t, ht, -⟩ := declaredType_getD_eq_iff.mpr hr'
      rw [ht] at hr
      cases hr
    | ok r =>
      have hreturns := declaredType_getD_eq_iff.mp ⟨r, hr, rfl⟩
      simp only [ok_bind, pure_eq_ok, run_bind, run_number]
      rw [mapM_paramType_eq_ok_iff] at hps
      generalize r.getD .nil = r at hreturns ⊢
      generalize hf : (⟨d.name, ps, r, a.next⟩ : Signature) = f
      have hlabel : f.name.label = .ok (.text x) := by rw [← hf, hx, Name.label_text]
      simp only [run_defineFunction hlabel, hslot]
      obtain ⟨l, hl⟩ := say_eq level 2 (.plain "function " ++ f.text)
        { a with
          scopes := a.scopes.defineFunction s (.text x) f.arity (some f)
          next := a.next + 1 }
      refine .inr ⟨ps, r, l, hps, hreturns, ?_⟩
      rw [hx] at hf
      subst hf
      rw [run_bind, hl]
      rw [← Forest.size_defineFunction a.scopes s (.text x) ps.length
        (some ⟨.text x, ps, r, a.next⟩)]
      refine Extends.young (fun inner => ?_) s
        { a with
          scopes := a.scopes.defineFunction s (.text x) ps.length (some ⟨.text x, ps, r, a.next⟩)
          next := a.next + 1
          trace := l }
      refine (extends_defineParams a.next 0 d.params ps).bind fun bound => ?_
      cases bound with
      | error e => exact .pure _
      | ok _ => exact (extends_body r d.body).andThen fun _ _ => .pure _

end Scriptlet.Analysis
