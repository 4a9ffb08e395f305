import Mathlib.Algebra.BigOperators.Group.List.Basic
import Scriptlet.Proofs.Typing.Declared

/-! # The work that code can cause

Code without loops visits each of its nodes once at most, so what a run of it costs is known from
its text, up to the costs of the functions that it calls. A function of a well-typed program calls
only itself and functions that are declared before it; if no function calls itself, and names and
arities are not used twice, costs of functions can be found in the order of their declarations.

* `Expr.work`, `Stmt.workIn`: the work in code, as a list of steps and calls.
* `Program.IsDirect`: no loops, no function that calls itself, no assignment to an item of a list.
* `Program.Typed.exists_costs`: a direct and well-typed program has costs that cover the bodies of
  all functions. -/

namespace Scriptlet

/-- What a function is known by: its name and the number of its parameters. -/
abbrev FuncKey := Option Key × Nat

/-- A unit of work: a step of its own, or a call. -/
inductive Work where
  | step
  | call (f : FuncKey)
  deriving DecidableEq

/-- What units of work cost, given the costs of calls. -/
def Work.cost (c : FuncKey → Nat) : Work → Nat
  | .step => 1
  | .call f => c f

/-- What work costs, given the costs of calls. -/
def cost (c : FuncKey → Nat) (ws : List Work) : Nat :=
  (ws.map (Work.cost c)).sum

section Cost

variable {c c' : FuncKey → Nat}

@[simp] theorem cost_nil : cost c [] = 0 := rfl

@[simp] theorem cost_step (ws : List Work) : cost c (.step :: ws) = cost c ws + 1 := by
  rw [cost, List.map_cons, List.sum_cons, Work.cost, Nat.add_comm]
  rfl

@[simp] theorem cost_call (f : FuncKey) (ws : List Work) :
    cost c (.call f :: ws) = c f + cost c ws := by
  rw [cost, List.map_cons, List.sum_cons]
  rfl

@[simp] theorem cost_append (ws vs : List Work) : cost c (ws ++ vs) = cost c ws + cost c vs := by
  rw [cost, List.map_append, List.sum_append]
  rfl

/-- Work costs the same if its calls do. -/
theorem cost_congr {ws : List Work} (h : ∀ f, Work.call f ∈ ws → c' f = c f) :
    cost c' ws = cost c ws := by
  unfold cost
  refine congrArg List.sum (List.map_congr_left fun w hw => ?_)
  cases w with
  | step => rfl
  | call f => exact h f hw

end Cost

/-! ### Work in code -/

mutual

/-- The work in an expression. -/
def Expr.work : Expr → List Work
  | .group e _ => .step :: e.work
  | .binary _ l r _ => .step :: (l.work ++ r.work)
  | .index _ o _ _ => .step :: o.work
  | .call x args _ _ => .step :: (Expr.workAll args ++ [.call (x.key.toOption, args.length)])
  | .list es _ => .step :: Expr.workAll es
  | _ => [.step]
termination_by structural e => e

/-- The work in expressions. -/
def Expr.workAll : List Expr → List Work
  | [] => [.step]
  | e :: es => .step :: (e.work ++ Expr.workAll es)
termination_by structural es => es

end

/-- The work in an expression that may be missing. -/
def Expr.workOf : Option Expr → List Work
  | some e => e.work
  | none => []

mutual

/-- The work in a statement, if its loops are entered once. -/
def Stmt.work : Stmt → List Work
  | .expr e => .step :: e.work
  | .declare _ _ value _ => .step :: Expr.workOf value
  | .assign receiver e => .step :: (e.work ++ receiver.work)
  | .branch c t e => .step :: (c.work ++ (Stmt.workIn t ++ Stmt.workIn e))
  | .switch c cs => .step :: (c.work ++ Case.workIn cs)
  | .loop c b => .step :: (c.work ++ Stmt.workIn b)
  | .ret e => .step :: e.work
  | .hole _ => [.step]
termination_by structural x => x

/-- The work in a block. -/
def Stmt.workIn : List Stmt → List Work
  | [] => [.step]
  | x :: xs => .step :: (x.work ++ Stmt.workIn xs)
termination_by structural xs => xs

/-- The work in a case. -/
def Case.work : Case → List Work
  | .equals e b => e.work ++ Stmt.workIn b
  | .otherwise b => Stmt.workIn b
  | .blockless e => Expr.workOf e
  | .hole _ => []
termination_by structural c => c

/-- The work in cases. -/
def Case.workIn : List Case → List Work
  | [] => [.step]
  | c :: cs => .step :: (c.work ++ Case.workIn cs)
termination_by structural cs => cs

end

/-- The work in the value of a case. -/
def Case.test : Case → List Work
  | .equals e _ => e.work
  | .blockless e => Expr.workOf e
  | _ => []

/-- The work in the values of cases. -/
def Case.tests : List Case → List Work
  | [] => [.step]
  | c :: cs => .step :: (c.test ++ Case.tests cs)

/-- Whether a block is the block of a case. -/
def Case.HasBlock (b : List Stmt) : Case → Prop
  | .equals _ b' => b' = b
  | .otherwise b' => b' = b
  | _ => False

/-! Every part of a program costs at least a step. -/

theorem Expr.cost_work_pos {c : FuncKey → Nat} (e : Expr) : 0 < cost c e.work := by
  cases e <;> simp [Expr.work]

theorem Expr.cost_workAll_pos {c : FuncKey → Nat} (es : List Expr) :
    0 < cost c (Expr.workAll es) := by
  cases es <;> simp [Expr.workAll]

theorem Stmt.cost_work_pos {c : FuncKey → Nat} (x : Stmt) : 0 < cost c x.work := by
  cases x <;> simp [Stmt.work]

theorem Stmt.cost_workIn_pos {c : FuncKey → Nat} (xs : List Stmt) :
    0 < cost c (Stmt.workIn xs) := by
  cases xs <;> simp [Stmt.workIn]

theorem Case.cost_tests_pos {c : FuncKey → Nat} (cs : List Case) :
    0 < cost c (Case.tests cs) := by
  cases cs <;> simp [Case.tests]

theorem Case.cost_test_le {c : FuncKey → Nat} : ∀ {x : Case}, cost c x.test ≤ cost c x.work
  | .equals e b => by simp [Case.test, Case.work]
  | .otherwise b => by simp [Case.test]
  | .blockless e => by simp [Case.test, Case.work]
  | .hole h => by simp [Case.test]

theorem Case.cost_tests_le (c : FuncKey → Nat) (cs : List Case) :
    cost c (Case.tests cs) ≤ cost c (Case.workIn cs) := by
  induction cs with
  | nil => simp [Case.tests, Case.workIn]
  | cons x cs ih =>
    have hx := Case.cost_test_le (c := c) (x := x)
    simp only [Case.tests, Case.workIn, cost_step, cost_append]
    omega

/-- All tests and one of the blocks cost no more than the whole. -/
theorem Case.cost_block_le {c : FuncKey → Nat} {b : List Stmt} {x : Case} (hb : x.HasBlock b) :
    ∀ {cs : List Case}, x ∈ cs →
      cost c (Case.tests cs) + cost c (Stmt.workIn b) ≤ cost c (Case.workIn cs)
  | y :: cs, hx => by
    simp only [Case.tests, Case.workIn, cost_step, cost_append]
    rcases List.mem_cons.mp hx with rfl | hx
    · have hcs := Case.cost_tests_le c cs
      have hone : cost c x.test + cost c (Stmt.workIn b) ≤ cost c x.work := by
        cases x with
        | equals e b' =>
          obtain rfl : b' = b := hb
          simp [Case.test, Case.work]
        | otherwise b' =>
          obtain rfl : b' = b := hb
          simp [Case.test, Case.work]
        | blockless _ => exact hb.elim
        | hole _ => exact hb.elim
      omega
    · have hy := Case.cost_test_le (c := c) (x := y)
      have hcs := Case.cost_block_le (c := c) hb hx
      omega

/-! ### What well-typed code calls -/

/-- Whether a context has the function that is called, if work is a call. -/
def Context.Knows (Γ : Context) : Work → Prop
  | .step => True
  | .call f => ∃ k g, f.1 = some k ∧ Γ.findFunction? k f.2 = some g

theorem Context.Knows.congr {Γ Γ' : Context} {w : Work} (h : Γ.Knows w) (hfuns : Γ'.funs = Γ.funs) :
    Γ'.Knows w := by
  cases w with
  | step => trivial
  | call f =>
    obtain ⟨k, g, hk, hg⟩ := h
    refine ⟨k, g, hk, ?_⟩
    rwa [Context.findFunction?, hfuns]

theorem Context.knows_step {Γ : Context} {ws : List Work} (h : ∀ w ∈ ws, Γ.Knows w) :
    ∀ w ∈ Work.step :: ws, Γ.Knows w :=
  List.forall_mem_cons.mpr ⟨trivial, h⟩

theorem Context.knows_append {Γ : Context} {ws vs : List Work} (hws : ∀ w ∈ ws, Γ.Knows w)
    (hvs : ∀ w ∈ vs, Γ.Knows w) : ∀ w ∈ ws ++ vs, Γ.Knows w :=
  List.forall_mem_append.mpr ⟨hws, hvs⟩

open Context (knows_step knows_append)

mutual

theorem Expr.HasType.knows {Γ : Context} : ∀ {e : Expr} {t : Ty}, e.HasType Γ t →
    ∀ w ∈ e.work, Γ.Knows w
  | _, _, .literal _ => by simp [Expr.work, Context.Knows]
  | _, _, .group he => by
    rw [Expr.work]
    exact knows_step he.knows
  | _, _, .binary hl hr _ => by
    rw [Expr.work]
    exact knows_step (knows_append hl.knows hr.knows)
  | _, _, .name _ _ _ => by simp [Expr.work, Context.Knows]
  | _, _, .index ho _ _ _ _ => by
    rw [Expr.work]
    exact knows_step ho.knows
  | _, _, @HasType.call _ x args _ k f _ hargs hk hf _ _ => by
    rw [Expr.work]
    refine knows_step (knows_append hargs.knows fun w hw => ?_)
    rw [List.mem_singleton.mp hw, hk]
    exact ⟨k, f, rfl, hf⟩
  | _, _, .list hes _ => by
    rw [Expr.work]
    exact knows_step hes.knows

theorem Expr.HaveTypes.knows {Γ : Context} : ∀ {es : List Expr} {ts : List Ty},
    Expr.HaveTypes Γ es ts → ∀ w ∈ Expr.workAll es, Γ.Knows w
  | _, _, .nil => by simp [Expr.workAll, Context.Knows]
  | _, _, .cons he hes => by
    rw [Expr.workAll]
    exact knows_step (knows_append he.knows hes.knows)

end

theorem Declares.knows {Γ : Context} {n : Option Name} {value : Option Expr} {t : Ty}
    (h : Declares Γ n value t) : ∀ w ∈ Expr.workOf value, Γ.Knows w := by
  cases h with
  | written _ => exact fun w hw => absurd hw List.not_mem_nil
  | inferred he => exact he.knows
  | checked _ he _ => exact he.knows

/-- Statements declare no functions. -/
theorem Stmt.Typed.funs_eq {Γ Γ' : Context} {x : Stmt} (h : Stmt.Typed Γ x Γ') :
    Γ'.funs = Γ.funs := by
  cases h with
  | switch _ hcs => exact hcs.context.2
  | _ => rfl

mutual

theorem Stmt.Typed.knows : ∀ {Γ Γ' : Context} {x : Stmt}, Stmt.Typed Γ x Γ' →
    ∀ w ∈ x.work, Γ.Knows w
  | _, _, _, .expr he => by
    rw [Stmt.work]
    exact knows_step he.knows
  | _, _, _, .declare ht _ _ => by
    rw [Stmt.work]
    exact knows_step ht.knows
  | _, _, _, .assign hr _ _ he _ => by
    rw [Stmt.work]
    exact knows_step (knows_append he.knows hr.knows)
  | _, _, _, .branch hc _ hthen helse => by
    rw [Stmt.work]
    have helse := fun w hw => (helse.knows w hw).congr rfl
    exact knows_step (knows_append hc.knows (knows_append hthen.knows helse))
  | _, _, _, .switch hc hcs => by
    rw [Stmt.work]
    exact knows_step (knows_append hc.knows hcs.knows)
  | _, _, _, .loop hc _ hb => by
    rw [Stmt.work]
    exact knows_step (knows_append hc.knows hb.knows)
  | _, _, _, .ret he => by
    rw [Stmt.work]
    exact knows_step he.knows

theorem Stmt.BlockTyped.knows : ∀ {Γ Γ' : Context} {xs : List Stmt}, Stmt.BlockTyped Γ xs Γ' →
    ∀ w ∈ Stmt.workIn xs, Γ.Knows w
  | _, _, _, .nil => by simp [Stmt.workIn, Context.Knows]
  | _, _, _, .cons hx hxs => by
    rw [Stmt.workIn]
    have hxs := fun w hw => (hxs.knows w hw).congr hx.funs_eq.symm
    exact knows_step (knows_append hx.knows hxs)

theorem Case.Typed.knows : ∀ {Γ Γ' : Context} {t : Ty} {x : Case}, Case.Typed Γ t x Γ' →
    ∀ w ∈ x.work, Γ.Knows w
  | _, _, _, _, .equals he _ hb => by
    rw [Case.work]
    exact knows_append he.knows hb.knows
  | _, _, _, _, .otherwise hb => by
    rw [Case.work]
    exact hb.knows

theorem Case.ListTyped.knows : ∀ {Γ Γ' : Context} {t : Ty} {cs : List Case},
    Case.ListTyped Γ t cs Γ' → ∀ w ∈ Case.workIn cs, Γ.Knows w
  | _, _, _, _, .nil => by simp [Case.workIn, Context.Knows]
  | _, _, _, _, .cons hc hcs => by
    rw [Case.workIn]
    have hcs := fun w hw => (hcs.knows w hw).congr hc.context.2.symm
    exact knows_step (knows_append hc.knows hcs)

end

/-! ### Direct programs -/

/-- Whether a statement is neither a loop nor an assignment to an item of a list. -/
def Stmt.isStraight : Stmt → Bool
  | .loop .. => false
  | .assign (.index ..) _ => false
  | _ => true

/-- What a function is known by. -/
def FuncDecl.key (d : FuncDecl) : FuncKey :=
  (d.name.key.toOption, d.params.length)

/-- What a function with a signature is known by. -/
def Signature.key (g : Signature) : FuncKey :=
  (g.name.key.toOption, g.arity)

/-- What keeps the runs of a program finite. -/
structure Program.IsDirect (p : Program) : Prop where
  /-- No two functions have the same name and arity, the built-in one included. -/
  distinct : (Analyzer.printSignature.key :: p.funcDecls.map FuncDecl.key).Nodup
  /-- There are no loops, and no item of a list is assigned to. -/
  straight : ∀ d ∈ p.funcDecls, ∀ x ∈ Stmt.nestedIn d.body, x.isStraight = true
  /-- No function calls itself. -/
  descends : ∀ d ∈ p.funcDecls, Work.call d.key ∉ Stmt.workIn d.body

instance (p : Program) : Decidable p.IsDirect :=
  decidable_of_iff
    ((Analyzer.printSignature.key :: p.funcDecls.map FuncDecl.key).Nodup ∧
      (∀ d ∈ p.funcDecls, ∀ x ∈ Stmt.nestedIn d.body, x.isStraight = true) ∧
      ∀ d ∈ p.funcDecls, Work.call d.key ∉ Stmt.workIn d.body)
    ⟨fun ⟨h₁, h₂, h₃⟩ => ⟨h₁, h₂, h₃⟩, fun ⟨h₁, h₂, h₃⟩ => ⟨h₁, h₂, h₃⟩⟩

/-! Whether a program is direct does not depend on what analysis has put into its slots. -/

theorem Expr.length_eraseAll (es : List Expr) : (Expr.eraseAll es).length = es.length := by
  induction es with
  | nil => rw [Expr.eraseAll]
  | cons e es ih => rw [Expr.eraseAll, List.length_cons, List.length_cons, ih]

mutual

theorem Expr.work_erase : ∀ e : Expr, e.erase.work = e.work
  | .literal _ _ _ => by simp [Expr.erase, Expr.work]
  | .group e _ => by rw [Expr.erase, Expr.work, Expr.work, work_erase e]
  | .binary _ l r _ => by rw [Expr.erase, Expr.work, Expr.work, work_erase l, work_erase r]
  | .name _ _ _ => by simp [Expr.erase, Expr.work]
  | .index _ o _ _ => by rw [Expr.erase, Expr.work, Expr.work, work_erase o]
  | .call _ args _ _ => by
    rw [Expr.erase, Expr.work, Expr.work, workAll_erase args, Expr.length_eraseAll args]
  | .list es _ => by rw [Expr.erase, Expr.work, Expr.work, workAll_erase es]
  | .hole _ => by rw [Expr.erase]

theorem Expr.workAll_erase : ∀ es : List Expr, Expr.workAll (Expr.eraseAll es) = Expr.workAll es
  | [] => by rw [Expr.eraseAll]
  | e :: es => by rw [Expr.eraseAll, Expr.workAll, Expr.workAll, work_erase e, workAll_erase es]

end

theorem Expr.workOf_erase : ∀ value : Option Expr,
    Expr.workOf (value.map Expr.erase) = Expr.workOf value
  | none => rfl
  | some e => Expr.work_erase e

mutual

theorem Stmt.work_erase : ∀ x : Stmt, x.erase.work = x.work
  | .expr e => by rw [Stmt.erase, Stmt.work, Stmt.work, Expr.work_erase e]
  | .declare _ _ value _ => by
    rw [Stmt.erase, Stmt.work, Stmt.work, Expr.workOf_erase value]
  | .assign r e => by
    rw [Stmt.erase, Stmt.work, Stmt.work, Expr.work_erase r, Expr.work_erase e]
  | .branch c t e => by
    rw [Stmt.erase, Stmt.work, Stmt.work, Expr.work_erase c, Stmt.workIn_erase t,
      Stmt.workIn_erase e]
  | .switch c cs => by
    rw [Stmt.erase, Stmt.work, Stmt.work, Expr.work_erase c, Case.workIn_erase cs]
  | .loop c b => by rw [Stmt.erase, Stmt.work, Stmt.work, Expr.work_erase c, Stmt.workIn_erase b]
  | .ret e => by rw [Stmt.erase, Stmt.work, Stmt.work, Expr.work_erase e]
  | .hole _ => by rw [Stmt.erase]

theorem Stmt.workIn_erase : ∀ xs : List Stmt, Stmt.workIn (Stmt.eraseBlock xs) = Stmt.workIn xs
  | [] => by rw [Stmt.eraseBlock]
  | x :: xs => by
    rw [Stmt.eraseBlock, Stmt.workIn, Stmt.workIn, Stmt.work_erase x, Stmt.workIn_erase xs]

theorem Case.work_erase : ∀ c : Case, c.erase.work = c.work
  | .equals e b => by
    rw [Case.erase, Case.work, Case.work, Expr.work_erase e, Stmt.workIn_erase b]
  | .otherwise b => by rw [Case.erase, Case.work, Case.work, Stmt.workIn_erase b]
  | .blockless e => by rw [Case.erase, Case.work, Case.work, Expr.workOf_erase e]
  | .hole _ => by rw [Case.erase]

theorem Case.workIn_erase : ∀ cs : List Case, Case.workIn (Case.eraseAll cs) = Case.workIn cs
  | [] => by rw [Case.eraseAll]
  | c :: cs => by
    rw [Case.eraseAll, Case.workIn, Case.workIn, Case.work_erase c, Case.workIn_erase cs]

end

mutual

theorem Stmt.nested_erase : ∀ x : Stmt, x.erase.nested = x.nested.map Stmt.erase
  | .branch c t e => by
    rw [Stmt.erase, Stmt.nested, Stmt.nested, Stmt.nestedIn_erase t, Stmt.nestedIn_erase e,
      List.map_cons, List.map_append, Stmt.erase]
  | .switch c cs => by
    rw [Stmt.erase, Stmt.nested, Stmt.nested, Case.nestedIn_erase cs, List.map_cons, Stmt.erase]
  | .loop c b => by
    rw [Stmt.erase, Stmt.nested, Stmt.nested, Stmt.nestedIn_erase b, List.map_cons, Stmt.erase]
  | .expr e => by simp [Stmt.erase, Stmt.nested]
  | .declare _ _ value _ => by simp [Stmt.erase, Stmt.nested]
  | .assign r e => by simp [Stmt.erase, Stmt.nested]
  | .ret e => by simp [Stmt.erase, Stmt.nested]
  | .hole _ => by simp [Stmt.erase, Stmt.nested]

theorem Stmt.nestedIn_erase : ∀ xs : List Stmt,
    Stmt.nestedIn (Stmt.eraseBlock xs) = (Stmt.nestedIn xs).map Stmt.erase
  | [] => by rw [Stmt.eraseBlock, Stmt.nestedIn, List.map_nil]
  | x :: xs => by
    rw [Stmt.eraseBlock, Stmt.nestedIn, Stmt.nestedIn, Stmt.nested_erase x, Stmt.nestedIn_erase xs,
      List.map_append]

theorem Case.nested_erase : ∀ c : Case, c.erase.nested = c.nested.map Stmt.erase
  | .equals e b => by rw [Case.erase, Case.nested, Case.nested, Stmt.nestedIn_erase b]
  | .otherwise b => by rw [Case.erase, Case.nested, Case.nested, Stmt.nestedIn_erase b]
  | .blockless e => by simp [Case.erase, Case.nested]
  | .hole _ => by simp [Case.erase, Case.nested]

theorem Case.nestedIn_erase : ∀ cs : List Case,
    Case.nestedIn (Case.eraseAll cs) = (Case.nestedIn cs).map Stmt.erase
  | [] => by rw [Case.eraseAll, Case.nestedIn, List.map_nil]
  | c :: cs => by
    rw [Case.eraseAll, Case.nestedIn, Case.nestedIn, Case.nested_erase c, Case.nestedIn_erase cs,
      List.map_append]

end

theorem Stmt.isStraight_erase (x : Stmt) : x.erase.isStraight = x.isStraight := by
  cases x with
  | assign r e => cases r <;> simp [Stmt.erase, Expr.erase, Stmt.isStraight]
  | _ => simp [Stmt.erase, Stmt.isStraight]

theorem Program.funcDecls_erase (p : Program) :
    p.erase.funcDecls = p.funcDecls.map FuncDecl.erase := by
  rw [Program.funcDecls, Program.funcDecls, Program.erase, List.filterMap_map, List.map_filterMap]
  congr 1
  funext f
  cases f <;> rfl

theorem Program.isDirect_of_erase {p : Program} (h : p.erase.IsDirect) : p.IsDirect := by
  obtain ⟨hdistinct, hstraight, hdescends⟩ := h
  rw [Program.funcDecls_erase] at hdistinct hstraight hdescends
  refine ⟨?_, fun d hd x hx => ?_, fun d hd hcall => ?_⟩
  · rwa [List.map_map] at hdistinct
  · have hx := hstraight d.erase (List.mem_map_of_mem hd) x.erase (by
      rw [FuncDecl.erase, Stmt.nestedIn_erase]
      exact List.mem_map_of_mem hx)
    rwa [Stmt.isStraight_erase] at hx
  · refine hdescends d.erase (List.mem_map_of_mem hd) ?_
    rwa [FuncDecl.erase, Stmt.workIn_erase]

/-! ### Costs of functions -/

theorem Signature.key_eq_iff {f : Signature} {k : Key} {n : Nat} :
    (f.name.isKnownAs k && f.arity = n) = true ↔ f.key = (some k, n) := by
  rw [Bool.and_eq_true, decide_eq_true_iff, Name.isKnownAs_iff, Signature.key, Prod.mk.injEq]
  cases f.name.key <;> simp [Except.toOption]

/-- What a name means with a number of arguments is a function that is known by them. -/
theorem Context.key_of_findFunction? {Γ : Context} {k : Key} {n : Nat} {f : Signature}
    (h : Γ.findFunction? k n = some f) : f ∈ Γ.funs ∧ f.key = (some k, n) := by
  have hknown := List.find?_some h
  exact ⟨List.mem_of_find?_eq_some h, Signature.key_eq_iff.mp hknown⟩

/-- A function that can be called is declared. -/
theorem Context.exists_of_knows {Γ : Context} {f : FuncKey} (h : Γ.Knows (.call f)) :
    ∃ g ∈ Γ.funs, g.key = f := by
  obtain ⟨k, g, hk, hg⟩ := h
  obtain ⟨hmem, hkey⟩ := Context.key_of_findFunction? hg
  exact ⟨g, hmem, hkey.trans (Prod.ext hk.symm rfl)⟩

/-- **Costs can be found in the order of the declarations**: those of earlier functions stay, and
the body of each function costs less than the function. -/
theorem Func.ListTyped.exists_costs : ∀ {fs : List Func} {Γ Γ' : Context},
    Func.ListTyped Γ fs Γ' →
    (Γ.funs.map Signature.key ++ (Program.funcDecls ⟨[], fs⟩).map FuncDecl.key).Nodup →
    (∀ d, Func.decl d ∈ fs → Work.call d.key ∉ Stmt.workIn d.body) → ∀ c : FuncKey → Nat,
      ∃ c', (∀ g ∈ Γ.funs, c' g.key = c g.key) ∧
        ∀ d, Func.decl d ∈ fs → cost c' (Stmt.workIn d.body) + 1 ≤ c' d.key
  | _, _, _, .nil, _, _, c => ⟨c, fun _ _ => rfl, fun _ hd => absurd hd List.not_mem_nil⟩
  | .decl d :: fs, Γ, _, .cons hd hfs, hdistinct, hdescends, c => by
    obtain @⟨ps, r, k, f, Γ₁, hps, hr, hk, hf, hslot, hkeys, hbody, hret⟩ := hd
    have hkey : f.key = d.key := by
      rw [hf]
      exact Prod.ext rfl hps.length_eq.symm
    have hdistinct : (d.key :: (Γ.funs.map Signature.key ++
        (Program.funcDecls ⟨[], fs⟩).map FuncDecl.key)).Nodup := List.nodup_middle.mp hdistinct
    have hother (g : Signature) (hg : g ∈ Γ.funs) : g.key ≠ d.key := by
      intro heq
      refine (List.nodup_cons.mp hdistinct).1 (List.mem_append_left _ ?_)
      exact List.mem_map.mpr ⟨g, hg, heq⟩
    -- the cost of this function comes on top of the costs so far, before those of the later ones
    obtain ⟨c', hsame, hlater⟩ := hfs.exists_costs
      (by rw [← hkey] at hdistinct; exact hdistinct)
      (fun d' hd' => hdescends d' (List.mem_cons_of_mem _ hd'))
      (Function.update c d.key (cost c (Stmt.workIn d.body) + 1))
    have hearlier (g : Signature) (hg : g ∈ Γ.funs) : c' g.key = c g.key := by
      rw [hsame g (List.mem_cons_of_mem _ hg), Function.update_of_ne (hother g hg)]
    refine ⟨c', hearlier, fun d' hd' => ?_⟩
    rcases List.mem_cons.mp hd' with heq | hd'
    · cases heq
      have hcalls : cost c' (Stmt.workIn d.body) = cost c (Stmt.workIn d.body) := by
        refine cost_congr fun g hg => ?_
        obtain ⟨g', hg', rfl⟩ := Context.exists_of_knows (hbody.knows _ hg)
        rcases List.mem_cons.mp hg' with rfl | hg'
        · exact absurd (hkey ▸ hg) (hdescends d List.mem_cons_self)
        · exact hearlier g' hg'
      have hown := hsame f List.mem_cons_self
      rw [hkey, Function.update_self] at hown
      rw [hcalls, hown]
    · exact hlater d' hd'

/-- **A direct and well-typed program has costs that cover the bodies of its functions.** -/
theorem Program.Typed.exists_costs {p : Program} {Γ : Context} (h : p.Typed Γ) (hp : p.IsDirect) :
    ∃ c : FuncKey → Nat, 1 ≤ c Analyzer.printSignature.key ∧
      ∀ d ∈ p.funcDecls, cost c (Stmt.workIn d.body) + 1 ≤ c d.key := by
  obtain ⟨hgs, hfs⟩ := h
  have hfuns := hgs.context.2
  obtain ⟨c, hsame, hcosts⟩ := hfs.exists_costs (by rw [hfuns]; exact hp.distinct)
    (fun d hd => hp.descends d (Program.mem_funcDecls.mpr hd)) fun _ => 1
  refine ⟨c, ?_, fun d hd => hcosts d (Program.mem_funcDecls.mp hd)⟩
  rw [hsame _ (by rw [hfuns]; exact List.mem_singleton.mpr rfl)]

end Scriptlet
