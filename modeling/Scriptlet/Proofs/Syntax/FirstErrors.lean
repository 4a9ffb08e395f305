import Scriptlet.Proofs.Syntax.Layout
import Scriptlet.Proofs.Syntax.Recognition
import Scriptlet.Proofs.Syntax.Viable
import Scriptlet.Proofs.Token.Viable

/-! # Readers fail at the first wrong token

Every reader of the grammar is viable, which follows the compositions of the readers; those that
recurse are viable with any fuel, by induction on it. What is left open in front of a failure is
closed with as few words as can be: an expression is a name, and a block is empty. Where a part
ends, a word follows that it does not go on with.

* `Parser.viable_program`: the reader of programs is viable, as are those of their parts;
* `readers_fail_first`: a failure on the tokens of a text points at the first token that cannot
  continue them. -/

namespace Scriptlet

namespace Parser

open Grammar (IsLexical Avoids EndsBlock endsBlock_iff at?_eq_false_iff reach inner brackets margin
  Tighter two_le_margin margin_le tighter?_eq_some_iff eq_bad_of_literal?)
open Reader

variable {fuel k : Nat} {S S' : List Token → Prop} {v : String}

/-! ### Leaves -/

/-- What starts with a word does not start with others. -/
theorem heads_avoid {ws : List String} (h : v ∉ ws) (ts : List Token) (hts : Heads [v] ts) :
    Avoids ws ts :=
  hts.avoids fun _ hw => List.mem_singleton.mp hw ▸ h

theorem viable_identifier (fuel : Nat) (w : Wanted) :
    ViableAt fuel k 1 (Heads ["x"]) S fun stop _ => identifier stop w := by
  have heq (stop fuel : Nat) (ts : List Token) := identifier_eq stop fuel ts w
  have hfiller : (⟨.identifier, "x", 0⟩ : Token) ∈ fillers := List.mem_cons_self
  have hdone : Completes (done (Name.text "x")) k 0 S S [] := .done _ fun _ => id
  have hcompletes : Completes (fun stop _ => identifier stop w) k 1 (Heads ["x"]) S [] :=
    .filler hfiller (fun _ _ _ => rfl) hdone (Nat.le_add_right k 16)
  refine .of_eq heq (.select (fun t R _ hR => .inr ⟨S, ?_⟩) (Nat.le_add_right k 16)
    (.of_eq (fun stop fuel ts => (heq stop fuel ts).symm) hcompletes))
  split_ifs at hR
  cases hR
  exact .done _

theorem viable_typeNote (fuel : Nat) (hv : v ∉ [":"]) (w : Wanted) :
    ViableAt fuel k 0 (Heads [v]) (Heads [v]) fun stop _ => typeAnnotation stop w := by
  have htype : ViableAt fuel k 1 (Heads ["x"]) (Heads [v])
      (bind (fun stop _ => identifier stop w) fun n => done (some n)) :=
    (viable_identifier fuel w).bind (fun _ => .done _) (fun _ => id) (Nat.le_add_right k _)
      (Nat.le_refl 1) nofun fun _ _ => id
  exact .of_eq (fun stop fuel ts => typeAnnotation_eq stop fuel ts w)
    (.choose (fun _ => htype) (.done _) (Nat.le_add_right k 16) (Nat.zero_le _) (heads_avoid hv)
      fun _ => heads_avoid hv)

/-! ### Expressions -/

/-- What may follow an expression of a tier. -/
abbrev AfterTier (l : Tier) : List Token → Prop := Avoids (reach l ++ brackets)

/-- What may follow an operand of a tier. -/
abbrev AfterOperand (l : Tier) : List Token → Prop := Avoids (inner l ++ brackets)

theorem AfterTier.operand {l : Tier} {ts : List Token} (h : AfterTier l ts) : AfterOperand l ts :=
  h.subset (List.append_subset.mpr
    ⟨fun _ hw => List.mem_append_left _ (List.mem_append_right _ hw), List.subset_append_right ..⟩)

theorem AfterTier.operators {l : Tier} {ts : List Token} (h : AfterTier l ts) :
    Avoids l.operators ts :=
  h.subset (Grammar.operators_eq l ▸ fun _ hw => List.mem_append_left _ (List.mem_append_left _ hw))

/-- What may follow expressions with commas between them. -/
abbrev AfterExpressions : List Token → Prop := Avoids ("," :: (reach .logical ++ brackets))

theorem AfterExpressions.tier {ts : List Token} (h : AfterExpressions ts) : AfterTier .logical ts :=
  h.subset (List.subset_cons_self ..)

theorem AfterExpressions.comma {ts : List Token} (h : AfterExpressions ts) : Avoids [","] ts :=
  h.subset (by decide)

theorem avoids_bracket {w : String} (hw : [w] ⊆ brackets) {ts : List Token}
    (h : Avoids brackets ts) : Avoids [w] ts :=
  h.subset hw

/-- The readers of expressions, with fuel. -/
structure ViableExpressions (fuel : Nat) : Prop where
  tier (l : Tier) : ViableAt fuel (margin l + 1) 1 (Heads ["x"]) (AfterTier l)
    fun stop fuel => tier stop fuel l
  operand (l : Tier) : ViableAt fuel (margin l) 1 (Heads ["x"]) (AfterOperand l)
    fun stop fuel => operand stop fuel l
  chain (l : Tier) (e : Expr) : ViableAt fuel 1 0 (AfterTier l) (AfterTier l)
    fun stop fuel => chain stop fuel l e
  primary : ViableAt fuel 1 1 (Heads ["x"]) (Avoids brackets) primary
  reference (x : Name) : ViableAt fuel 1 0 (Avoids brackets) (Avoids brackets)
    fun stop fuel => reference stop fuel x
  expressions : ViableAt fuel (margin .logical + 2) 1 (Heads ["x"]) AfterExpressions expressions

theorem completes_reference (x : Name) :
    Completes (fun stop fuel => reference stop fuel x) 1 0 (Avoids brackets) (Avoids brackets)
      [] := by
  refine .succ (fun stop fuel ts => reference_succ stop fuel ts x) ?_
  exact ((Completes.done _ fun _ => id).next fun _ => avoids_bracket (by decide)).next
    fun _ => avoids_bracket (by decide)

theorem completes_primary : Completes primary 1 1 (Heads ["x"]) (Avoids brackets) [] := by
  have ht : (⟨.identifier, "x", 0⟩ : Token) ∈ fillers := List.mem_cons_self
  exact .succ primary_succ
    (.filler ht (fun _ _ _ => rfl) (completes_reference (.text "x")) (by decide))

theorem completes_chain (l : Tier) (e : Expr) :
    Completes (fun stop fuel => chain stop fuel l e) 1 0 (AfterTier l) (AfterTier l) [] :=
  .succ (fun stop fuel ts => chain_succ stop fuel ts l e)
    ((Completes.done _ fun _ => id).choose fun _ => AfterTier.operators)

theorem completes_tier {l : Tier}
    (h : Completes (fun stop fuel => operand stop fuel l) (margin l) 1 (Heads ["x"])
      (AfterOperand l) []) :
    Completes (fun stop fuel => tier stop fuel l) (margin l + 1) 1 (Heads ["x"]) (AfterTier l)
      [] := by
  have hmargin := two_le_margin l
  have hchain (e : Expr) := (completes_chain l e).mono (Nat.le_refl 1) (Nat.le_refl 0)
    (fun _ => AfterTier.operand) fun _ => id
  exact .succ (fun stop fuel ts => tier_succ stop fuel ts l)
    (h.bind hchain (by omega) (Nat.le_refl 1))

theorem completes_looser {l next : Tier} (hl : Tighter l next)
    (h : Completes (fun stop fuel => operand stop fuel next) (margin next) 1 (Heads ["x"])
      (AfterOperand next) []) :
    Completes (fun stop fuel => operand stop fuel l) (margin l) 1 (Heads ["x"]) (AfterOperand l)
      [] := by
  rw [← hl.margin_eq, AfterOperand, hl.inner_eq]
  exact .succ (fun stop fuel ts => operand_succ stop fuel ts (tighter?_eq_some_iff.mpr hl))
    (completes_tier h)

theorem completes_operand (l : Tier) :
    Completes (fun stop fuel => operand stop fuel l) (margin l) 1 (Heads ["x"]) (AfterOperand l)
      [] := by
  have hmultiplicative : Completes (fun stop fuel => operand stop fuel .multiplicative)
      (margin .multiplicative) 1 (Heads ["x"]) (AfterOperand .multiplicative) [] :=
    .succ (fun stop fuel ts => operand_succ_none stop fuel ts rfl) completes_primary
  have hadditive := completes_looser .multiplicative hmultiplicative
  have hcomparison := completes_looser .additive hadditive
  cases l with
  | logical => exact completes_looser .comparison hcomparison
  | comparison => exact hcomparison
  | additive => exact hadditive
  | multiplicative => exact hmultiplicative

theorem completes_expressions :
    Completes expressions (margin .logical + 2) 1 (Heads ["x"]) AfterExpressions [] := by
  have htier := (completes_tier (completes_operand .logical)).mono (Nat.le_refl _) (Nat.le_refl 1)
    (fun _ => id) fun _ => AfterExpressions.tier
  have hlast (e : Expr) : Completes
      (Reader.next "," (bind expressions fun es => done (e :: es)) (done [e])) 0 0
      AfterExpressions AfterExpressions [] :=
    (Completes.done [e] fun _ => id).next fun _ => AfterExpressions.comma
  exact .succ expressions_succ (htier.bind hlast (Nat.zero_le _) (Nat.le_refl 1))

theorem ViableExpressions.zero : ViableExpressions 0 where
  tier l := .zero (completes_tier (completes_operand l)) (Nat.succ_pos _)
  operand l := .zero (completes_operand l) (Nat.lt_of_lt_of_le Nat.two_pos (two_le_margin l))
  chain l e := .zero (completes_chain l e) Nat.one_pos
  primary := .zero completes_primary Nat.one_pos
  reference x := .zero (completes_reference x) Nat.one_pos
  expressions := .zero completes_expressions (Nat.succ_pos _)

namespace ViableExpressions

variable (h : ViableExpressions fuel)

include h

theorem tier_before (hv : v ∉ reach .logical ++ brackets) :
    ViableAt fuel (margin .logical + 1) 1 (Heads ["x"]) (Heads [v])
      fun stop fuel => Parser.tier stop fuel .logical :=
  (h.tier .logical).imp (fun _ => id) (heads_avoid hv)

theorem expressions_before (hv : v ∉ "," :: (reach .logical ++ brackets)) :
    ViableAt fuel (margin .logical + 2) 1 (Heads ["x"]) (Heads [v]) Parser.expressions :=
  h.expressions.imp (fun _ => id) (heads_avoid hv)

theorem tier_succ (l : Tier) : ViableAt (fuel + 1) (margin l + 1) 1 (Heads ["x"]) (AfterTier l)
    fun stop fuel => Parser.tier stop fuel l := by
  have hmargin := two_le_margin l
  exact .succ (fun stop fuel ts => Parser.tier_succ stop fuel ts l)
    ((h.operand l).bind (h.chain l) (fun _ => AfterTier.operand) (by omega) (Nat.le_refl 1) nofun
      fun _ _ => AfterTier.operand)

theorem operand_succ (l : Tier) : ViableAt (fuel + 1) (margin l) 1 (Heads ["x"]) (AfterOperand l)
    fun stop fuel => Parser.operand stop fuel l := by
  cases hl : l.tighter? with
  | some next =>
    have htighter := tighter?_eq_some_iff.mp hl
    rw [← htighter.margin_eq, AfterOperand, htighter.inner_eq]
    exact .succ (fun stop fuel ts => Parser.operand_succ stop fuel ts hl) (h.tier next)
  | none =>
    cases l with
    | logical | comparison | additive => cases hl
    | multiplicative =>
      exact .succ (fun stop fuel ts => Parser.operand_succ_none stop fuel ts hl) h.primary

theorem chain_succ (l : Tier) (e : Expr) : ViableAt (fuel + 1) 1 0 (AfterTier l) (AfterTier l)
    fun stop fuel => Parser.chain stop fuel l e := by
  have hmargin := Grammar.margin_le l
  have hmore (op : String) : ViableAt fuel (margin l) 1 (Heads ["x"]) (AfterTier l)
      (bind (fun stop fuel => Parser.operand stop fuel l) fun right stop fuel =>
        Parser.chain stop fuel l (.binary op e right none)) :=
    (h.operand l).bind (fun right => h.chain l (.binary op e right none))
      (fun _ => AfterTier.operand) (by omega) (Nat.le_refl 1) nofun fun _ _ => AfterTier.operand
  exact .succ (fun stop fuel ts => Parser.chain_succ stop fuel ts l e)
    (.choose hmore (.done e) (by omega) (Nat.zero_le _) (fun _ => AfterTier.operators)
      fun _ _ => AfterTier.operators)

theorem reference_succ (x : Name) :
    ViableAt (fuel + 1) 1 0 (Avoids brackets) (Avoids brackets)
      fun stop fuel => Parser.reference stop fuel x := by
  have hargs := (h.expressions_before (by decide)).before (S := Avoids brackets)
    (fun args => Expr.call x args none none) (w := ")") (by decide)
  have hcall := (ViableAt.done (S := Avoids brackets) (Expr.call x [] none none)).next (w := ")")
    hargs (Nat.zero_le _) (Nat.le_refl 1) (heads_avoid (by decide)) nofun
  have hindex := (h.tier_before (by decide)).before (S := Avoids brackets)
    (fun o => Expr.index x o none none) (w := "]") (by decide)
  have hname := hindex.next (w := "[") (.done (S := Avoids brackets) (Expr.name x none none))
    (k := 0) (by decide) (Nat.zero_le _) (fun _ => avoids_bracket (by decide))
    fun _ _ => avoids_bracket (by decide)
  exact .succ (fun stop fuel ts => Parser.reference_succ stop fuel ts x)
    (hcall.next hname (by decide) (Nat.zero_le _) (fun _ => avoids_bracket (by decide))
      fun _ _ => avoids_bracket (by decide))

theorem primary_succ : ViableAt (fuel + 1) 1 1 (Heads ["x"]) (Avoids brackets) Parser.primary := by
  have hgroup := (h.tier_before (by decide)).before (S := Avoids brackets)
    (fun e => Expr.group e none) (w := ")") (by decide)
  have hrest : ∀ t R, IsLexical t → primaryRest t = some R →
      (∃ e : ParseError, e.offset? = none ∧ R = broken e) ∨
        ∃ S₀, ViableAt fuel (margin .logical + 1) 0 S₀ (Avoids brackets) R := by
    intro t R ht hR
    rw [primaryRest] at hR
    cases hliteral : literal? t with
    | some r =>
      rw [hliteral] at hR
      cases r with
      | ok e =>
        cases hR
        exact .inr ⟨_, .done e⟩
      | error e =>
        cases hR
        rcases eq_bad_of_literal? ht hliteral with ⟨p, rfl⟩ | ⟨s, rfl⟩
        · exact .inl ⟨_, rfl, rfl⟩
        · exact .inl ⟨_, rfl, rfl⟩
    | none =>
      rw [hliteral] at hR
      dsimp only at hR
      split_ifs at hR
      · cases hR
        exact .inr ⟨_, hgroup.mono (Nat.le_refl _) (Nat.zero_le _) (fun _ => id) fun _ => id⟩
      · cases hR
        exact .inr ⟨_, (h.reference (.text t.text)).mono (by decide) (Nat.le_refl 0) (fun _ => id)
          fun _ => id⟩
  have hfiller : (⟨.identifier, "x", 0⟩ : Token) ∈ fillers := List.mem_cons_self
  exact .succ Parser.primary_succ (.select hrest (by decide)
    (.filler hfiller (fun _ _ _ => rfl) (completes_reference (.text "x")) (by decide)))

theorem expressions_succ :
    ViableAt (fuel + 1) (margin .logical + 2) 1 (Heads ["x"]) AfterExpressions
      Parser.expressions := by
  have hmore (e : Expr) := h.expressions.map (fun es => e :: es) nofun
  have hlast (e : Expr) := (hmore e).next (w := ",") (.done [e]) (k := 0) (by decide)
    (Nat.zero_le _) (fun _ => AfterExpressions.comma) fun _ _ => AfterExpressions.comma
  exact .succ Parser.expressions_succ ((h.tier .logical).bind hlast (fun _ => AfterExpressions.tier)
    (Nat.zero_le _) (Nat.le_refl 1) nofun fun _ _ => AfterExpressions.tier)

end ViableExpressions

theorem viableExpressions : ∀ fuel, ViableExpressions fuel
  | 0 => .zero
  | fuel + 1 =>
    have h := viableExpressions fuel
    ⟨h.tier_succ, h.operand_succ, h.chain_succ, h.primary_succ, h.reference_succ,
      h.expressions_succ⟩

theorem viable_expression (fuel : Nat) (hS : ∀ ts, S ts → AfterTier .logical ts) :
    ViableAt fuel 0 1 (Heads ["x"]) S fun stop _ => expression stop :=
  .of_eq (fun stop fuel ts => expression_eq stop fuel ts)
    (.refuel (fun fuel => ((viableExpressions fuel).tier .logical).imp (fun _ => id) hS)
      (by decide))

/-- An expression before a word. -/
theorem viable_expression_before (fuel : Nat) (hv : v ∉ reach .logical ++ brackets) :
    ViableAt fuel 0 1 (Heads ["x"]) (Heads [v]) fun stop _ => expression stop :=
  viable_expression fuel (heads_avoid hv)

theorem viable_listLiteral (fuel : Nat) :
    ViableAt fuel 0 1 (Heads ["["]) S fun stop _ => listLiteral stop := by
  have hvalues : ViableAt fuel 0 1 (Heads ["x"]) (Heads ["]"]) (refuel expressions) :=
    .refuel (fun fuel => (viableExpressions fuel).expressions_before (by decide)) (by decide)
  exact .of_eq (fun stop fuel ts => listLiteral_eq stop fuel ts)
    ((hvalues.before (fun vs => Expr.list vs none) (by decide)).expect (by decide) (by decide))

theorem viable_initializer (fuel : Nat) :
    ViableAt fuel 0 0 (Heads [";"]) (Heads [";"]) fun stop _ => initializer stop := by
  have hvalue := (viable_expression_before fuel (v := ";") (by decide)).map
    (fun e => some e) nofun
  exact .of_eq (fun stop fuel ts => initializer_eq stop fuel ts)
    (hvalue.next (.done none) (Nat.zero_le _) (Nat.zero_le _) (heads_avoid (by decide))
      fun _ => heads_avoid (by decide))

/-! ### Statements -/

theorem viable_localDeclaration (fuel : Nat) :
    ViableAt fuel 0 1 (Heads ["x"]) S fun stop _ => localDeclaration stop := by
  have hend (n : Name) (t : Option Name) (v : Option Expr) :
      ViableAt fuel 0 1 (Heads [";"]) S (expect ";" (done (Stmt.declare n t v none))) :=
    (ViableAt.done _).expect (k := 0) (Nat.zero_le _) (by decide)
  have hvalue (n : Name) (t : Option Name) :=
    (viable_initializer fuel).opt (hend n t) (fun _ => id) (Nat.le_refl 0) fun _ => id
  have htype (n : Name) :=
    (viable_typeNote fuel (k := 0) (v := ";") (by decide) .typeName).opt (hvalue n) (fun _ => id)
      (Nat.le_refl 0) fun _ => id
  exact .of_eq (fun stop fuel ts => localDeclaration_eq stop fuel ts)
    ((viable_identifier fuel .variableName).seq htype (Nat.zero_le _))

theorem viable_simpleStatement (fuel : Nat) :
    ViableAt fuel 0 1 (Heads ["x"]) S fun stop _ => simpleStatement stop := by
  have hassign (e : Expr) := (viable_expression_before fuel (v := ";") (by decide)).before
    (S := S) (fun v => Stmt.assign e v) (by decide)
  have hend (e : Expr) : ViableAt fuel 0 1 (Heads [";"]) S (expect ";" (done (Stmt.expr e))) :=
    (ViableAt.done _).expect (k := 0) (Nat.zero_le _) (by decide)
  have hrest (e : Expr) := (hassign e).next (w := "=") (hend e) (Nat.zero_le _) (by decide)
    (heads_avoid (by decide)) nofun
  exact .of_eq (fun stop fuel ts => simpleStatement_eq stop fuel ts)
    ((viable_expression_before fuel (by decide)).seq hrest (Nat.zero_le _))

theorem completes_block : Completes block 2 0 (fun _ => True) EndsBlock [] := by
  have hdone : Completes (done ([] : List Stmt)) 1 0 EndsBlock EndsBlock [] := .done _ fun _ => id
  have hpick := hdone.guard (R := Reader.pick endsBlock (done [])
    (bind statement fun x => bind block fun xs => done (x :: xs))) (p := EndsBlock)
    (fun ts us h hts => by rwa [EndsBlock, h]) (fun _ _ _ h => if_pos (endsBlock_iff.mpr h))
    (fun _ => id) nofun
  exact (hpick.succ block_succ).mono (Nat.le_refl 2) (Nat.le_refl 0) (fun _ _ => trivial)
    fun _ => id

/-- The readers of statements, with fuel. -/
structure ViableStatements (fuel : Nat) : Prop where
  block : ViableAt fuel 2 0 (fun _ => True) EndsBlock block
  statement (S : List Token → Prop) : ViableAt fuel 1 1 (Heads ["x"]) S statement
  cases : ViableAt fuel 1 1 (Heads ["DEFAULT"]) (Heads ["END"]) cases

theorem completes_statement (S : List Token → Prop) :
    Completes statement 1 1 (Heads ["x"]) S [] :=
  have hsimple := (viable_simpleStatement (S := S) 0).completes
  have hret := hsimple.next (w := "RETURN") (heads_avoid (by decide))
  have hloop := hret.next (w := "WHILE") (heads_avoid (by decide))
  have hswitch := hloop.next (w := "SWITCH") (heads_avoid (by decide))
  have hif := hswitch.next (w := "IF") (heads_avoid (by decide))
  .succ statement_succ (hif.next (heads_avoid (by decide)))

theorem completes_cases : Completes cases 1 1 (Heads ["DEFAULT"]) (Heads ["END"]) [] := by
  have hblock : Completes (bind block fun b => done [Case.otherwise b]) 2 0 (fun _ => True)
      (Heads ["END"]) [] :=
    (completes_block.mono (Nat.le_refl 2) (Nat.le_refl 0) (fun _ => id)
      fun _ h => h.endsBlock (by decide)).bind (fun b => .done _ fun _ => id) (Nat.zero_le _)
        (Nat.le_refl 0)
  exact .succ cases_succ ((hblock.expect (by decide) (by decide)).next (heads_avoid (by decide)))

theorem ViableStatements.zero : ViableStatements 0 where
  block := .zero completes_block Nat.two_pos
  statement S := .zero (completes_statement S) Nat.one_pos
  cases := .zero completes_cases Nat.one_pos

namespace ViableStatements

variable (h : ViableStatements fuel)

include h

theorem block_before (hv : [v] ⊆ ["END", "ELSE", "CASE", "DEFAULT"]) :
    ViableAt fuel 2 0 (fun _ => True) (Heads [v]) Parser.block :=
  h.block.imp (fun _ => id) fun _ hts => hts.endsBlock hv

theorem block_succ : ViableAt (fuel + 1) 2 0 (fun _ => True) EndsBlock Parser.block := by
  have hblock (x : Stmt) := h.block.map (fun xs => x :: xs) fun _ _ _ => trivial
  have hmore : ViableAt fuel 1 1 (Heads ["x"]) EndsBlock
      (bind Parser.statement fun x => bind Parser.block fun xs => done (x :: xs)) :=
    (h.statement fun _ => True).bind hblock (fun _ => id) (by decide) (by decide)
      (absurd · Nat.one_ne_zero) fun _ _ _ => trivial
  have hhead (ts us : List Token) (hhead : us.head? = ts.head?) : endsBlock us = endsBlock ts := by
    rw [Bool.eq_iff_iff, endsBlock_iff, endsBlock_iff, EndsBlock, EndsBlock, hhead]
  have hstart (ts : List Token) (hts : Heads ["x"] ts) : endsBlock ts = false := by
    obtain ⟨t, ht, htext⟩ := hts
    refine Bool.eq_false_iff.mpr fun hends => ?_
    have hmem := endsBlock_iff.mp hends t ht
    rw [List.mem_singleton.mp htext] at hmem
    revert hmem
    decide
  exact (ViableAt.succ Parser.block_succ (.pick hhead (.done []) hmore
    (fun _ => endsBlock_iff.mpr) hstart (Nat.zero_le _) (fun _ _ => endsBlock_iff.mpr)
      (absurd · Nat.one_ne_zero))).imp (fun _ _ => trivial) fun _ => id

theorem cases_succ : ViableAt (fuel + 1) 1 1 (Heads ["DEFAULT"]) (Heads ["END"]) Parser.cases := by
  have hdefault : ViableAt fuel 0 1 (Heads ["DEFAULT"]) (Heads ["END"])
      (expect "DEFAULT" <| bind Parser.block fun b => done [Case.otherwise b]) :=
    ((h.block_before (by decide)).map (fun b => [Case.otherwise b]) fun _ _ _ => trivial).expect
      (by decide) (by decide)
  have hmore (v : Expr) (b : List Stmt) := h.cases.map (fun cs => Case.equals v b :: cs) nofun
  have hblock (v : Expr) := h.block.opt (hmore v) (fun _ hts => hts.endsBlock (by decide))
    (by decide) fun _ _ => trivial
  have hcolon (v : Expr) : ViableAt fuel 0 1 (Heads [":"]) (Heads ["END"]) _ :=
    (hblock v).expect (by decide) (by decide)
  have hcase := (viable_expression_before fuel (by decide)).seq hcolon (by decide)
  exact .succ Parser.cases_succ
    (hcase.next hdefault (by decide) (by decide) (heads_avoid (by decide)) nofun)

theorem statement_succ (S : List Token → Prop) :
    ViableAt (fuel + 1) 1 1 (Heads ["x"]) S Parser.statement := by
  have hend {α : Type} (a : α) : ViableAt fuel 0 1 (Heads ["END"]) S (expect "END" (done a)) :=
    (ViableAt.done (k := 0) a).expect (by decide) (by decide)
  have helse (c : Expr) (t : List Stmt) := (h.block_before (v := "END") (by decide)).opt
    (fun e => hend (Stmt.branch c t e)) (fun _ => id) (by decide) fun _ _ => trivial
  have hrest (c : Expr) (t : List Stmt) : ViableAt fuel 0 1 (Heads ["END"]) S (branchRest c t) :=
    (helse c t).next (hend _) (by decide) (by decide) (heads_avoid (by decide)) nofun
  have hthen (c : Expr) := h.block.opt (hrest c) (fun _ hts => hts.endsBlock (by decide))
    (by decide) fun _ _ => trivial
  have hdo (c : Expr) : ViableAt fuel 0 1 (Heads ["DO"]) S _ :=
    (hthen c).expect (by decide) (by decide)
  have hif := (viable_expression_before fuel (by decide)).seq hdo (by decide)
  have hcases (c : Expr) := h.cases.seq (fun cs => hend (Stmt.switch c cs)) (by decide)
  have hswitch := (viable_expression_before fuel (by decide)).seq hcases (by decide)
  have hbody (c : Expr) := (h.block_before (v := "END") (by decide)).opt
    (fun b => hend (Stmt.loop c b)) (fun _ => id) (by decide) fun _ _ => trivial
  have hdo' (c : Expr) : ViableAt fuel 0 1 (Heads ["DO"]) S _ :=
    (hbody c).expect (by decide) (by decide)
  have hwhile := (viable_expression_before fuel (by decide)).seq hdo' (by decide)
  have hret := (viable_expression_before fuel (v := ";") (by decide)).before (S := S)
    (fun e => Stmt.ret e) (by decide)
  have hsimple := viable_simpleStatement (S := S) fuel
  -- the words are told apart one after the other, the last one first
  have h₁ := hret.next (w := "RETURN") hsimple (by decide) (by decide) (heads_avoid (by decide))
    nofun
  have h₂ := hwhile.next (w := "WHILE") h₁ (by decide) (by decide) (heads_avoid (by decide)) nofun
  have h₃ := hswitch.next (w := "SWITCH") h₂ (by decide) (by decide) (heads_avoid (by decide)) nofun
  have h₄ := hif.next (w := "IF") h₃ (by decide) (by decide) (heads_avoid (by decide)) nofun
  exact .succ Parser.statement_succ ((viable_localDeclaration fuel).next (w := "LET") h₄ (by decide)
    (by decide) (heads_avoid (by decide)) nofun)

end ViableStatements

theorem viableStatements : ∀ fuel, ViableStatements fuel
  | 0 => .zero
  | fuel + 1 =>
    have h := viableStatements fuel
    ⟨h.block_succ, h.statement_succ, h.cases_succ⟩

/-! ### Declarations -/

/-- Two readers that are told apart by a word. -/
theorem ViableAt.pickWord {α : Type} {R R' : Reader α} {w : String}
    (hR : ViableAt fuel k 1 (Heads [w]) S R) (hR' : ViableAt fuel k 1 (Heads [v]) S R')
    (hv : v ∉ [w]) :
    ViableAt fuel k 1 (fun ts => Heads [w] ts ∨ Heads [v] ts) S (Reader.pick (at? w) R R') := by
  refine .pick (fun ts us hhead => ?_) hR hR' (fun ts hts => ?_) (fun ts hts => ?_) (Nat.le_refl 1)
    nofun nofun
  · cases ts with
    | nil => rw [List.head?_eq_none_iff.mp hhead]
    | cons t ts =>
      obtain ⟨us, rfl⟩ := List.head?_eq_some_iff.mp hhead
      rfl
  · obtain ⟨t, ht, htext⟩ := hts
    obtain ⟨us, rfl⟩ := List.head?_eq_some_iff.mp ht
    exact decide_eq_true (List.mem_singleton.mp htext)
  · exact at?_eq_false_iff.mpr (heads_avoid hv ts hts)

theorem viable_global (fuel : Nat) (keyword : String) :
    ViableAt fuel 0 1 (Heads ["x"]) S fun stop _ => global stop keyword := by
  have hend (g : GlobalDecl) : ViableAt fuel 0 1 (Heads [";"]) S (expect ";" (done g)) :=
    (ViableAt.done (k := 0) g).expect (by decide) (by decide)
  have hlist (n : Name) (t : Option Name) := (viable_listLiteral (S := Heads [";"]) fuel).seq
    (fun e => hend ⟨n, keyword ≠ "VAL", t, some e, keyword = "LIST" || true, none⟩) (by decide)
  have hexpr (n : Name) (t : Option Name) := (viable_expression_before fuel (by decide)).seq
    (fun e => hend ⟨n, keyword ≠ "VAL", t, some e, keyword = "LIST" || false, none⟩) (by decide)
  have hvalue (n : Name) (t : Option Name) := (hlist n t).pickWord (hexpr n t) (by decide)
  have hrest (n : Name) (t : Option Name) :
      ViableAt fuel 0 1 (Heads [";"]) S (globalRest keyword n t) :=
    (hvalue n t).next (hend _) (by decide) (by decide) (heads_avoid (by decide)) nofun
  have htype (n : Name) := (viable_typeNote fuel (k := 0) (by decide) .typeName).opt (hrest n)
    (fun _ => id) (by decide) fun _ => id
  exact .of_eq (fun stop fuel ts => global_eq stop fuel ts keyword)
    ((viable_identifier fuel .globalName).seq htype (by decide))

theorem viable_parameter (fuel : Nat) (hv : v ∉ [":"]) :
    ViableAt fuel 0 1 (Heads ["x"]) (Heads [v]) fun stop _ => parameter stop := by
  have htype (n : Name) := (viable_typeNote fuel (k := 0) hv .typeName).map
    (fun t => Param.typed n t) fun _ _ => id
  exact .of_eq (fun stop fuel ts => parameter_eq stop fuel ts)
    ((viable_identifier fuel .parameterName).bind htype (fun _ => id) (by decide) (by decide) nofun
      fun _ _ => id)

theorem viable_parameters : ∀ fuel,
    ViableAt fuel 1 1 (Heads ["x"]) (Heads [")"]) parameters
  | 0 => by
    have hlast (p : Param) :
        Completes (next "," (bind parameters fun ps => done (p :: ps)) (done [p])) 0 0 (Heads [")"])
          (Heads [")"]) [] :=
      (Completes.done [p] fun _ => id).next (heads_avoid (by decide))
    exact .zero (.succ parameters_succ ((viable_parameter 0 (by decide)).completes.bind hlast
      (by decide) (by decide))) Nat.one_pos
  | fuel + 1 => by
    have hmore (p : Param) := (viable_parameters fuel).map (fun ps => p :: ps) nofun
    have hlast (p : Param) := (hmore p).next (w := ",") (.done [p]) (k := 0) (by decide) (by decide)
      (heads_avoid (by decide)) fun _ => heads_avoid (by decide)
    exact .succ parameters_succ ((viable_parameter fuel (by decide)).bind hlast (fun _ => id)
      (by decide) (by decide) nofun fun _ _ => id)

theorem viable_function (fuel : Nat) :
    ViableAt fuel 0 1 (Heads ["x"]) S fun stop _ => function stop := by
  have hend (f : FuncDecl) : ViableAt fuel 0 1 (Heads ["END"]) S (expect "END" (done f)) :=
    (ViableAt.done (k := 0) f).expect (by decide) (by decide)
  have hblock : ViableAt fuel 0 0 (fun _ => True) (Heads ["END"]) (refuel block) :=
    .refuel (fun fuel => (viableStatements fuel).block_before (by decide)) (by decide)
  have hbody (n : Name) (ps : List Param) (r : Option Name) :=
    hblock.opt (fun b => hend ⟨n, ps, r, b, none⟩) (fun _ => id) (by decide) fun _ _ => trivial
  have hdo (n : Name) (ps : List Param) (r : Option Name) :
      ViableAt fuel 0 1 (Heads ["DO"]) S _ := (hbody n ps r).expect (by decide) (by decide)
  have htype (n : Name) (ps : List Param) := (viable_typeNote fuel (k := 0) (by decide)
    .returnTypeName).opt (hdo n ps) (fun _ => id) (by decide) fun _ => id
  have hrest (n : Name) (ps : List Param) :
      ViableAt fuel 0 1 (Heads [")"]) S (functionRest n ps) :=
    (htype n ps).expect (by decide) (by decide)
  have hparams : ViableAt fuel 0 1 (Heads ["x"]) (Heads [")"]) (refuel parameters) :=
    .refuel viable_parameters (by decide)
  have hsome (n : Name) := hparams.seq (hrest n) (by decide)
  have hopen (n : Name) : ViableAt fuel 0 1 (Heads ["("]) S _ :=
    ((hrest n []).pickWord (hsome n) (by decide)).expect (by decide) (by decide)
  exact .of_eq (fun stop fuel ts => function_eq stop fuel ts)
    ((viable_identifier fuel .functionName).seq hopen (by decide))

/-- What may follow declarations of global variables. -/
abbrev AfterGlobals : List Token → Prop := Avoids ["LIST", "VAR", "VAL"]

theorem viable_globals : ∀ fuel, ViableAt fuel 1 0 AfterGlobals AfterGlobals globals
  | 0 => .zero (.succ globals_succ ((Completes.done _ fun _ => id).choose fun _ => id)) Nat.one_pos
  | fuel + 1 => by
    have hmore (g : GlobalDecl) := (viable_globals fuel).map (fun gs => Global.decl g :: gs)
      fun _ _ => id
    have hglobal (keyword : String) :=
      (viable_global (S := AfterGlobals) fuel keyword).bind hmore (fun _ => id) (by decide)
        (Nat.le_refl 1) nofun fun _ _ => id
    exact .succ globals_succ (.choose hglobal (.done _) (by decide) (by decide) (fun _ => id)
      fun _ _ => id)

theorem viable_functions : ∀ fuel, ViableAt fuel 1 0 (· = []) (· = []) functions
  | 0 => .zero (.succ functions_succ
      ((Completes.done _ fun _ => id).next fun _ h => h ▸ Grammar.avoids_nil)) Nat.one_pos
  | fuel + 1 => by
    have hmore (f : FuncDecl) := (viable_functions fuel).map (fun fs => Func.decl f :: fs)
      fun _ _ => id
    have hfunction := (viable_function fuel).bind hmore (fun _ => id) (by decide)
      (Nat.le_refl 1) nofun fun _ _ => id
    exact .succ functions_succ (hfunction.next (.done _) (by decide) (by decide)
      (fun _ h => h ▸ Grammar.avoids_nil) fun _ _ h => h ▸ Grammar.avoids_nil)

theorem viable_program (fuel : Nat) :
    ViableAt fuel 0 0 AfterGlobals (· = []) fun stop _ => program stop := by
  have hglobals : ViableAt fuel 0 0 AfterGlobals AfterGlobals (refuel globals) :=
    .refuel viable_globals (by decide)
  have hfunctions : ViableAt fuel 0 0 (· = []) (· = []) (refuel functions) :=
    .refuel viable_functions (by decide)
  have hrest (gs : List Global) := hfunctions.bind (fun fs => .finish (k := 0) (Program.mk gs fs))
    (fun _ => id) (by decide) (Nat.le_refl 0) (fun _ _ => id) fun _ _ => id
  exact .of_eq (fun stop fuel ts => program_eq stop fuel ts)
    (hglobals.bind hrest (fun _ h => h ▸ Grammar.avoids_nil) (by decide) (Nat.le_refl 0)
      (fun _ _ => id) fun _ _ h => h ▸ Grammar.avoids_nil)

/-! ### Failures -/

theorem fillers_stand : ∀ t ∈ fillers, t.Stands :=
  (tokenize_eq_ok_iff.mp (rfl : tokenize "x ( ) [ ] : ; DO END DEFAULT" = .ok fillers)).stands

end Parser

section Readers

variable {α : Type} {parse : List Token → Except ParseError (α × List Token)}

/-- Whether a failure of a reader on tokens points at the first one, that with index `p`, that
cannot continue what precedes it: the tokens in front of it start the tokens of a text of which all
is read, and with this one the reader fails in the same way, whatever follows. The end of the tokens
has the index after all of them. -/
structure PointsAt (parse : List Token → Except ParseError (α × List Token)) (ts : List Token)
    (e : ParseError) (o p : Nat) : Prop where
  le : p ≤ ts.length
  offset_eq : o = (ts[p]?.map Token.offset).getD (Parser.endOffset ts)
  extends_to : ∃ s us a, tokenize s = .ok us ∧ ts.take p <+: us ∧ parse us = .ok (a, [])
  fails : p < ts.length → ∀ us, ts.take (p + 1) <+: us → parse us = .error e

/-- Whether a reader fails on tokens at the first wrong one. A failure without an offset is about a
number that is too long. -/
def FailsFirst (parse : List Token → Except ParseError (α × List Token)) (ts : List Token) : Prop :=
  ∀ e o, parse ts = .error e → e.offset? = some o → ∃ p, PointsAt parse ts e o p

/-- Whether a reader reads the same off tokens that differ in their offsets alone. -/
def IgnoresOffsets (parse : List Token → Except ParseError (α × List Token)) : Prop :=
  ∀ ts us a, List.Forall₂ Token.Same ts us → parse ts = .ok (a, []) → parse us = .ok (a, [])

theorem ignoresOffsets_of_agree
    (h : ∀ ts us, List.Forall₂ Token.Same ts us → ∃ stop stop',
      Parser.Agree Token.Same stop stop' (Parser.SameRead Token.Same) (parse ts) (parse us)) :
    IgnoresOffsets parse := by
  intro ts us a hsame hread
  obtain ⟨stop, stop', hagree⟩ := h ts us hsame
  rw [hread] at hagree
  generalize parse us = r at hagree ⊢
  cases hagree with
  | @ok _ b hab =>
    obtain ⟨b, rest⟩ := b
    obtain ⟨rfl, hrest⟩ := hab
    cases hrest
    rfl

/-- A viable reader fails at the first wrong token. -/
theorem FailsFirst.of_viable {R : Parser.Reader α} {k c : Nat} {S₀ S : List Token → Prop}
    (hparse : ∀ ts, parse ts = R (Parser.endOffset ts) (Parser.fuelFor ts) ts)
    (h : ∀ fuel, Parser.ViableAt fuel k c S₀ S R) (hk : k ≤ 16) (hS : S [])
    (hoffsets : IgnoresOffsets parse) {s : String} {ts : List Token} (hs : tokenize s = .ok ts) :
    FailsFirst parse ts := by
  have henough (us : List Token) : Parser.Enough k (Parser.fuelFor us) us := by
    unfold Parser.Enough Parser.fuelFor
    omega
  intro e o he ho
  have hresult := (h (Parser.fuelFor ts)).result (Parser.endOffset ts) ts (lexed_of_tokenize hs)
    (henough ts)
  rw [← hparse, he] at hresult
  generalize hr : (Except.error e : Except ParseError (α × List Token)) = r at hresult
  cases hresult with
  | read => cases hr
  | broken hnone =>
    cases hr
    rw [hnone] at ho
    cases ho
  | @refused w used rest hts hrefuses hcompletes =>
    subst hts
    refine ⟨used.length, ⟨?_, ?_, ?_, fun hlt us hprefix => ?_⟩⟩
    · rw [List.length_append]
      exact Nat.le_add_right ..
    · cases rest with
      | nil =>
        cases hr
        cases ho
        rw [List.getElem?_eq_none (by simp)]
        rfl
      | cons t rest =>
        cases hr
        cases ho
        rw [List.getElem?_append_right (Nat.le_refl _), Nat.sub_self]
        rfl
    · obtain ⟨more, hmore, -, a, hread⟩ := hcompletes
      obtain ⟨s', us, hs', hsame⟩ := exists_tokenize_append hs used.length fun t ht =>
        Parser.fillers_stand t (hmore ht)
      refine ⟨s', _, a, hs', List.prefix_append _ us, hoffsets (used ++ more) _ a ?_ ?_⟩
      · rw [List.take_left]
        exact List.rel_append (List.forall₂_same.mpr fun t _ => ⟨rfl, rfl⟩) hsame
      · have hread := (hread [] hS).2 (Parser.endOffset (used ++ more))
          (Parser.fuelFor (used ++ more))
        rw [List.append_nil] at hread
        rw [hparse, hread (henough _)]
    · obtain ⟨t, rest, rfl⟩ : ∃ t rest', rest = t :: rest' :=
        List.exists_cons_of_ne_nil fun hnil => by simp [hnil] at hlt
      obtain ⟨us, rfl⟩ := hprefix
      have hfail := hrefuses (Parser.endOffset (used ++ t :: us)) (Parser.fuelFor (used ++ t :: us))
        (t :: us) rfl (henough _)
      rw [List.take_length_add_append, List.take_succ_cons, List.take_zero, List.append_assoc,
        List.singleton_append, hparse, hfail]
      exact hr.symm

end Readers

/-- **A failure of a reader points at the first token that cannot continue what precedes it.** -/
theorem readers_fail_first {s : String} {ts : List Token} (h : tokenize s = .ok ts) :
    FailsFirst parseProgram ts ∧ FailsFirst parseBlock ts ∧ FailsFirst parseStatement ts ∧
      FailsFirst parseExpression ts := by
  have hprogram : IgnoresOffsets parseProgram := ignoresOffsets_of_agree fun ts us hsame =>
    ⟨_, _, Parser.agree_program (fun _ _ => id) hsame⟩
  have hblock : IgnoresOffsets parseBlock := ignoresOffsets_of_agree fun ts us hsame => by
    refine ⟨Parser.endOffset ts, Parser.endOffset us, ?_⟩
    rw [parseBlock, parseBlock, Parser.fuelFor_eq hsame]
    exact Parser.agree_block (fun _ _ => id) hsame
  have hstatement : IgnoresOffsets parseStatement := ignoresOffsets_of_agree fun ts us hsame => by
    refine ⟨Parser.endOffset ts, Parser.endOffset us, ?_⟩
    rw [parseStatement, parseStatement, Parser.fuelFor_eq hsame]
    exact Parser.agree_statement (fun _ _ => id) hsame
  have hexpression : IgnoresOffsets parseExpression := ignoresOffsets_of_agree fun ts us hsame =>
    ⟨_, _, Parser.agree_expression (fun _ _ => id) hsame⟩
  have hviable (fuel : Nat) := Parser.viableStatements fuel
  exact ⟨.of_viable (fun _ => rfl) Parser.viable_program (by decide) rfl hprogram h,
    .of_viable (fun _ => rfl) (fun fuel => (hviable fuel).block) (by decide) nofun hblock h,
    .of_viable (fun _ => rfl) (fun fuel => (hviable fuel).statement fun _ => True) (by decide)
      trivial hstatement h,
    .of_viable (fun _ => rfl) (fun fuel => Parser.viable_expression fuel fun _ => id) (by decide)
      Grammar.avoids_nil hexpression h⟩

/-- A statement without a semicolon is refused at the token that follows it. -/
theorem readers_fail_first_semicolon :
    PointsAt parseStatement
      [⟨.identifier, "RETURN", 0⟩, ⟨.integer, "1", 7⟩, ⟨.identifier, "x", 9⟩]
      (.unexpected (.word ";") (some "x") 9) 9 2 := by
  have hs : tokenize "RETURN 1 x" =
      .ok [⟨.identifier, "RETURN", 0⟩, ⟨.integer, "1", 7⟩, ⟨.identifier, "x", 9⟩] := by rfl
  obtain ⟨p, hp⟩ := (readers_fail_first hs).2.2.1 (.unexpected (.word ";") (some "x") 9) 9
    rfl rfl
  have hle : p ≤ 3 := hp.le
  -- no other token has the offset
  obtain rfl | rfl | rfl | rfl : p = 0 ∨ p = 1 ∨ p = 2 ∨ p = 3 := by omega
  · exact absurd hp.offset_eq (by decide)
  · exact absurd hp.offset_eq (by decide)
  · exact hp
  · exact absurd hp.offset_eq (by decide)

end Scriptlet
