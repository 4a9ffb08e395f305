import Mathlib.Data.List.Forall2
import Scriptlet.Proofs.Syntax.Refusals
import Scriptlet.Proofs.Token.Spacing

/-! # Layout

How the tokens of a text are laid out does not matter. The same tokens are read again where they are
written apart, and the readers look at the classes and the texts of tokens only. Where tokens stand
is only reported: a reader that fails names the offset of a token or of the end. So over two lists
of tokens that differ in their offsets alone a reader reads the same, or fails with the same problem
at places that correspond.

The correspondence of tokens is a parameter, so that the places of a failure are known as well as
the correspondence is. As for other properties of the readers, there is one relation on outcomes
that is closed under sequences, and one lemma for each reader.

* `Parser.agree_program`: reading a program off corresponding tokens.
* `layout_irrelevant`: reading a program off a text with another layout. -/

namespace Scriptlet.Parser

/-- Whether two failures are the same problem at places that correspond: at tokens that do, or at
the ends. -/
inductive SameFailure (M : Token → Token → Prop) (stop stop' : Nat) :
    ParseError → ParseError → Prop where
  | token (w : Wanted) {t u : Token} : M t u →
      SameFailure M stop stop' (.unexpected w (some t.text) t.offset)
        (.unexpected w (some t.text) u.offset)
  | atEnd (w : Wanted) :
      SameFailure M stop stop' (.unexpected w none stop) (.unexpected w none stop')
  | escape {t u : Token} : M t u →
      SameFailure M stop stop' (.invalidEscape t.offset) (.invalidEscape u.offset)
  | integer (text : String) (problem : Text.IntegerProblem) :
      SameFailure M stop stop' (.badInteger text problem) (.badInteger text problem)
  | decimal (s : Decimal.Signal) : SameFailure M stop stop' (.badDecimal s) (.badDecimal s)

theorem SameFailure.message_eq {M : Token → Token → Prop} {stop stop' : Nat} {e e' : ParseError}
    (h : SameFailure M stop stop' e e') : e'.message = e.message := by
  cases h <;> rfl

/-- Whether two outcomes are corresponding results, or the same failure at corresponding places. -/
inductive Agree {α : Type} (M : Token → Token → Prop) (stop stop' : Nat) (R : α → α → Prop) :
    Except ParseError α → Except ParseError α → Prop where
  | ok {a b : α} : R a b → Agree M stop stop' R (.ok a) (.ok b)
  | error {e e' : ParseError} : SameFailure M stop stop' e e' →
      Agree M stop stop' R (.error e) (.error e')

/-- Whether the same was read, and what is left corresponds. -/
def SameRead {α : Type} (M : Token → Token → Prop) (a b : α × List Token) : Prop :=
  b.1 = a.1 ∧ List.Forall₂ M a.2 b.2

section

variable {α β : Type} {M : Token → Token → Prop} {stop stop' : Nat} {R : α → α → Prop}
  {S : β → β → Prop}

theorem Agree.bind {x y : Except ParseError α} {f g : α → Except ParseError β}
    (h : Agree M stop stop' R x y) (hf : ∀ a b, R a b → Agree M stop stop' S (f a) (g b)) :
    Agree M stop stop' S (x >>= f) (y >>= g) := by
  cases h with
  | ok hab => exact hf _ _ hab
  | error he => exact .error he

/-- After the same was read, the rest of a reader is the same function of what was read. -/
theorem Agree.bindRead {x y : Except ParseError (α × List Token)}
    {f g : α × List Token → Except ParseError β} (h : Agree M stop stop' (SameRead M) x y)
    (hf : ∀ a ts us, List.Forall₂ M ts us → Agree M stop stop' S (f (a, ts)) (g (a, us))) :
    Agree M stop stop' S (x >>= f) (y >>= g) := by
  refine h.bind ?_
  rintro ⟨a, ts⟩ ⟨b, us⟩ ⟨rfl, hts⟩
  exact hf _ _ _ hts

/-- What was read is returned. -/
theorem Agree.read (a : α) {ts us : List Token} (h : List.Forall₂ M ts us) :
    Agree M stop stop' (SameRead M) (.ok (a, ts)) (.ok (a, us)) :=
  .ok ⟨rfl, h⟩

end

section Readers

variable {M : Token → Token → Prop} (hM : ∀ t u, M t u → Token.Same t u) {stop stop' : Nat}

include hM

/-! ### Leaves -/

theorem agree_fail {α : Type} {R : α → α → Prop} (w : Wanted) {ts us : List Token}
    (h : List.Forall₂ M ts us) : Agree M stop stop' R (fail stop w ts) (fail stop' w us) := by
  cases h with
  | nil => exact .error (.atEnd w)
  | cons ht _ =>
    rw [fail, fail, (hM _ _ ht).text_eq]
    exact .error (.token w ht)

theorem at?_eq (w : String) {ts us : List Token} (h : List.Forall₂ M ts us) :
    at? w us = at? w ts := by
  cases h with
  | nil => rfl
  | cons ht _ => rw [at?, at?, (hM _ _ ht).text_eq]

theorem endsBlock_eq {ts us : List Token} (h : List.Forall₂ M ts us) :
    endsBlock us = endsBlock ts := by
  cases h with
  | nil => rfl
  | cons ht _ => rw [endsBlock, endsBlock, (hM _ _ ht).text_eq]

/-- The same operator or keyword is taken, or none. -/
theorem take?_cases (ws : List String) {ts us : List Token} (h : List.Forall₂ M ts us) :
    (take? ws ts = none ∧ take? ws us = none) ∨
      ∃ w ts' us', take? ws ts = some (w, ts') ∧ take? ws us = some (w, us') ∧
        List.Forall₂ M ts' us' := by
  cases h with
  | nil => exact .inl ⟨rfl, rfl⟩
  | @cons t u ts us ht hts =>
    rw [take?, take?, (hM _ _ ht).text_eq]
    by_cases hw : ws.contains t.text = true
    · rw [if_pos hw, if_pos hw]
      exact .inr ⟨_, _, _, rfl, rfl, hts⟩
    · rw [if_neg hw, if_neg hw]
      exact .inl ⟨rfl, rfl⟩

theorem agree_word (w : String) {ts us : List Token} (h : List.Forall₂ M ts us) :
    Agree M stop stop' (List.Forall₂ M) (word stop w ts) (word stop' w us) := by
  cases h with
  | nil => exact agree_fail hM _ .nil
  | cons ht hts =>
    rw [word, word, (hM _ _ ht).text_eq]
    split_ifs
    · exact .ok hts
    · exact agree_fail hM _ (.cons ht hts)

theorem agree_identifier (w : Wanted) {ts us : List Token} (h : List.Forall₂ M ts us) :
    Agree M stop stop' (SameRead M) (identifier stop w ts) (identifier stop' w us) := by
  cases h with
  | nil => exact agree_fail hM _ .nil
  | cons ht hts =>
    rw [identifier, identifier, (hM _ _ ht).kind_eq, (hM _ _ ht).text_eq]
    split_ifs
    · exact .read _ hts
    · exact agree_fail hM _ (.cons ht hts)

theorem agree_typeNote (w : Wanted) {ts us : List Token} (h : List.Forall₂ M ts us) :
    Agree M stop stop' (SameRead M) ( typeAnnotation stop w ts) ( typeAnnotation stop' w us) := by
  rw [ typeAnnotation, typeAnnotation]
  rcases take?_cases hM [":"] h with ⟨h₁, h₂⟩ | ⟨_, _, _, h₁, h₂, hts⟩
  · rw [h₁, h₂]
    exact .read _ h
  · rw [h₁, h₂]
    exact (agree_identifier hM w hts).bindRead fun n _ _ hts => .read _ hts

theorem agree_quoted {t u : Token} (h : M t u) (k : LiteralKind) :
    Agree M stop stop' Eq (quoted t k) (quoted u k) := by
  rw [quoted, quoted, Token.unquoted?, Token.unquoted?, (hM _ _ h).text_eq]
  split
  · exact .ok rfl
  · exact .error (.escape h)

/-- Tokens that correspond are literals alike. -/
theorem literal?_cases {t u : Token} (h : M t u) :
    (literal? t = none ∧ literal? u = none) ∨
      ∃ r r', literal? t = some r ∧ literal? u = some r' ∧ Agree M stop stop' Eq r r' := by
  unfold literal?
  rw [(hM _ _ h).text_eq, (hM _ _ h).kind_eq]
  split_ifs
  · exact .inr ⟨_, _, rfl, rfl, .ok rfl⟩
  · exact .inr ⟨_, _, rfl, rfl, .ok rfl⟩
  · exact .inr ⟨_, _, rfl, rfl, .ok rfl⟩
  cases t.kind with
  | integer =>
    refine .inr ⟨_, _, rfl, rfl, ?_⟩
    split
    · exact .ok rfl
    · exact .error (.integer _ _)
  | decimal =>
    refine .inr ⟨_, _, rfl, rfl, ?_⟩
    split
    · exact .ok rfl
    · exact .error (.decimal _)
  | character => exact .inr ⟨_, _, rfl, rfl, agree_quoted hM h _⟩
  | string => exact .inr ⟨_, _, rfl, rfl, agree_quoted hM h _⟩
  | identifier => exact .inl ⟨rfl, rfl⟩
  | operator => exact .inl ⟨rfl, rfl⟩

omit hM in
theorem Agree.mapRead {α : Type} {r r' : Except ParseError α} (h : Agree M stop stop' Eq r r')
    {ts us : List Token} (hts : List.Forall₂ M ts us) :
    Agree M stop stop' (SameRead M) (r.map (·, ts)) (r'.map (·, us)) := by
  cases h with
  | ok hab => exact .ok ⟨hab.symm, hts⟩
  | error he => exact .error he

omit hM in
theorem fuelFor_eq {ts us : List Token} (h : List.Forall₂ M ts us) : fuelFor us = fuelFor ts := by
  rw [fuelFor, fuelFor, h.length_eq]

/-! ### Expressions -/

mutual

theorem agree_tier : ∀ {fuel : Nat} {l : Tier} {ts us : List Token}, List.Forall₂ M ts us →
    Agree M stop stop' (SameRead M) (tier stop fuel l ts) (tier stop' fuel l us)
  | 0, _, _, _, _ => by
    rw [tier, tier]
    exact agree_fail hM _ .nil
  | _ + 1, _, _, _, h => by
    rw [tier, tier]
    exact (agree_operand h).bindRead fun e _ _ hts => agree_chain hts

theorem agree_operand : ∀ {fuel : Nat} {l : Tier} {ts us : List Token}, List.Forall₂ M ts us →
    Agree M stop stop' (SameRead M) (operand stop fuel l ts) (operand stop' fuel l us)
  | 0, _, _, _, _ => by
    rw [operand, operand]
    exact agree_fail hM _ .nil
  | _ + 1, _, _, _, h => by
    rw [operand, operand]
    split
    · exact agree_tier h
    · exact agree_primary h

theorem agree_chain : ∀ {fuel : Nat} {l : Tier} {e : Expr} {ts us : List Token},
    List.Forall₂ M ts us →
      Agree M stop stop' (SameRead M) (chain stop fuel l e ts) (chain stop' fuel l e us)
  | 0, _, _, _, _, _ => by
    rw [chain, chain]
    exact agree_fail hM _ .nil
  | _ + 1, l, _, _, _, h => by
    rw [chain, chain]
    rcases take?_cases hM l.operators h with ⟨h₁, h₂⟩ | ⟨_, _, _, h₁, h₂, hts⟩
    · rw [h₁, h₂]
      exact .read _ h
    · rw [h₁, h₂]
      exact (agree_operand hts).bindRead fun right _ _ hts => agree_chain hts

theorem agree_primary : ∀ {fuel : Nat} {ts us : List Token}, List.Forall₂ M ts us →
    Agree M stop stop' (SameRead M) (primary stop fuel ts) (primary stop' fuel us)
  | 0, _, _, _ => by
    rw [primary, primary]
    exact agree_fail hM _ .nil
  | _ + 1, [], [], .nil => by
    rw [primary, primary]
    · exact agree_fail hM _ .nil
    · exact Nat.succ_ne_zero _
    · exact Nat.succ_ne_zero _
  | _ + 1, t :: ts, u :: us, .cons ht hts => by
    rw [primary, primary]
    rcases literal?_cases hM ht with ⟨h₁, h₂⟩ | ⟨r, r', h₁, h₂, hr⟩
    · rw [h₁, h₂, (hM _ _ ht).text_eq, (hM _ _ ht).kind_eq]
      simp only
      split_ifs
      · refine (agree_tier hts).bindRead fun e _ _ hts => ?_
        exact (agree_word hM ")" hts).bind fun _ _ hts => .read _ hts
      · exact agree_reference hts
      · exact agree_fail hM _ (.cons ht hts)
    · rw [h₁, h₂]
      exact hr.mapRead hts

theorem agree_reference : ∀ {fuel : Nat} {x : Name} {ts us : List Token}, List.Forall₂ M ts us →
    Agree M stop stop' (SameRead M) (reference stop fuel x ts) (reference stop' fuel x us)
  | 0, _, _, _, _ => by
    rw [reference, reference]
    exact agree_fail hM _ .nil
  | _ + 1, _, _, _, h => by
    have hdrop := List.forall₂_drop 1 h
    rw [reference, reference]
    simp only [at?_eq hM _ h, at?_eq hM _ hdrop]
    split_ifs
    · exact .read _ (List.forall₂_drop 1 hdrop)
    · refine (agree_expressions hdrop).bindRead fun args _ _ hts => ?_
      exact (agree_word hM ")" hts).bind fun _ _ hts => .read _ hts
    · refine (agree_tier hdrop).bindRead fun o _ _ hts => ?_
      exact (agree_word hM "]" hts).bind fun _ _ hts => .read _ hts
    · exact .read _ h

theorem agree_expressions : ∀ {fuel : Nat} {ts us : List Token}, List.Forall₂ M ts us →
    Agree M stop stop' (SameRead M) (expressions stop fuel ts) (expressions stop' fuel us)
  | 0, _, _, _ => by
    rw [expressions, expressions]
    exact agree_fail hM _ .nil
  | _ + 1, _, _, h => by
    rw [expressions, expressions]
    refine (agree_tier h).bindRead fun e _ _ hts => ?_
    simp only [at?_eq hM _ hts]
    split_ifs
    · exact (agree_expressions (List.forall₂_drop 1 hts)).bindRead fun es _ _ hts => .read _ hts
    · exact .read _ hts

end

section Parts

variable {ts us : List Token} (h : List.Forall₂ M ts us)

include h

theorem agree_expression :
    Agree M stop stop' (SameRead M) (expression stop ts) (expression stop' us) := by
  rw [expression, expression, fuelFor_eq h]
  exact agree_tier hM h

theorem agree_listLiteral :
    Agree M stop stop' (SameRead M) (listLiteral stop ts) (listLiteral stop' us) := by
  refine (agree_word hM "[" h).bind fun _ _ hts => ?_
  rw [fuelFor_eq hts]
  refine (agree_expressions hM hts).bindRead fun vs _ _ hts => ?_
  exact (agree_word hM "]" hts).bind fun _ _ hts => .read _ hts

theorem agree_initializer :
    Agree M stop stop' (SameRead M) (initializer stop ts) (initializer stop' us) := by
  rw [initializer, initializer, at?_eq hM _ h]
  split_ifs
  · exact (agree_expression hM (List.forall₂_drop 1 h)).bindRead fun e _ _ hts => .read _ hts
  · exact .read _ h

theorem agree_localDeclaration :
    Agree M stop stop' (SameRead M) (localDeclaration stop ts) (localDeclaration stop' us) := by
  refine (agree_identifier hM _ h).bindRead fun n _ _ hts => ?_
  refine (agree_typeNote hM _ hts).bindRead fun t _ _ hts => ?_
  refine (agree_initializer hM hts).bindRead fun v _ _ hts => ?_
  exact (agree_word hM ";" hts).bind fun _ _ hts => .read _ hts

theorem agree_simpleStatement :
    Agree M stop stop' (SameRead M) (simpleStatement stop ts) (simpleStatement stop' us) := by
  refine (agree_expression hM h).bindRead fun e _ _ hts => ?_
  simp only [at?_eq hM _ hts]
  split_ifs
  · refine (agree_expression hM (List.forall₂_drop 1 hts)).bindRead fun v _ _ hts => ?_
    exact (agree_word hM ";" hts).bind fun _ _ hts => .read _ hts
  · exact (agree_word hM ";" hts).bind fun _ _ hts => .read _ hts

end Parts

/-! ### Statements -/

mutual

theorem agree_block : ∀ {fuel : Nat} {ts us : List Token}, List.Forall₂ M ts us →
    Agree M stop stop' (SameRead M) (block stop fuel ts) (block stop' fuel us)
  | 0, _, _, _ => by
    rw [block, block]
    exact agree_fail hM _ .nil
  | _ + 1, _, _, h => by
    rw [block, block, endsBlock_eq hM h]
    split_ifs
    · exact .read _ h
    · refine (agree_statement h).bindRead fun x _ _ hts => ?_
      exact (agree_block hts).bindRead fun xs _ _ hts => .read _ hts

theorem agree_statement : ∀ {fuel : Nat} {ts us : List Token}, List.Forall₂ M ts us →
    Agree M stop stop' (SameRead M) (statement stop fuel ts) (statement stop' fuel us)
  | 0, _, _, _ => by
    rw [statement, statement]
    exact agree_fail hM _ .nil
  | _ + 1, _, _, h => by
    have hdrop := List.forall₂_drop 1 h
    rw [statement, statement]
    simp only [at?_eq hM _ h]
    split_ifs
    · exact agree_localDeclaration hM hdrop
    · refine (agree_expression hM hdrop).bindRead fun c _ _ hts => ?_
      refine (agree_word hM "DO" hts).bind fun _ _ hts => ?_
      refine (agree_block hts).bindRead fun t _ _ hts => ?_
      simp only [at?_eq hM _ hts]
      split_ifs
      · refine (agree_block (List.forall₂_drop 1 hts)).bindRead fun e _ _ hts => ?_
        exact (agree_word hM "END" hts).bind fun _ _ hts => .read _ hts
      · exact (agree_word hM "END" hts).bind fun _ _ hts => .read _ hts
    · refine (agree_expression hM hdrop).bindRead fun c _ _ hts => ?_
      refine (agree_cases hts).bindRead fun cs _ _ hts => ?_
      exact (agree_word hM "END" hts).bind fun _ _ hts => .read _ hts
    · refine (agree_expression hM hdrop).bindRead fun c _ _ hts => ?_
      refine (agree_word hM "DO" hts).bind fun _ _ hts => ?_
      refine (agree_block hts).bindRead fun b _ _ hts => ?_
      exact (agree_word hM "END" hts).bind fun _ _ hts => .read _ hts
    · refine (agree_expression hM hdrop).bindRead fun v _ _ hts => ?_
      exact (agree_word hM ";" hts).bind fun _ _ hts => .read _ hts
    · exact agree_simpleStatement hM h

theorem agree_cases : ∀ {fuel : Nat} {ts us : List Token}, List.Forall₂ M ts us →
    Agree M stop stop' (SameRead M) (cases stop fuel ts) (cases stop' fuel us)
  | 0, _, _, _ => by
    rw [Parser.cases, Parser.cases]
    exact agree_fail hM _ .nil
  | _ + 1, _, _, h => by
    rw [Parser.cases, Parser.cases, at?_eq hM _ h]
    split_ifs
    · refine (agree_expression hM (List.forall₂_drop 1 h)).bindRead fun v _ _ hts => ?_
      refine (agree_word hM ":" hts).bind fun _ _ hts => ?_
      refine (agree_block hts).bindRead fun b _ _ hts => ?_
      exact (agree_cases hts).bindRead fun cs _ _ hts => .read _ hts
    · refine (agree_word hM "DEFAULT" h).bind fun _ _ hts => ?_
      exact (agree_block hts).bindRead fun b _ _ hts => .read _ hts

end

/-! ### Declarations -/

theorem agree_global (keyword : String) {ts us : List Token} (h : List.Forall₂ M ts us) :
    Agree M stop stop' (SameRead M) (global stop keyword ts) (global stop' keyword us) := by
  refine (agree_identifier hM _ h).bindRead fun n _ _ hts => ?_
  refine (agree_typeNote hM _ hts).bindRead fun t _ _ hts => ?_
  have hdrop := List.forall₂_drop 1 hts
  simp only [at?_eq hM _ hts, at?_eq hM _ hdrop]
  split_ifs
  · refine (agree_listLiteral hM hdrop).bindRead fun e _ _ hts => ?_
    exact (agree_word hM ";" hts).bind fun _ _ hts => .read _ hts
  · refine (agree_initializer hM hts).bindRead fun v _ _ hts => ?_
    exact (agree_word hM ";" hts).bind fun _ _ hts => .read _ hts

theorem agree_parameter {ts us : List Token} (h : List.Forall₂ M ts us) :
    Agree M stop stop' (SameRead M) (parameter stop ts) (parameter stop' us) := by
  refine (agree_identifier hM _ h).bindRead fun n _ _ hts => ?_
  exact (agree_typeNote hM _ hts).bindRead fun t _ _ hts => .read _ hts

theorem agree_parameters : ∀ {fuel : Nat} {ts us : List Token}, List.Forall₂ M ts us →
    Agree M stop stop' (SameRead M) (parameters stop fuel ts) (parameters stop' fuel us)
  | 0, _, _, _ => by
    rw [parameters, parameters]
    exact agree_fail hM _ .nil
  | _ + 1, _, _, h => by
    rw [parameters, parameters]
    refine (agree_parameter hM h).bindRead fun p _ _ hts => ?_
    simp only [at?_eq hM _ hts]
    split_ifs
    · exact (agree_parameters (List.forall₂_drop 1 hts)).bindRead fun ps _ _ hts => .read _ hts
    · exact .read _ hts

theorem agree_function {ts us : List Token} (h : List.Forall₂ M ts us) :
    Agree M stop stop' (SameRead M) (function stop ts) (function stop' us) := by
  refine (agree_identifier hM _ h).bindRead fun n _ _ hts => ?_
  refine (agree_word hM "(" hts).bind fun ts us hts => ?_
  have hrest {params : List Param} {ts us : List Token} (hts : List.Forall₂ M ts us) :
      Agree M stop stop' (SameRead M)
        (do
          let ts ← word stop ")" ts
          let r ← typeAnnotation stop .returnTypeName ts
          let ts ← word stop "DO" r.2
          let b ← block stop (fuelFor ts) ts
          let ts ← word stop "END" b.2
          return ((⟨n, params, r.1, b.1, none⟩ : FuncDecl), ts))
        (do
          let us ← word stop' ")" us
          let r ← typeAnnotation stop' .returnTypeName us
          let us ← word stop' "DO" r.2
          let b ← block stop' (fuelFor us) us
          let us ← word stop' "END" b.2
          return ((⟨n, params, r.1, b.1, none⟩ : FuncDecl), us)) := by
    refine (agree_word hM ")" hts).bind fun _ _ hts => ?_
    refine (agree_typeNote hM _ hts).bindRead fun r _ _ hts => ?_
    refine (agree_word hM "DO" hts).bind fun _ _ hts => ?_
    rw [fuelFor_eq hts]
    refine (agree_block hM hts).bindRead fun b _ _ hts => ?_
    exact (agree_word hM "END" hts).bind fun _ _ hts => .read _ hts
  simp only [at?_eq hM _ hts]
  split_ifs
  · exact hrest hts
  · rw [fuelFor_eq hts]
    exact (agree_parameters hM hts).bindRead fun ps _ _ hts => hrest hts

theorem agree_globals : ∀ {fuel : Nat} {ts us : List Token}, List.Forall₂ M ts us →
    Agree M stop stop' (SameRead M) (globals stop fuel ts) (globals stop' fuel us)
  | 0, _, _, h => .read _ h
  | _ + 1, _, _, h => by
    rw [globals, globals]
    rcases take?_cases hM ["LIST", "VAR", "VAL"] h with ⟨h₁, h₂⟩ | ⟨w, _, _, h₁, h₂, hts⟩
    · rw [h₁, h₂]
      exact .read _ h
    · rw [h₁, h₂]
      refine (agree_global hM w hts).bindRead fun g _ _ hts => ?_
      exact (agree_globals hts).bindRead fun gs _ _ hts => .read _ hts

theorem agree_functions : ∀ {fuel : Nat} {ts us : List Token}, List.Forall₂ M ts us →
    Agree M stop stop' (SameRead M) (functions stop fuel ts) (functions stop' fuel us)
  | 0, _, _, h => .read _ h
  | _ + 1, _, _, h => by
    rw [functions, functions, at?_eq hM _ h]
    split_ifs
    · refine (agree_function hM (List.forall₂_drop 1 h)).bindRead fun f _ _ hts => ?_
      exact (agree_functions hts).bindRead fun fs _ _ hts => .read _ hts
    · exact .read _ h

/-- **A program is read off corresponding tokens alike.** -/
theorem agree_program {ts us : List Token} (h : List.Forall₂ M ts us) :
    Agree M stop stop' (SameRead M) (program stop ts) (program stop' us) := by
  rw [program, program, fuelFor_eq h]
  refine (agree_globals hM h).bindRead fun gs ts us hts => ?_
  dsimp only
  rw [fuelFor_eq hts]
  refine (agree_functions hM hts).bindRead fun fs ts us hts => ?_
  cases hts with
  | nil => exact .read _ .nil
  | cons ht hts => exact agree_fail hM _ (.cons ht hts)

end Readers

end Scriptlet.Parser

namespace Scriptlet

/-- Whether two texts give the same program, or are refused for the same problem at places that
correspond. -/
inductive SameReading (M : Token → Token → Prop) (stop stop' : Nat) :
    Except Trouble Program → Except Trouble Program → Prop where
  | program (p : Program) : SameReading M stop stop' (.ok p) (.ok p)
  | refused {e e' : ParseError} : Parser.SameFailure M stop stop' e e' →
      SameReading M stop stop' (.error (.parse e)) (.error (.parse e'))

/-- Texts with the same tokens are read alike. -/
theorem sameReading_of_same {s s' : String} {ts us : List Token} (hs : tokenize s = .ok ts)
    (hs' : tokenize s' = .ok us) (hsame : List.Forall₂ Token.Same ts us) :
    SameReading (fun t u => (t, u) ∈ ts.zip us) (Parser.endOffset ts) (Parser.endOffset us)
      (readProgram s) (readProgram s') := by
  obtain ⟨hlength, hzip⟩ := List.forall₂_iff_zip.mp hsame
  have hagree : Parser.Agree (fun t u => (t, u) ∈ ts.zip us) (Parser.endOffset ts)
      (Parser.endOffset us) (Parser.SameRead _) (parseProgram ts) (parseProgram us) :=
    Parser.agree_program (fun _ _ h => hzip h) (List.forall₂_iff_zip.mpr ⟨hlength, fun h => h⟩)
  rw [readProgram, readProgram, hs, hs']
  simp only [Except.mapError, ok_bind]
  generalize parseProgram ts = r at hagree ⊢
  generalize parseProgram us = r' at hagree ⊢
  cases hagree with
  | error he => exact .refused he
  | @ok a b hab =>
    obtain ⟨p, rest⟩ := a
    obtain ⟨q, rest'⟩ := b
    obtain ⟨rfl, -⟩ := hab
    exact .program _

/-- **Layout does not matter.** Where the tokens of a text are written in the same order with blanks
between them, the same tokens are read, and the same program, or the text is refused for the same
problem and in the same words: at the token that corresponds, or at the end. A decimal is a reason
to refuse a text only if the text is longer than any decimal that is kept. -/
theorem layout_irrelevant {s s' : String} {ts : List Token} (hs : tokenize s = .ok ts)
    (hs' : Spaced s'.toList ts) :
    ∃ us, tokenize s' = .ok us ∧ List.Forall₂ Token.Same ts us ∧
      SameReading (fun t u => (t, u) ∈ ts.zip us) (Parser.endOffset ts) (Parser.endOffset us)
        (readProgram s) (readProgram s') ∧
      (∀ e e', readProgram s = .error (.parse e) → readProgram s' = .error (.parse e') →
        e'.message = e.message) ∧
      ∀ q, readProgram s = .error (.parse (.badDecimal q)) → Decimal.maxWritten < s.length := by
  obtain ⟨us, hus, hsame⟩ := tokenize_of_spaced hs hs'
  have hreading := sameReading_of_same hs hus hsame
  refine ⟨us, hus, hsame, hreading, fun e e' he he' => ?_, fun q => lt_length_of_badDecimal⟩
  rw [he, he'] at hreading
  cases hreading with
  | refused h => exact h.message_eq

/-- A keyword without a name is refused at the token that follows it, wherever that stands. -/
theorem layout_irrelevant_keyword :
    ∃ us, tokenize " VAR\n= " = .ok us ∧
      SameReading (fun t u => (t, u) ∈ [⟨.identifier, "VAR", 0⟩, ⟨.operator, "=", 4⟩].zip us) 5
        (Parser.endOffset us) (readProgram "VAR =") (readProgram " VAR\n= ") := by
  have hspace : AreBlank [' '] := List.forall_mem_singleton.mpr (Eq.refl (Text.isBlank ' '))
  have hlast : Spaced "= ".toList [⟨.operator, "=", 4⟩] :=
    Spaced.last (t := ⟨.operator, "=", 4⟩) (List.forall_mem_nil _) hspace
  have hspaced : Spaced " VAR\n= ".toList [⟨.identifier, "VAR", 0⟩, ⟨.operator, "=", 4⟩] :=
    Spaced.cons (t := ⟨.identifier, "VAR", 0⟩) (c := '\n') hspace (by rfl) hlast
  obtain ⟨us, hus, -, hreading, -⟩ := layout_irrelevant (s := "VAR =") (by rfl) hspaced
  exact ⟨us, hus, hreading⟩

end Scriptlet
