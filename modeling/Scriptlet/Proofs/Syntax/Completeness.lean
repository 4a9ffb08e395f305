import Scriptlet.Proofs.Syntax.Boundaries

/-! # What is derived is read

A reader that is given the yield of a plain derivation, and after it tokens that do not go on with
it, takes exactly that yield and gives back the tree of the derivation. The proofs go by recursion
on derivations; the fuel is bounded below by the number of tokens, with a margin for the tiers that
are entered before a token is taken. -/

namespace Scriptlet.Grammar

open Scriptlet.Parser (Tier tier operand chain primary reference expressions block statement
  endsBlock fuelFor take? at?)

variable {stop : Nat}

/-- The fuel that a tier needs before it takes a token: two calls for each tier on the way to a
primary. With sixteen for each token there is enough left for the tiers below every token. -/
def margin : Tier → Nat
  | .logical => 8
  | .comparison => 6
  | .additive => 4
  | .multiplicative => 2

theorem Tighter.margin_eq {l next : Tier} (h : Tighter l next) : margin next + 2 = margin l := by
  cases h <;> rfl

theorem two_le_margin (l : Tier) : 2 ≤ margin l := by
  cases l <;> decide

theorem margin_le (l : Tier) : margin l ≤ 8 := by
  cases l <;> decide

/-! ### Expressions -/

theorem primary_literal {l : Literal} (hp : l.IsPlain) (fuel : Nat) (rest : List Token) :
    primary stop (fuel + 1) (l.token :: rest) = .ok (.literal l.value l.kind none, rest) := by
  rw [primary, literal?_of_isPlain hp]
  rfl

theorem primary_group (o : Word "(") (fuel : Nat) (ts : List Token) :
    primary stop (fuel + 1) (o.token :: ts) = (do
      let (e, ts) ← tier stop fuel .logical ts
      let ts ← Parser.word stop ")" ts
      return (.group e none, ts)) := by
  have hkind := o.kind_notMem (by decide)
  have hconst : o.token.text ∉ constants := by
    rw [o.text_eq]
    decide
  rw [primary, literal?_eq_none hkind hconst]
  simp only [o.text_eq, if_true]

theorem primary_reference {x : Ident} (hp : x.IsPlain) (fuel : Nat) (ts : List Token) :
    primary stop (fuel + 1) (x.token :: ts) = reference stop fuel x.name ts := by
  have hkind : x.token.kind ∉ valueKinds := by
    rw [x.kind_eq]
    decide
  have hopen : x.token.text ≠ "(" := fun heq =>
    notMem_marks x.isLexical x.kind_eq (heq ▸ by decide)
  rw [primary, literal?_eq_none hkind hp.isName.2]
  simp only [if_neg hopen, if_pos x.kind_eq]
  rfl

mutual

theorem Tiered.read {l : Tier} : ∀ {d : Tiered l}, d.IsPlain → ∀ {fuel : Nat} {rest : List Token},
    16 * d.tokens.length + margin l ≤ fuel → Ends (reach l) d.tokens rest →
      tier stop fuel l (d.tokens ++ rest) = .ok (d.tree, rest)
  | .mk first more, hp, fuel, rest, hfuel, hends => by
    have hmargin := two_le_margin l
    rw [Tiered.tokens, List.length_append] at hfuel
    rw [Tiered.tokens] at hends
    obtain ⟨fuel, rfl⟩ : ∃ k, fuel = k + 1 := ⟨fuel - 1, by omega⟩
    -- the first operand ends where the chain starts, which the end of the whole tier implies
    rw [Tiered.tokens, List.append_assoc, tier,
      Operand.read hp.1 (by omega) (more.ends_first hends), ok_bind]
    exact Chain.read hp.2 (by omega) hends

theorem Operand.read {l : Tier} : ∀ {d : Operand l}, d.IsPlain → ∀ {fuel : Nat} {rest : List Token},
    16 * d.tokens.length + margin l ≤ fuel + 1 → Ends (inner l) d.tokens rest →
      operand stop fuel l (d.tokens ++ rest) = .ok (d.tree, rest)
  | .tiered h e, hp, fuel, rest, hfuel, hends => by
    have hmargin := h.margin_eq
    rw [h.inner_eq] at hends
    obtain ⟨fuel, rfl⟩ : ∃ k, fuel = k + 1 := ⟨fuel - 1, by omega⟩
    rw [Operand.tokens] at hfuel hends ⊢
    rw [operand, tighter?_eq_some_iff.mpr h]
    exact Tiered.read hp (by omega) hends
  | .primary e, hp, fuel, rest, hfuel, hends => by
    rw [Operand.tokens, margin] at hfuel
    obtain ⟨fuel, rfl⟩ : ∃ k, fuel = k + 1 := ⟨fuel - 1, by omega⟩
    rw [Operand.tokens] at hends ⊢
    rw [operand, Tier.tighter?]
    exact Primary.read hp (by omega) hends

theorem Chain.read {l : Tier} : ∀ {d : Chain l}, d.IsPlain →
    ∀ {fuel : Nat} {left : Expr} {before rest : List Token},
      16 * d.tokens.length + 1 ≤ fuel → Ends (reach l) (before ++ d.tokens) rest →
        chain stop fuel l left (d.tokens ++ rest) = .ok (d.tree left, rest)
  | .nil, _, fuel, left, before, rest, hfuel, hends => by
    obtain ⟨fuel, rfl⟩ : ∃ k, fuel = k + 1 := ⟨fuel - 1, by omega⟩
    have htake := take?_eq_none_iff.mpr (hends.operator.subset (List.subset_append_left ..))
    rw [Chain.tokens, List.nil_append, chain, operators_eq, htake, Chain.tree]
  | .cons op right more, hp, fuel, left, before, rest, hfuel, hends => by
    have hmargin := margin_le l
    -- from here on the right operand plays the part of what was read before
    have hends := Chain.ends_cons_iff.mp hends
    rw [Chain.tokens, List.length_cons, List.length_append] at hfuel
    obtain ⟨fuel, rfl⟩ : ∃ k, fuel = k + 1 := ⟨fuel - 1, by omega⟩
    rw [Chain.tokens, List.cons_append, List.append_assoc, chain, operators_eq, take?_terminal]
    dsimp only
    rw [Operand.read hp.1 (by omega) (more.ends_first hends), ok_bind]
    exact Chain.read hp.2 (by omega) hends

theorem Primary.read : ∀ {d : Primary}, d.IsPlain → ∀ {fuel : Nat} {rest : List Token},
    16 * d.tokens.length ≤ fuel → Ends [] d.tokens rest →
      primary stop fuel (d.tokens ++ rest) = .ok (d.tree, rest)
  | .literal l, hp, fuel, rest, hfuel, _ => by
    rw [Primary.tokens, List.length_singleton] at hfuel
    obtain ⟨fuel, rfl⟩ : ∃ k, fuel = k + 1 := ⟨fuel - 1, by omega⟩
    exact primary_literal hp fuel rest
  | .group o e c, hp, fuel, rest, hfuel, _ => by
    rw [Primary.tokens, List.length_cons, List.length_append] at hfuel
    obtain ⟨fuel, rfl⟩ : ∃ k, fuel = k + 1 := ⟨fuel - 1, by omega⟩
    have he : tier stop fuel .logical (e.tokens ++ c.token :: rest) =
        .ok (e.tree, c.token :: rest) :=
      Tiered.read hp (by simp only [margin]; omega) (.of_terminal c rest (by decide))
    simp only [Primary.tokens, List.cons_append, List.append_assoc, List.nil_append,
      primary_group, he, ok_bind, word_word]
    rfl
  | .reference x tail, hp, fuel, rest, hfuel, hends => by
    rw [Primary.tokens, List.length_cons] at hfuel
    obtain ⟨fuel, rfl⟩ : ∃ k, fuel = k + 1 := ⟨fuel - 1, by omega⟩
    rw [Primary.tokens, List.cons_append, primary_reference hp.1, Primary.tree]
    exact Tail.read ⟨hp.1.isName, hp.2⟩ (by omega) hends

theorem Tail.read : ∀ {x : Ident} {d : Tail}, IsName x.token ∧ d.IsPlain →
    ∀ {fuel : Nat} {rest : List Token},
    16 * d.tokens.length + 1 ≤ fuel → Ends [] (x.token :: d.tokens) rest →
      reference stop fuel x.name (d.tokens ++ rest) = .ok (d.tree x.name, rest)
  | x, .none, hp, fuel, rest, hfuel, hends => by
    obtain ⟨fuel, rfl⟩ : ∃ k, fuel = k + 1 := ⟨fuel - 1, by omega⟩
    have hbrackets := hends.bracket x.token rfl hp.1
    have hcall := at?_eq_false_iff.mpr (hbrackets.subset (by decide : ["("] ⊆ brackets))
    have hindex := at?_eq_false_iff.mpr (hbrackets.subset (by decide : ["["] ⊆ brackets))
    simp [Tail.tokens, reference, Tail.tree, hcall, hindex]
  | x, .emptyCall o c, _, fuel, rest, hfuel, _ => by
    obtain ⟨fuel, rfl⟩ : ∃ k, fuel = k + 1 := ⟨fuel - 1, by omega⟩
    simp [Tail.tokens, reference, Tail.tree]
  | x, .call o args c, hp, fuel, rest, hfuel, _ => by
    rw [Tail.tokens, List.length_cons, List.length_append] at hfuel
    obtain ⟨fuel, rfl⟩ : ∃ k, fuel = k + 1 := ⟨fuel - 1, by omega⟩
    have hargs : expressions stop fuel (args.tokens ++ c.token :: rest) =
        .ok (args.trees, c.token :: rest) :=
      Expressions.read hp.2 (by omega) (avoids_terminal c rest (by decide))
    have hnot : at? ")" (args.tokens ++ c.token :: rest) = false :=
      at?_eq_false_iff.mpr (Expressions.avoids hp.2 _ (by decide))
    simp [Tail.tokens, reference, Tail.tree, hnot, hargs, ok_bind, pure_eq_ok]
  | x, .index o place c, hp, fuel, rest, hfuel, _ => by
    rw [Tail.tokens, List.length_cons, List.length_append] at hfuel
    obtain ⟨fuel, rfl⟩ : ∃ k, fuel = k + 1 := ⟨fuel - 1, by omega⟩
    have hplace : tier stop fuel .logical (place.tokens ++ c.token :: rest) =
        .ok (place.tree, c.token :: rest) :=
      Tiered.read hp.2 (by simp only [margin]; omega) (.of_terminal c rest (by decide))
    simp [Tail.tokens, reference, Tail.tree, hplace, ok_bind, pure_eq_ok]

theorem Expressions.read : ∀ {d : Expressions}, d.IsPlain → ∀ {fuel : Nat} {rest : List Token},
    16 * d.tokens.length + 9 ≤ fuel → Avoids ("," :: (reach .logical ++ brackets)) rest →
      expressions stop fuel (d.tokens ++ rest) = .ok (d.trees, rest)
  | .one e, hp, fuel, rest, hfuel, hrest => by
    rw [Expressions.tokens] at hfuel
    obtain ⟨fuel, rfl⟩ : ∃ k, fuel = k + 1 := ⟨fuel - 1, by omega⟩
    have he : tier stop fuel .logical (e.tokens ++ rest) = .ok (e.tree, rest) :=
      Tiered.read hp (by simp only [margin]; omega)
        (.of_avoids (hrest.subset (List.subset_cons_self ..)))
    have hcomma := at?_eq_false_iff.mpr (hrest.subset (by decide : [","] ⊆ _))
    simp [Expressions.tokens, expressions, Expressions.trees, he, hcomma, ok_bind, pure_eq_ok]
  | .cons e comma es, hp, fuel, rest, hfuel, hrest => by
    rw [Expressions.tokens, List.length_append, List.length_cons] at hfuel
    obtain ⟨fuel, rfl⟩ : ∃ k, fuel = k + 1 := ⟨fuel - 1, by omega⟩
    have he : tier stop fuel .logical (e.tokens ++ comma.token :: (es.tokens ++ rest)) =
        .ok (e.tree, comma.token :: (es.tokens ++ rest)) :=
      Tiered.read hp.1 (by simp only [margin]; omega) (.of_terminal comma _ (by decide))
    have hes : expressions stop fuel (es.tokens ++ rest) = .ok (es.trees, rest) :=
      Expressions.read hp.2 (by omega) hrest
    simp [Expressions.tokens, expressions, Expressions.trees, he, hes, ok_bind, pure_eq_ok]

end

theorem Tiered.read_expression {d : Expression} (hp : d.IsPlain) {rest : List Token}
    (hends : Ends (reach .logical) d.tokens rest) :
    Parser.expression stop (d.tokens ++ rest) = .ok (d.tree, rest) := by
  refine Tiered.read hp ?_ hends
  simp only [fuelFor, List.length_append, margin]
  omega

/-- An expression before a word or a mark that it does not go on with. -/
theorem Tiered.read_before (stop : Nat) {d : Expression} (hp : d.IsPlain) {vs : List String}
    (k : Terminal vs) (rest : List Token) (h : ∀ w ∈ vs, w ∉ reach .logical ++ brackets) :
    Parser.expression stop (d.tokens ++ k.token :: rest) = .ok (d.tree, k.token :: rest) :=
  read_expression hp (.of_terminal k rest h)

/-! ### Optional parts -/

theorem TypeNote.read (stop : Nat) (w : Wanted) (d : TypeNote) {rest : List Token}
    (h : Avoids [":"] rest) :
    Parser.typeAnnotation stop w (d.tokens ++ rest) = .ok (d.tree, rest) := by
  cases d with
  | none =>
    have htake := take?_eq_none_iff.mpr h
    simp [Parser.typeAnnotation, TypeNote.tokens, TypeNote.tree, htake]
  | some colon type =>
    simp [Parser.typeAnnotation, TypeNote.tokens, TypeNote.tree, ok_bind, pure_eq_ok]

theorem Init.read (stop : Nat) {d : Init} (hp : d.IsPlain) (semi : Word ";")
    (rest : List Token) :
    Parser.initializer stop (d.tokens ++ semi.token :: rest) =
      .ok (d.tree, semi.token :: rest) := by
  cases d with
  | none => simp [Parser.initializer, Init.tokens, Init.tree]
  | some equals e =>
    have he := Tiered.read_before stop hp semi rest (by decide)
    simp [Parser.initializer, Init.tokens, Init.tree, he, ok_bind, pure_eq_ok]

/-! ### Statements -/

theorem read_simple {e : Expression} (he : e.IsPlain) {value : Init} (hvalue : value.IsPlain)
    (semi : Word ";") (rest : List Token) :
    Parser.simpleStatement stop (e.tokens ++ (value.tokens ++ semi.token :: rest)) =
      .ok ((Statement.simple e value semi).tree, rest) := by
  cases value with
  | none =>
    have hread := Tiered.read_before stop he semi rest (by decide)
    simp [Parser.simpleStatement, Init.tokens, Statement.tree, hread, ok_bind, pure_eq_ok]
  | some equals v =>
    have hread := Tiered.read_before stop he equals (v.tokens ++ semi.token :: rest)
      (by decide)
    have hv := Tiered.read_before stop hvalue semi rest (by decide)
    simp [Parser.simpleStatement, Init.tokens, Statement.tree, hread, hv, ok_bind, pure_eq_ok]

mutual

theorem Block.read : ∀ {d : Block}, d.IsPlain → ∀ {fuel : Nat} {rest : List Token},
    d.tokens.length + 1 ≤ fuel → endsBlock rest = true →
      block stop fuel (d.tokens ++ rest) = .ok (d.trees, rest)
  | .nil, _, fuel, rest, hfuel, hend => by
    obtain ⟨fuel, rfl⟩ : ∃ k, fuel = k + 1 := ⟨fuel - 1, by omega⟩
    simp [Block.tokens, block, hend, Block.trees]
  | .cons s b, hp, fuel, rest, hfuel, hend => by
    have hpos := List.length_pos_iff.mpr s.tokens_ne_nil
    rw [Block.tokens, List.length_append] at hfuel
    obtain ⟨fuel, rfl⟩ : ∃ k, fuel = k + 1 := ⟨fuel - 1, by omega⟩
    have hs : statement stop fuel (s.tokens ++ (b.tokens ++ rest)) =
        .ok (s.tree, b.tokens ++ rest) := Statement.read hp.1 (by omega)
    have hb : block stop fuel (b.tokens ++ rest) = .ok (b.trees, rest) :=
      Block.read hp.2 (by omega) hend
    have hnot := Statement.not_endsBlock hp.1 (b.tokens ++ rest)
    simp [Block.tokens, block, hnot, hs, hb, Block.trees, ok_bind, pure_eq_ok]

theorem Statement.read : ∀ {d : Statement}, d.IsPlain → ∀ {fuel : Nat} {rest : List Token},
    d.tokens.length ≤ fuel → statement stop fuel (d.tokens ++ rest) = .ok (d.tree, rest)
  | .declare k x type value semi, hp, fuel, rest, hfuel => by
    rw [Statement.tokens, List.length_cons] at hfuel
    obtain ⟨fuel, rfl⟩ : ∃ k, fuel = k + 1 := ⟨fuel - 1, by omega⟩
    have htype := TypeNote.read stop .typeName type (value.avoids semi rest)
    have hvalue := Init.read stop hp semi rest
    simp [Statement.tokens, statement, Parser.localDeclaration, htype, hvalue, Statement.tree,
      ok_bind, pure_eq_ok]
  | .branch k c o t .none cl, hp, fuel, rest, hfuel => by
    simp only [Statement.tokens, Else.tokens, List.nil_append, List.length_cons,
      List.length_append] at hfuel
    obtain ⟨fuel, rfl⟩ : ∃ k, fuel = k + 1 := ⟨fuel - 1, by omega⟩
    have hc := Tiered.read_before stop hp.1 o (t.tokens ++ cl.token :: rest) (by decide)
    have ht : block stop fuel (t.tokens ++ cl.token :: rest) = .ok (t.trees, cl.token :: rest) :=
      Block.read hp.2.1 (by omega) (endsBlock_word cl rest (by decide))
    simp [Statement.tokens, Else.tokens, statement, hc, ht, Statement.tree, Else.trees, ok_bind,
      pure_eq_ok]
  | .branch k c o t (.some l e) cl, hp, fuel, rest, hfuel => by
    simp only [Statement.tokens, Else.tokens, List.cons_append, List.length_cons,
      List.length_append] at hfuel
    obtain ⟨fuel, rfl⟩ : ∃ k, fuel = k + 1 := ⟨fuel - 1, by omega⟩
    have hc := Tiered.read_before stop hp.1 o
      (t.tokens ++ l.token :: (e.tokens ++ cl.token :: rest)) (by decide)
    have ht : block stop fuel (t.tokens ++ l.token :: (e.tokens ++ cl.token :: rest)) =
        .ok (t.trees, l.token :: (e.tokens ++ cl.token :: rest)) :=
      Block.read hp.2.1 (by omega) (endsBlock_word l _ (by decide))
    have he : block stop fuel (e.tokens ++ cl.token :: rest) = .ok (e.trees, cl.token :: rest) :=
      Block.read hp.2.2 (by omega) (endsBlock_word cl rest (by decide))
    simp [Statement.tokens, Else.tokens, statement, hc, ht, he, Statement.tree, Else.trees,
      ok_bind, pure_eq_ok]
  | .switch k c cs cl, hp, fuel, rest, hfuel => by
    simp only [Statement.tokens, List.length_cons, List.length_append] at hfuel
    obtain ⟨fuel, rfl⟩ : ∃ k, fuel = k + 1 := ⟨fuel - 1, by omega⟩
    have hc : Parser.expression stop (c.tokens ++ (cs.tokens ++ cl.token :: rest)) =
        .ok (c.tree, cs.tokens ++ cl.token :: rest) :=
      Tiered.read_expression hp.1 (.of_avoids (cs.avoids _))
    have hcs : Parser.cases stop fuel (cs.tokens ++ cl.token :: rest) =
        .ok (cs.trees, cl.token :: rest) :=
      Cases.read hp.2 (by omega) (endsBlock_word cl rest (by decide))
    simp [Statement.tokens, statement, hc, hcs, Statement.tree, ok_bind, pure_eq_ok]
  | .loop k c o b cl, hp, fuel, rest, hfuel => by
    simp only [Statement.tokens, List.length_cons, List.length_append] at hfuel
    obtain ⟨fuel, rfl⟩ : ∃ k, fuel = k + 1 := ⟨fuel - 1, by omega⟩
    have hc := Tiered.read_before stop hp.1 o (b.tokens ++ cl.token :: rest) (by decide)
    have hb : block stop fuel (b.tokens ++ cl.token :: rest) = .ok (b.trees, cl.token :: rest) :=
      Block.read hp.2 (by omega) (endsBlock_word cl rest (by decide))
    simp [Statement.tokens, statement, hc, hb, Statement.tree, ok_bind, pure_eq_ok]
  | .ret k e semi, hp, fuel, rest, hfuel => by
    rw [Statement.tokens, List.length_cons] at hfuel
    obtain ⟨fuel, rfl⟩ : ∃ k, fuel = k + 1 := ⟨fuel - 1, by omega⟩
    have he := Tiered.read_before stop hp semi rest (by decide)
    simp [Statement.tokens, statement, he, Statement.tree, ok_bind, pure_eq_ok]
  | .simple e value semi, hp, fuel, rest, hfuel => by
    have hpos := List.length_pos_iff.mpr e.tokens_ne_nil
    rw [Statement.tokens, List.length_append] at hfuel
    obtain ⟨fuel, rfl⟩ : ∃ k, fuel = k + 1 := ⟨fuel - 1, by omega⟩
    have hnot (w : String) (hw : w ∈ statementWords) :
        at? w (e.tokens ++ (value.tokens ++ semi.token :: rest)) = false := by
      have havoids : Avoids statementWords (e.tokens ++ (value.tokens ++ semi.token :: rest)) :=
        Tiered.avoids hp.1 _ (by decide)
      exact at?_eq_false_iff.mpr (havoids.subset (by simpa using hw))
    simp only [Statement.tokens, List.append_assoc, List.cons_append, List.nil_append, statement,
      hnot "LET" (by decide), hnot "IF" (by decide), hnot "SWITCH" (by decide),
      hnot "WHILE" (by decide), hnot "RETURN" (by decide), Bool.false_eq_true, if_false]
    exact read_simple hp.1 hp.2 semi rest

theorem Cases.read : ∀ {d : Cases}, d.IsPlain → ∀ {fuel : Nat} {rest : List Token},
    d.tokens.length + 1 ≤ fuel → endsBlock rest = true →
      Parser.cases stop fuel (d.tokens ++ rest) = .ok (d.trees, rest)
  | .default k b, hp, fuel, rest, hfuel, hend => by
    rw [Cases.tokens, List.length_cons] at hfuel
    obtain ⟨fuel, rfl⟩ : ∃ k, fuel = k + 1 := ⟨fuel - 1, by omega⟩
    have hb : block stop fuel (b.tokens ++ rest) = .ok (b.trees, rest) :=
      Block.read hp (by omega) hend
    simp [Cases.tokens, Parser.cases, hb, Cases.trees, ok_bind, pure_eq_ok]
  | .cons k e colon b more, hp, fuel, rest, hfuel, hend => by
    simp only [Cases.tokens, List.length_cons, List.length_append] at hfuel
    obtain ⟨fuel, rfl⟩ : ∃ k, fuel = k + 1 := ⟨fuel - 1, by omega⟩
    have he := Tiered.read_before stop hp.1 colon (b.tokens ++ (more.tokens ++ rest)) (by decide)
    have hb : block stop fuel (b.tokens ++ (more.tokens ++ rest)) =
        .ok (b.trees, more.tokens ++ rest) :=
      Block.read hp.2.1 (by omega) (more.endsBlock rest)
    have hmore : Parser.cases stop fuel (more.tokens ++ rest) = .ok (more.trees, rest) :=
      Cases.read hp.2.2 (by omega) hend
    simp [Cases.tokens, Parser.cases, he, hb, hmore, Cases.trees, ok_bind, pure_eq_ok]

end

/-! ### Declarations -/

theorem Expressions.read_bracketed (stop : Nat) {es : Expressions} (hp : es.IsPlain)
    (o : Word "[") (c : Word "]") (rest : List Token) :
    Parser.listLiteral stop (o.token :: (es.tokens ++ c.token :: rest)) =
      .ok (.list es.trees none, rest) := by
  have hes : expressions stop (fuelFor (es.tokens ++ c.token :: rest))
      (es.tokens ++ c.token :: rest) = .ok (es.trees, c.token :: rest) := by
    refine Expressions.read hp ?_ (avoids_terminal c rest (by decide))
    simp only [fuelFor, List.length_append, List.length_cons]
    omega
  simp [Parser.listLiteral, hes, ok_bind, pure_eq_ok]

theorem GlobalItem.read {d : GlobalItem} (hp : d.IsPlain) (rest : List Token) :
    Parser.global stop d.keyword.token.text (d.tokens.tail ++ rest) = .ok (d.tree, rest) := by
  obtain ⟨k, x, type, value, semi⟩ := d
  have htype := TypeNote.read stop .typeName type (value.avoids semi rest)
  cases value with
  | none =>
    have hinit : Parser.initializer stop (semi.token :: rest) = .ok (none, semi.token :: rest) := by
      simp [Parser.initializer]
    simp only [GlobalInit.tokens, List.nil_append] at htype
    simp [GlobalItem.tokens, GlobalInit.tokens, Parser.global, htype, hinit, GlobalItem.tree,
      GlobalInit.tree, GlobalInit.isList, ok_bind, pure_eq_ok]
  | expr equals e =>
    have he := Tiered.read_before stop hp semi rest (by decide)
    have hinit : Parser.initializer stop (equals.token :: (e.tokens ++ semi.token :: rest)) =
        .ok (some e.tree, semi.token :: rest) := by
      simp [Parser.initializer, he, ok_bind, pure_eq_ok]
    have hnot : at? "[" (e.tokens ++ semi.token :: rest) = false :=
      at?_eq_false_iff.mpr (Tiered.avoids hp _ (by decide))
    simp only [GlobalInit.tokens, List.cons_append] at htype
    simp [GlobalItem.tokens, GlobalInit.tokens, Parser.global, htype, hinit, hnot, GlobalItem.tree,
      GlobalInit.tree, GlobalInit.isList, ok_bind, pure_eq_ok]
  | list equals o es c =>
    have hes := Expressions.read_bracketed stop hp o c (semi.token :: rest)
    simp only [GlobalInit.tokens, List.cons_append, List.append_assoc, List.nil_append] at htype
    simp [GlobalItem.tokens, GlobalInit.tokens, Parser.global, htype, hes, GlobalItem.tree,
      GlobalInit.tree, GlobalInit.isList, ok_bind, pure_eq_ok]

theorem Parameter.read (stop : Nat) (d : Parameter) {rest : List Token} (h : Avoids [":"] rest) :
    Parser.parameter stop (d.tokens ++ rest) = .ok (d.tree, rest) := by
  have htype := TypeNote.read stop .typeName d.type h
  simp [Parser.parameter, Parameter.tokens, Parameter.tree, htype, ok_bind, pure_eq_ok]

theorem Parameters.read : ∀ {d : Parameters} {fuel : Nat} {rest : List Token},
    d.tokens.length ≤ fuel → Avoids [":", ","] rest →
      Parser.parameters stop fuel (d.tokens ++ rest) = .ok (d.trees, rest)
  | .one p, fuel, rest, hfuel, hrest => by
    rw [Parameters.tokens, Parameter.tokens, List.length_cons] at hfuel
    obtain ⟨fuel, rfl⟩ : ∃ k, fuel = k + 1 := ⟨fuel - 1, by omega⟩
    have hp := Parameter.read stop p (hrest.subset (by decide))
    have hcomma := at?_eq_false_iff.mpr (hrest.subset (by decide : [","] ⊆ _))
    simp [Parameters.tokens, Parser.parameters, hp, hcomma, Parameters.trees, ok_bind, pure_eq_ok]
  | .cons p comma ps, fuel, rest, hfuel, hrest => by
    rw [Parameters.tokens, List.length_append, List.length_cons] at hfuel
    obtain ⟨fuel, rfl⟩ : ∃ k, fuel = k + 1 := ⟨fuel - 1, by omega⟩
    have hp := Parameter.read stop p (avoids_terminal comma (ps.tokens ++ rest) (by decide))
    have hps : Parser.parameters stop fuel (ps.tokens ++ rest) = .ok (ps.trees, rest) :=
      Parameters.read (by omega) hrest
    simp [Parameters.tokens, Parser.parameters, hp, hps, Parameters.trees, ok_bind, pure_eq_ok]

/-- Parameters before a closing bracket. -/
theorem Parameters.read_before (stop : Nat) (d : Parameters) (c : Word ")") (rest : List Token) :
    Parser.parameters stop (fuelFor (d.tokens ++ c.token :: rest)) (d.tokens ++ c.token :: rest) =
      .ok (d.trees, c.token :: rest) := by
  refine Parameters.read ?_ (avoids_terminal c rest (by decide))
  simp only [fuelFor, List.length_append]
  omega

theorem FunctionItem.read {d : FunctionItem} (hp : d.IsPlain) (rest : List Token) :
    Parser.function stop (d.tokens.tail ++ rest) = .ok (d.tree, rest) := by
  obtain ⟨k, x, o, params, c, type, start, body, close⟩ := d
  have hbody : block stop (fuelFor (body.tokens ++ close.token :: rest))
      (body.tokens ++ close.token :: rest) = .ok (body.trees, close.token :: rest) := by
    refine Block.read hp ?_ (endsBlock_word close rest (by decide))
    simp only [fuelFor, List.length_append]
    omega
  have htype := TypeNote.read stop .returnTypeName type
    (avoids_terminal start (body.tokens ++ close.token :: rest) (by decide))
  cases params with
  | none =>
    simp [FunctionItem.tokens, FunctionItem.paramTokens, Parser.function, htype, hbody,
      FunctionItem.tree, ok_bind, pure_eq_ok]
  | some ps =>
    have hnot (ts : List Token) : at? ")" (ps.tokens ++ ts) = false :=
      at?_eq_false_iff.mpr (ps.avoids ts)
    have hps := Parameters.read_before stop ps c
    simp [FunctionItem.tokens, FunctionItem.paramTokens, Parser.function, hnot, hps, htype, hbody,
      FunctionItem.tree, ok_bind, pure_eq_ok]

theorem read_globals : ∀ {ds : List GlobalItem}, (∀ d ∈ ds, d.IsPlain) →
    ∀ {fuel : Nat} {rest : List Token}, ds.length ≤ fuel → Avoids ["LIST", "VAR", "VAL"] rest →
      Parser.globals stop fuel (ds.flatMap GlobalItem.tokens ++ rest) =
        .ok (ds.map (.decl ·.tree), rest)
  | [], _, 0, _, _, _ => rfl
  | [], _, _ + 1, rest, _, hrest => by
    have htake := take?_eq_none_iff.mpr hrest
    simp [Parser.globals, htake]
  | d :: ds, hp, fuel + 1, rest, hfuel, hrest => by
    have hp := List.forall_mem_cons.mp hp
    have hds : Parser.globals stop fuel (ds.flatMap GlobalItem.tokens ++ rest) =
        .ok (ds.map (.decl ·.tree), rest) :=
      read_globals hp.2 (Nat.le_of_succ_le_succ hfuel) hrest
    have hd : d.tokens = d.keyword.token :: d.tokens.tail := rfl
    rw [List.flatMap_cons, List.append_assoc, hd, List.cons_append, Parser.globals, take?_terminal]
    simp only [GlobalItem.read hp.1, hds, ok_bind, pure_eq_ok, List.map_cons]

theorem read_functions : ∀ {ds : List FunctionItem}, (∀ d ∈ ds, d.IsPlain) → ∀ {fuel : Nat},
    ds.length ≤ fuel →
      Parser.functions stop fuel (ds.flatMap FunctionItem.tokens) = .ok (ds.map (.decl ·.tree), [])
  | [], _, 0, _ => rfl
  | [], _, _ + 1, _ => rfl
  | d :: ds, hp, fuel + 1, hfuel => by
    have hp := List.forall_mem_cons.mp hp
    have hds : Parser.functions stop fuel (ds.flatMap FunctionItem.tokens) =
        .ok (ds.map (.decl ·.tree), []) := read_functions hp.2 (Nat.le_of_succ_le_succ hfuel)
    have hd : d.tokens = d.keyword.token :: d.tokens.tail := rfl
    rw [List.flatMap_cons, hd, List.cons_append, Parser.functions, at?_word]
    simp only [decide_true, if_true, List.drop_one, List.tail_cons, FunctionItem.read hp.1, hds,
      ok_bind, pure_eq_ok, List.map_cons]

/-- Each declaration has a token at least. -/
theorem length_le_length_flatMap {α : Type} {f : α → List Token} (hf : ∀ a, f a ≠ [])
    (as : List α) :
    as.length ≤ (as.flatMap f).length := by
  induction as with
  | nil => exact Nat.le_refl 0
  | cons a as ih =>
    have hpos := List.length_pos_iff.mpr (hf a)
    simp only [List.length_cons, List.flatMap_cons, List.length_append]
    omega

theorem Source.read {d : Source} (hp : d.IsPlain) :
    Parser.program stop d.tokens = .ok (d.tree, []) := by
  have hgs := length_le_length_flatMap (f := GlobalItem.tokens) (fun _ => List.cons_ne_nil _ _)
    d.globals
  have hfs := length_le_length_flatMap (f := FunctionItem.tokens) (fun _ => List.cons_ne_nil _ _)
    d.functions
  have hglobals : Parser.globals stop (fuelFor d.tokens) d.tokens =
      .ok (d.globals.map (.decl ·.tree), d.functions.flatMap FunctionItem.tokens) := by
    refine read_globals hp.globals ?_ (functions_avoid d.functions)
    simp only [fuelFor, Source.tokens, List.length_append]
    omega
  have hfunctions : Parser.functions stop (fuelFor (d.functions.flatMap FunctionItem.tokens))
      (d.functions.flatMap FunctionItem.tokens) = .ok (d.functions.map (.decl ·.tree), []) := by
    refine read_functions hp.functions ?_
    unfold fuelFor
    omega
  simp only [Parser.program, hglobals, hfunctions, ok_bind, pure_eq_ok, Source.tree]

end Scriptlet.Grammar
