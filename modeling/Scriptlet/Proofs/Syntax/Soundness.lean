import Scriptlet.Proofs.Syntax.Boundaries

/-! # What is read is derived

Whatever a reader takes off the front of tokens is the yield of a derivation, and the tree it gives
back is the tree of that derivation; what it leaves does not go on with what it took. Each lemma
follows the text of one reader; the recursive ones are proved together by recursion on the fuel. -/

namespace Scriptlet.Grammar

open Scriptlet.Parser (Tier tier operand chain primary reference expressions block statement
  endsBlock fail_ne_ok)

variable {stop : Nat}

/-! ### Expressions -/

mutual

theorem exists_tiered : ∀ {fuel : Nat} {l : Tier} {ts rest : List Token} {e : Expr}, Lexed ts →
    tier stop fuel l ts = .ok (e, rest) →
      ∃ d : Tiered l, ts = d.tokens ++ rest ∧ d.tree = e ∧ Ends (reach l) d.tokens rest
  | 0, _, _, _, _, _, h => by
    rw [tier] at h
    exact (fail_ne_ok h).elim
  | _ + 1, l, ts, rest, e, hts, h => by
    rw [tier] at h
    obtain ⟨⟨a, us⟩, ha, h⟩ := ok_of_bind h
    obtain ⟨first, rfl, rfl, hfirst⟩ := exists_operand hts ha
    obtain ⟨more, rfl, rfl, hmore⟩ := exists_chain hts.right hfirst h
    exact ⟨.mk first more, by rw [Tiered.tokens, List.append_assoc], rfl, hmore⟩

theorem exists_operand : ∀ {fuel : Nat} {l : Tier} {ts rest : List Token} {e : Expr}, Lexed ts →
    operand stop fuel l ts = .ok (e, rest) →
      ∃ d : Operand l, ts = d.tokens ++ rest ∧ d.tree = e ∧ Ends (inner l) d.tokens rest
  | 0, _, _, _, _, _, h => by
    rw [operand] at h
    exact (fail_ne_ok h).elim
  | _ + 1, l, ts, rest, e, hts, h => by
    rw [operand] at h
    split at h
    · next hnext =>
      have hnext := tighter?_eq_some_iff.mp hnext
      obtain ⟨d, rfl, rfl, hends⟩ := exists_tiered hts h
      rw [hnext.inner_eq]
      exact ⟨.tiered hnext d, rfl, rfl, hends⟩
    · next hnone =>
      obtain ⟨d, rfl, rfl, hends⟩ := exists_primary hts h
      cases l <;> cases hnone
      exact ⟨.primary d, rfl, rfl, hends⟩

theorem exists_chain : ∀ {fuel : Nat} {l : Tier} {left e : Expr} {before ts rest : List Token},
    Lexed ts → Ends (inner l) before ts → chain stop fuel l left ts = .ok (e, rest) →
      ∃ d : Chain l, ts = d.tokens ++ rest ∧ d.tree left = e ∧
        Ends (reach l) (before ++ d.tokens) rest
  | 0, _, _, _, _, _, _, _, _, h => by
    rw [chain] at h
    exact (fail_ne_ok h).elim
  | _ + 1, l, left, e, before, ts, rest, hts, hbefore, h => by
    rw [chain, operators_eq] at h
    split at h
    · next op us htake =>
      obtain ⟨op, rfl, rfl⟩ := exists_terminal hts htake
      obtain ⟨⟨a, us⟩, ha, h⟩ := ok_of_bind h
      obtain ⟨right, rfl, rfl, hright⟩ := exists_operand hts.tail ha
      obtain ⟨more, rfl, rfl, hmore⟩ := exists_chain hts.tail.right hright h
      refine ⟨.cons op right more, ?_, rfl, Chain.ends_cons_iff.mpr hmore⟩
      rw [Chain.tokens, List.cons_append, List.append_assoc]
    · next htake =>
      cases h
      refine ⟨.nil, rfl, rfl, ?_⟩
      -- no operator of the tier comes next, and none of its operands goes on
      rw [Chain.tokens, List.append_nil]
      exact ⟨(take?_eq_none_iff.mp htake).append hbefore.operator, hbefore.bracket⟩

theorem exists_primary : ∀ {fuel : Nat} {ts rest : List Token} {e : Expr}, Lexed ts →
    primary stop fuel ts = .ok (e, rest) →
      ∃ d : Primary, ts = d.tokens ++ rest ∧ d.tree = e ∧ Ends [] d.tokens rest
  | 0, _, _, _, _, h => by
    rw [primary] at h
    exact (fail_ne_ok h).elim
  | _ + 1, [], _, _, _, h => by
    rw [primary] at h
    · exact (fail_ne_ok h).elim
    · exact Nat.succ_ne_zero _
  | _ + 1, t :: ts, rest, e, hts, h => by
    have ht : IsLexical t := hts t List.mem_cons_self
    rw [primary] at h
    split at h
    · next r hr =>
      cases r with
      | error p => cases h
      | ok a =>
        cases h
        obtain ⟨v, k, rfl, hdenotes⟩ := denotes_of_literal? ht hr
        refine ⟨.literal ⟨t, ht, v, k, hdenotes⟩, rfl, rfl, avoids_none, ?_⟩
        intro u hu hname
        cases hu
        exact absurd hname hdenotes.not_isName
    split at h
    · next htext =>
      obtain ⟨⟨a, us⟩, ha, h⟩ := ok_of_bind h
      obtain ⟨vs, hvs, h⟩ := ok_of_bind h
      cases h
      obtain ⟨d, rfl, rfl, -⟩ := exists_tiered hts.tail ha
      obtain ⟨c, rfl⟩ := exists_word hts.tail.right hvs
      refine ⟨.group ⟨t, ht, List.mem_singleton.mpr htext⟩ d c, by simp [Primary.tokens], rfl, ?_⟩
      exact Ends.of_closing (t :: d.tokens) c (by decide) avoids_none
    split at h
    · next hkind =>
      obtain ⟨tail, rfl, rfl, hends⟩ := exists_tail hts.tail h
      exact ⟨.reference ⟨t, ht, hkind⟩ tail, rfl, rfl, hends t⟩
    · exact (fail_ne_ok h).elim

theorem exists_tail : ∀ {fuel : Nat} {x : Name} {ts rest : List Token} {e : Expr}, Lexed ts →
    reference stop fuel x ts = .ok (e, rest) →
      ∃ d : Tail, ts = d.tokens ++ rest ∧ d.tree x = e ∧ ∀ t, Ends [] (t :: d.tokens) rest
  | 0, _, _, _, _, _, h => by
    rw [reference] at h
    exact (fail_ne_ok h).elim
  | _ + 1, x, ts, rest, e, hts, h => by
    rw [reference] at h
    split at h
    · next hopen =>
      obtain ⟨o, us, rfl⟩ := exists_word_of_at? hts hopen
      simp only [List.drop_one, List.tail_cons] at h
      split at h
      · next hclose =>
        obtain ⟨c, vs, rfl⟩ := exists_word_of_at? hts.tail hclose
        cases h
        refine ⟨.emptyCall o c, rfl, rfl, fun t => ?_⟩
        exact Ends.of_closing [t, o.token] c (by decide) avoids_none
      · obtain ⟨⟨as, vs⟩, has, h⟩ := ok_of_bind h
        obtain ⟨vs, hvs, h⟩ := ok_of_bind h
        cases h
        obtain ⟨args, rfl, rfl⟩ := exists_expressions hts.tail has
        obtain ⟨c, rfl⟩ := exists_word hts.tail.right hvs
        refine ⟨.call o args c, by simp [Tail.tokens], rfl, fun t => ?_⟩
        exact Ends.of_closing (t :: o.token :: args.tokens) c (by decide) avoids_none
    split at h
    · next hcall hopen =>
      obtain ⟨o, us, rfl⟩ := exists_word_of_at? hts hopen
      obtain ⟨⟨a, vs⟩, ha, h⟩ := ok_of_bind h
      obtain ⟨vs, hvs, h⟩ := ok_of_bind h
      cases h
      obtain ⟨place, rfl, rfl, -⟩ := exists_tiered hts.tail ha
      obtain ⟨c, rfl⟩ := exists_word hts.tail.right hvs
      refine ⟨.index o place c, by simp [Tail.tokens], rfl, fun t => ?_⟩
      exact Ends.of_closing (t :: o.token :: place.tokens) c (by decide) avoids_none
    · next hcall hindex =>
      -- a bare name is the one primary after which brackets matter
      cases h
      refine ⟨.none, rfl, rfl, fun t => ⟨avoids_none, fun _ _ _ => ?_⟩⟩
      rw [Bool.not_eq_true, at?_eq_false_iff] at hcall hindex
      exact hcall.append hindex

theorem exists_expressions : ∀ {fuel : Nat} {ts rest : List Token} {es : List Expr}, Lexed ts →
    expressions stop fuel ts = .ok (es, rest) →
      ∃ d : Expressions, ts = d.tokens ++ rest ∧ d.trees = es
  | 0, _, _, _, _, h => by
    rw [expressions] at h
    exact (fail_ne_ok h).elim
  | _ + 1, ts, rest, es, hts, h => by
    rw [expressions] at h
    obtain ⟨⟨a, us⟩, ha, h⟩ := ok_of_bind h
    obtain ⟨e, rfl, rfl, -⟩ := exists_tiered hts ha
    simp only at h
    split at h
    · next hcomma =>
      obtain ⟨comma, vs, rfl⟩ := exists_word_of_at? hts.right hcomma
      obtain ⟨⟨as, vs⟩, has, h⟩ := ok_of_bind h
      cases h
      obtain ⟨es, rfl, rfl⟩ := exists_expressions hts.right.tail has
      exact ⟨.cons e comma es, by simp [Expressions.tokens], rfl⟩
    · cases h
      exact ⟨.one e, rfl, rfl⟩

end

theorem exists_expression {ts rest : List Token} {e : Expr} (hts : Lexed ts)
    (h : Parser.expression stop ts = .ok (e, rest)) :
    ∃ d : Expression, ts = d.tokens ++ rest ∧ d.tree = e ∧ Ends (reach .logical) d.tokens rest :=
  exists_tiered hts h

/-! ### Optional parts -/

theorem exists_typeNote {w : Wanted} {ts rest : List Token} {n : Option Name} (hts : Lexed ts)
    (h : Parser.typeAnnotation stop w ts = .ok (n, rest)) :
    ∃ d : TypeNote, ts = d.tokens ++ rest ∧ d.tree = n := by
  unfold Parser.typeAnnotation at h
  split at h
  · next htake =>
    obtain ⟨colon, rfl, -⟩ := exists_terminal hts htake
    obtain ⟨⟨m, us⟩, hm, h⟩ := ok_of_bind h
    cases h
    obtain ⟨x, rfl, rfl⟩ := exists_ident hts.tail hm
    exact ⟨.some colon x, rfl, rfl⟩
  · cases h
    exact ⟨.none, rfl, rfl⟩

theorem exists_init {ts rest : List Token} {v : Option Expr} (hts : Lexed ts)
    (h : Parser.initializer stop ts = .ok (v, rest)) :
    ∃ d : Init, ts = d.tokens ++ rest ∧ d.tree = v := by
  unfold Parser.initializer at h
  split at h
  · next hequals =>
    obtain ⟨equals, us, rfl⟩ := exists_word_of_at? hts hequals
    obtain ⟨⟨e, us⟩, he, h⟩ := ok_of_bind h
    cases h
    obtain ⟨d, rfl, rfl, -⟩ := exists_expression hts.tail he
    exact ⟨.some equals d, rfl, rfl⟩
  · cases h
    exact ⟨.none, rfl, rfl⟩

/-! ### Statements -/

theorem exists_declare {k : Word "LET"} {ts rest : List Token} {s : Stmt} (hts : Lexed ts)
    (h : Parser.localDeclaration stop ts = .ok (s, rest)) :
    ∃ d : Statement, k.token :: ts = d.tokens ++ rest ∧ d.tree = s := by
  unfold Parser.localDeclaration at h
  obtain ⟨⟨n, us⟩, hn, h⟩ := ok_of_bind h
  obtain ⟨⟨m, vs⟩, hm, h⟩ := ok_of_bind h
  obtain ⟨⟨v, xs⟩, hv, h⟩ := ok_of_bind h
  obtain ⟨ys, hys, h⟩ := ok_of_bind h
  cases h
  obtain ⟨x, rfl, rfl⟩ := exists_ident hts hn
  obtain ⟨type, rfl, rfl⟩ := exists_typeNote hts.tail hm
  obtain ⟨value, rfl, rfl⟩ := exists_init hts.tail.right hv
  obtain ⟨semi, rfl⟩ := exists_word hts.tail.right.right hys
  exact ⟨.declare k x type value semi, by simp [Statement.tokens], rfl⟩

theorem exists_simple {ts rest : List Token} {s : Stmt} (hts : Lexed ts)
    (h : Parser.simpleStatement stop ts = .ok (s, rest)) :
    ∃ d : Statement, ts = d.tokens ++ rest ∧ d.tree = s := by
  unfold Parser.simpleStatement at h
  obtain ⟨⟨a, us⟩, ha, h⟩ := ok_of_bind h
  obtain ⟨e, rfl, rfl, -⟩ := exists_expression hts ha
  simp only at h
  split at h
  · next hequals =>
    obtain ⟨equals, vs, rfl⟩ := exists_word_of_at? hts.right hequals
    obtain ⟨⟨b, vs⟩, hb, h⟩ := ok_of_bind h
    obtain ⟨xs, hxs, h⟩ := ok_of_bind h
    cases h
    obtain ⟨v, rfl, rfl, -⟩ := exists_expression hts.right.tail hb
    obtain ⟨semi, rfl⟩ := exists_word hts.right.tail.right hxs
    exact ⟨.simple e (.some equals v) semi, by simp [Statement.tokens, Init.tokens], rfl⟩
  · obtain ⟨vs, hvs, h⟩ := ok_of_bind h
    cases h
    obtain ⟨semi, rfl⟩ := exists_word hts.right hvs
    exact ⟨.simple e .none semi, by simp [Statement.tokens, Init.tokens], rfl⟩

mutual

theorem exists_block : ∀ {fuel : Nat} {ts rest : List Token} {ss : List Stmt}, Lexed ts →
    block stop fuel ts = .ok (ss, rest) →
      ∃ d : Block, ts = d.tokens ++ rest ∧ d.trees = ss ∧ endsBlock rest = true
  | 0, _, _, _, _, h => by
    rw [block] at h
    exact (fail_ne_ok h).elim
  | _ + 1, ts, rest, ss, hts, h => by
    rw [block] at h
    split at h
    · next hend =>
      cases h
      exact ⟨.nil, rfl, rfl, hend⟩
    · obtain ⟨⟨a, us⟩, ha, h⟩ := ok_of_bind h
      obtain ⟨⟨as, vs⟩, has, h⟩ := ok_of_bind h
      cases h
      obtain ⟨s, rfl, rfl⟩ := exists_statement hts ha
      obtain ⟨b, rfl, rfl, hend⟩ := exists_block hts.right has
      exact ⟨.cons s b, by simp [Block.tokens], rfl, hend⟩

theorem exists_statement : ∀ {fuel : Nat} {ts rest : List Token} {s : Stmt}, Lexed ts →
    statement stop fuel ts = .ok (s, rest) →
      ∃ d : Statement, ts = d.tokens ++ rest ∧ d.tree = s
  | 0, _, _, _, _, h => by
    rw [statement] at h
    exact (fail_ne_ok h).elim
  | _ + 1, ts, rest, s, hts, h => by
    rw [statement] at h
    split at h
    · next hword =>
      obtain ⟨k, us, rfl⟩ := exists_word_of_at? hts hword
      exact exists_declare hts.tail h
    split at h
    · next hword =>
      obtain ⟨k, us, rfl⟩ := exists_word_of_at? hts hword
      obtain ⟨⟨a, us⟩, ha, h⟩ := ok_of_bind h
      obtain ⟨vs, hvs, h⟩ := ok_of_bind h
      obtain ⟨⟨as, xs⟩, has, h⟩ := ok_of_bind h
      obtain ⟨c, rfl, rfl, -⟩ := exists_expression hts.tail ha
      obtain ⟨o, rfl⟩ := exists_word hts.tail.right hvs
      obtain ⟨t, rfl, rfl, -⟩ := exists_block hts.tail.right.tail has
      have hrest := hts.tail.right.tail.right
      simp only at h
      split at h
      · next helse =>
        obtain ⟨l, ys, rfl⟩ := exists_word_of_at? hrest helse
        obtain ⟨⟨bs, ys⟩, hbs, h⟩ := ok_of_bind h
        obtain ⟨zs, hzs, h⟩ := ok_of_bind h
        cases h
        obtain ⟨b, rfl, rfl, -⟩ := exists_block hrest.tail hbs
        obtain ⟨cl, rfl⟩ := exists_word hrest.tail.right hzs
        exact ⟨.branch k c o t (.some l b) cl, by simp [Statement.tokens, Else.tokens], rfl⟩
      · obtain ⟨⟨bs, ys⟩, hbs, h⟩ := ok_of_bind h
        obtain ⟨zs, hzs, h⟩ := ok_of_bind h
        cases hbs
        cases h
        obtain ⟨cl, rfl⟩ := exists_word hrest hzs
        exact ⟨.branch k c o t .none cl, by simp [Statement.tokens, Else.tokens], rfl⟩
    split at h
    · next hword =>
      obtain ⟨k, us, rfl⟩ := exists_word_of_at? hts hword
      obtain ⟨⟨a, us⟩, ha, h⟩ := ok_of_bind h
      obtain ⟨⟨as, vs⟩, has, h⟩ := ok_of_bind h
      obtain ⟨xs, hxs, h⟩ := ok_of_bind h
      cases h
      obtain ⟨c, rfl, rfl, -⟩ := exists_expression hts.tail ha
      obtain ⟨cs, rfl, rfl⟩ := exists_cases hts.tail.right has
      obtain ⟨cl, rfl⟩ := exists_word hts.tail.right.right hxs
      exact ⟨.switch k c cs cl, by simp [Statement.tokens], rfl⟩
    split at h
    · next hword =>
      obtain ⟨k, us, rfl⟩ := exists_word_of_at? hts hword
      obtain ⟨⟨a, us⟩, ha, h⟩ := ok_of_bind h
      obtain ⟨vs, hvs, h⟩ := ok_of_bind h
      obtain ⟨⟨as, xs⟩, has, h⟩ := ok_of_bind h
      obtain ⟨ys, hys, h⟩ := ok_of_bind h
      cases h
      obtain ⟨c, rfl, rfl, -⟩ := exists_expression hts.tail ha
      obtain ⟨o, rfl⟩ := exists_word hts.tail.right hvs
      obtain ⟨b, rfl, rfl, -⟩ := exists_block hts.tail.right.tail has
      obtain ⟨cl, rfl⟩ := exists_word hts.tail.right.tail.right hys
      exact ⟨.loop k c o b cl, by simp [Statement.tokens], rfl⟩
    split at h
    · next hword =>
      obtain ⟨k, us, rfl⟩ := exists_word_of_at? hts hword
      obtain ⟨⟨a, us⟩, ha, h⟩ := ok_of_bind h
      obtain ⟨vs, hvs, h⟩ := ok_of_bind h
      cases h
      obtain ⟨e, rfl, rfl, -⟩ := exists_expression hts.tail ha
      obtain ⟨semi, rfl⟩ := exists_word hts.tail.right hvs
      exact ⟨.ret k e semi, by simp [Statement.tokens], rfl⟩
    · exact exists_simple hts h

theorem exists_cases : ∀ {fuel : Nat} {ts rest : List Token} {cs : List Case}, Lexed ts →
    Parser.cases stop fuel ts = .ok (cs, rest) →
      ∃ d : Cases, ts = d.tokens ++ rest ∧ d.trees = cs
  | 0, _, _, _, _, h => by
    rw [Parser.cases] at h
    exact (fail_ne_ok h).elim
  | _ + 1, ts, rest, cs, hts, h => by
    rw [Parser.cases] at h
    split at h
    · next hword =>
      obtain ⟨k, us, rfl⟩ := exists_word_of_at? hts hword
      obtain ⟨⟨a, us⟩, ha, h⟩ := ok_of_bind h
      obtain ⟨vs, hvs, h⟩ := ok_of_bind h
      obtain ⟨⟨as, xs⟩, has, h⟩ := ok_of_bind h
      obtain ⟨⟨bs, ys⟩, hbs, h⟩ := ok_of_bind h
      cases h
      obtain ⟨e, rfl, rfl, -⟩ := exists_expression hts.tail ha
      obtain ⟨colon, rfl⟩ := exists_word hts.tail.right hvs
      obtain ⟨b, rfl, rfl, -⟩ := exists_block hts.tail.right.tail has
      obtain ⟨more, rfl, rfl⟩ := exists_cases hts.tail.right.tail.right hbs
      exact ⟨.cons k e colon b more, by simp [Cases.tokens], rfl⟩
    · obtain ⟨us, hus, h⟩ := ok_of_bind h
      obtain ⟨⟨as, vs⟩, has, h⟩ := ok_of_bind h
      cases h
      obtain ⟨k, rfl⟩ := exists_word hts hus
      obtain ⟨b, rfl, rfl, -⟩ := exists_block hts.tail has
      exact ⟨.default k b, rfl, rfl⟩

end

/-! ### Declarations -/

theorem exists_bracketed {ts rest : List Token} {e : Expr} (hts : Lexed ts)
    (h : Parser.listLiteral stop ts = .ok (e, rest)) :
    ∃ (o : Word "[") (es : Expressions) (c : Word "]"),
      ts = o.token :: (es.tokens ++ c.token :: rest) ∧ .list es.trees none = e := by
  unfold Parser.listLiteral at h
  obtain ⟨us, hus, h⟩ := ok_of_bind h
  obtain ⟨⟨as, vs⟩, has, h⟩ := ok_of_bind h
  obtain ⟨xs, hxs, h⟩ := ok_of_bind h
  cases h
  obtain ⟨o, rfl⟩ := exists_word hts hus
  obtain ⟨es, rfl, rfl⟩ := exists_expressions hts.tail has
  obtain ⟨c, rfl⟩ := exists_word hts.tail.right hxs
  exact ⟨o, es, c, rfl, rfl⟩

/-- An initial value is an initial value of a global variable. -/
def Init.toGlobal : Init → GlobalInit
  | .none => .none
  | .some equals e => .expr equals e

theorem exists_globalItem (keyword : Terminal ["LIST", "VAR", "VAL"]) {ts rest : List Token}
    {g : GlobalDecl} (hts : Lexed ts)
    (h : Parser.global stop keyword.token.text ts = .ok (g, rest)) :
    ∃ d : GlobalItem, keyword.token :: ts = d.tokens ++ rest ∧ d.tree = g := by
  unfold Parser.global at h
  obtain ⟨⟨n, us⟩, hn, h⟩ := ok_of_bind h
  obtain ⟨⟨m, vs⟩, hm, h⟩ := ok_of_bind h
  obtain ⟨x, rfl, rfl⟩ := exists_ident hts hn
  obtain ⟨type, rfl, rfl⟩ := exists_typeNote hts.tail hm
  have hrest := hts.tail.right
  cases hbracketed : Parser.at? "=" vs && Parser.at? "[" (vs.drop 1) with
  | true =>
    simp only [hbracketed, if_true] at h
    obtain ⟨⟨a, xs⟩, ha, h⟩ := ok_of_bind h
    obtain ⟨⟨v, xs⟩, hv, h⟩ := ok_of_bind h
    obtain ⟨ys, hys, h⟩ := ok_of_bind h
    cases hv
    cases h
    obtain ⟨equals, vs, rfl⟩ := exists_word_of_at? hrest (Bool.and_eq_true_iff.mp hbracketed).1
    obtain ⟨o, es, c, rfl, rfl⟩ := exists_bracketed hrest.tail ha
    obtain ⟨semi, rfl⟩ := exists_word hrest.tail.tail.right.tail hys
    refine ⟨⟨keyword, x, type, .list equals o es c, semi⟩, ?_, rfl⟩
    simp [GlobalItem.tokens, GlobalInit.tokens]
  | false =>
    simp only [hbracketed, Bool.false_eq_true, if_false] at h
    obtain ⟨⟨v, xs⟩, hv, h⟩ := ok_of_bind h
    obtain ⟨ys, hys, h⟩ := ok_of_bind h
    cases h
    obtain ⟨value, rfl, rfl⟩ := exists_init hrest hv
    obtain ⟨semi, rfl⟩ := exists_word hrest.right hys
    refine ⟨⟨keyword, x, type, value.toGlobal, semi⟩, ?_, ?_⟩
    · cases value <;> simp [GlobalItem.tokens, GlobalInit.tokens, Init.toGlobal, Init.tokens]
    · cases value <;> rfl

theorem exists_parameter {ts rest : List Token} {p : Param} (hts : Lexed ts)
    (h : Parser.parameter stop ts = .ok (p, rest)) :
    ∃ d : Parameter, ts = d.tokens ++ rest ∧ d.tree = p := by
  unfold Parser.parameter at h
  obtain ⟨⟨n, us⟩, hn, h⟩ := ok_of_bind h
  obtain ⟨⟨m, vs⟩, hm, h⟩ := ok_of_bind h
  cases h
  obtain ⟨x, rfl, rfl⟩ := exists_ident hts hn
  obtain ⟨type, rfl, rfl⟩ := exists_typeNote hts.tail hm
  exact ⟨⟨x, type⟩, rfl, rfl⟩

theorem exists_parameters : ∀ {fuel : Nat} {ts rest : List Token} {ps : List Param}, Lexed ts →
    Parser.parameters stop fuel ts = .ok (ps, rest) →
      ∃ d : Parameters, ts = d.tokens ++ rest ∧ d.trees = ps
  | 0, _, _, _, _, h => by
    rw [Parser.parameters] at h
    exact (fail_ne_ok h).elim
  | _ + 1, ts, rest, ps, hts, h => by
    rw [Parser.parameters] at h
    obtain ⟨⟨a, us⟩, ha, h⟩ := ok_of_bind h
    obtain ⟨p, rfl, rfl⟩ := exists_parameter hts ha
    simp only at h
    split at h
    · next hcomma =>
      obtain ⟨comma, vs, rfl⟩ := exists_word_of_at? hts.right hcomma
      obtain ⟨⟨as, vs⟩, has, h⟩ := ok_of_bind h
      cases h
      obtain ⟨ps, rfl, rfl⟩ := exists_parameters hts.right.tail has
      exact ⟨.cons p comma ps, by simp [Parameters.tokens], rfl⟩
    · cases h
      exact ⟨.one p, rfl, rfl⟩

/-- What follows the parameters of a function. -/
theorem exists_functionItem_of_params {keyword : Word "FUN"} {x : Ident} {o : Word "("}
    (params : Option Parameters) {ts rest : List Token} {f : FuncDecl} (hts : Lexed ts)
    (h : (do
      let ts ← Parser.word stop ")" ts
      let (r, ts) ← Parser.typeAnnotation stop .returnTypeName ts
      let ts ← Parser.word stop "DO" ts
      let (b, ts) ← block stop (Parser.fuelFor ts) ts
      let ts ← Parser.word stop "END" ts
      return (FuncDecl.mk x.name (params.elim [] Parameters.trees) r b none, ts)) = .ok (f, rest)) :
    ∃ d : FunctionItem,
      keyword.token :: x.token :: o.token :: (params.elim [] Parameters.tokens ++ ts) =
        d.tokens ++ rest ∧ d.tree = f := by
  obtain ⟨us, hus, h⟩ := ok_of_bind h
  obtain ⟨⟨m, vs⟩, hm, h⟩ := ok_of_bind h
  obtain ⟨xs, hxs, h⟩ := ok_of_bind h
  obtain ⟨⟨as, ys⟩, has, h⟩ := ok_of_bind h
  obtain ⟨zs, hzs, h⟩ := ok_of_bind h
  cases h
  obtain ⟨c, rfl⟩ := exists_word hts hus
  obtain ⟨type, rfl, rfl⟩ := exists_typeNote hts.tail hm
  obtain ⟨start, rfl⟩ := exists_word hts.tail.right hxs
  obtain ⟨b, rfl, rfl, -⟩ := exists_block hts.tail.right.tail has
  obtain ⟨close, rfl⟩ := exists_word hts.tail.right.tail.right hzs
  refine ⟨⟨keyword, x, o, params, c, type, start, b, close⟩, ?_, rfl⟩
  simp [FunctionItem.tokens, FunctionItem.paramTokens]

theorem exists_functionItem (keyword : Word "FUN") {ts rest : List Token} {f : FuncDecl}
    (hts : Lexed ts) (h : Parser.function stop ts = .ok (f, rest)) :
    ∃ d : FunctionItem, keyword.token :: ts = d.tokens ++ rest ∧ d.tree = f := by
  unfold Parser.function at h
  obtain ⟨⟨n, us⟩, hn, h⟩ := ok_of_bind h
  obtain ⟨vs, hvs, h⟩ := ok_of_bind h
  have hhead : ∃ (x : Ident) (o : Word "("), ts = x.token :: o.token :: vs ∧ x.name = n := by
    obtain ⟨x, rfl, rfl⟩ := exists_ident hts hn
    obtain ⟨o, rfl⟩ := exists_word hts.tail hvs
    exact ⟨x, o, rfl, rfl⟩
  simp only at h
  split at h
  · obtain ⟨⟨ps, xs⟩, hps, h⟩ := ok_of_bind h
    cases hps
    obtain ⟨x, o, rfl, rfl⟩ := hhead
    exact exists_functionItem_of_params none hts.tail.tail h
  · obtain ⟨⟨ps, xs⟩, hps, h⟩ := ok_of_bind h
    obtain ⟨x, o, rfl, rfl⟩ := hhead
    obtain ⟨params, rfl, rfl⟩ := exists_parameters hts.tail.tail hps
    exact exists_functionItem_of_params (some params) hts.tail.tail.right h

theorem exists_globals : ∀ {fuel : Nat} {ts rest : List Token} {gs : List Global}, Lexed ts →
    Parser.globals stop fuel ts = .ok (gs, rest) →
      ∃ ds : List GlobalItem, ts = ds.flatMap GlobalItem.tokens ++ rest ∧
        ds.map (.decl ·.tree) = gs
  | 0, _, _, _, _, h => by
    cases h
    exact ⟨[], rfl, rfl⟩
  | _ + 1, ts, rest, gs, hts, h => by
    rw [Parser.globals] at h
    split at h
    · next htake =>
      obtain ⟨keyword, rfl, rfl⟩ := exists_terminal hts htake
      obtain ⟨⟨a, us⟩, ha, h⟩ := ok_of_bind h
      obtain ⟨⟨as, vs⟩, has, h⟩ := ok_of_bind h
      cases h
      obtain ⟨d, hd, rfl⟩ := exists_globalItem keyword hts.tail ha
      rw [hd] at hts ⊢
      obtain ⟨ds, rfl, rfl⟩ := exists_globals hts.right has
      exact ⟨d :: ds, by simp, rfl⟩
    · cases h
      exact ⟨[], rfl, rfl⟩

theorem exists_functions : ∀ {fuel : Nat} {ts rest : List Token} {fs : List Func}, Lexed ts →
    Parser.functions stop fuel ts = .ok (fs, rest) →
      ∃ ds : List FunctionItem, ts = ds.flatMap FunctionItem.tokens ++ rest ∧
        ds.map (.decl ·.tree) = fs
  | 0, _, _, _, _, h => by
    cases h
    exact ⟨[], rfl, rfl⟩
  | _ + 1, ts, rest, fs, hts, h => by
    rw [Parser.functions] at h
    split at h
    · next hword =>
      obtain ⟨keyword, us, rfl⟩ := exists_word_of_at? hts hword
      obtain ⟨⟨a, us⟩, ha, h⟩ := ok_of_bind h
      obtain ⟨⟨as, vs⟩, has, h⟩ := ok_of_bind h
      cases h
      obtain ⟨d, hd, rfl⟩ := exists_functionItem keyword hts.tail ha
      rw [hd] at hts ⊢
      obtain ⟨ds, rfl, rfl⟩ := exists_functions hts.right has
      exact ⟨d :: ds, by simp, rfl⟩
    · cases h
      exact ⟨[], rfl, rfl⟩

theorem exists_source {ts rest : List Token} {p : Program} (hts : Lexed ts)
    (h : Parser.program stop ts = .ok (p, rest)) :
    ∃ d : Source, ts = d.tokens ++ rest ∧ d.tree = p ∧ rest = [] := by
  unfold Parser.program at h
  obtain ⟨⟨as, us⟩, has, h⟩ := ok_of_bind h
  obtain ⟨⟨bs, vs⟩, hbs, h⟩ := ok_of_bind h
  obtain ⟨gs, rfl, rfl⟩ := exists_globals hts has
  obtain ⟨fs, rfl, rfl⟩ := exists_functions hts.right hbs
  cases vs with
  | nil =>
    cases h
    exact ⟨⟨gs, fs⟩, by simp [Source.tokens], rfl, rfl⟩
  | cons t vs => exact (fail_ne_ok h).elim

end Scriptlet.Grammar
