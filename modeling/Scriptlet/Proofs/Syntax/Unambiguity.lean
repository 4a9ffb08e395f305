import Scriptlet.Proofs.Syntax.Boundaries

/-! # Derivations are unique

Tokens that start with the yield of a plain derivation, and do not go on with it after that yield,
determine the derivation and the tokens that are left. The proofs go by recursion on one of two
derivations: the next token tells which production the other one has, and the parts are taken off
one after the other. -/

namespace Scriptlet.Grammar

open Scriptlet.Parser (Tier endsBlock blockEnds)

/-! ### Leaves -/

theorem Terminal.cons_inj {ws : List String} {k k' : Terminal ws} {ts ts' : List Token}
    (h : k.token :: ts = k'.token :: ts') : k = k' ∧ ts = ts' :=
  ⟨Terminal.ext (List.cons.inj h).1, (List.cons.inj h).2⟩

theorem Ident.cons_inj {x x' : Ident} {ts ts' : List Token} (h : x.token :: ts = x'.token :: ts') :
    x = x' ∧ ts = ts' :=
  ⟨Ident.ext (List.cons.inj h).1, (List.cons.inj h).2⟩

/-- A token stands for one datum at most, the one that the reader finds. -/
theorem Literal.cons_inj {l l' : Literal} (hp : l.IsPlain) (hp' : l'.IsPlain) {ts ts' : List Token}
    (h : l.token :: ts = l'.token :: ts') : l = l' ∧ ts = ts' := by
  obtain ⟨htoken, hts⟩ := List.cons.inj h
  have hread := literal?_of_isPlain hp
  rw [htoken, literal?_of_isPlain hp'] at hread
  injection hread with hread
  injection hread with hread
  injection hread with hvalue hkind
  exact ⟨Literal.ext htoken hvalue.symm hkind.symm, hts⟩

theorem Terminal.token_ne {ws vs : List String} (k : Terminal ws) (k' : Terminal vs)
    (h : ∀ w ∈ ws, w ∉ vs) : k.token ≠ k'.token :=
  fun heq => h _ k.mem (heq ▸ k'.mem)

theorem Ident.token_ne (x : Ident) {ws : List String} (k : Terminal ws) (h : ws ⊆ marks) :
    x.token ≠ k.token :=
  fun heq => notMem_marks x.isLexical x.kind_eq (heq ▸ h k.mem)

theorem Literal.token_ne (l : Literal) (o : Word "(") : l.token ≠ o.token := by
  intro heq
  rcases l.denotes.kind_or_constant with hk | hconst
  · exact o.kind_notMem (by decide) (heq ▸ hk)
  · rw [heq, o.text_eq] at hconst
    exact absurd hconst (by decide)

theorem Literal.token_ne_ident (l : Literal) {x : Ident} (hx : IsName x.token) :
    l.token ≠ x.token :=
  fun heq => (heq ▸ l.denotes).not_isName hx

/-! ### Expressions -/

theorem Tighter.unique {l next next' : Tier} (h : Tighter l next) (h' : Tighter l next') :
    next = next' := by
  cases h <;> cases h' <;> rfl

/-- The bracket after a name, if there is one. -/
def Tail.bracket? : Tail → Option String
  | .none => Option.none
  | .emptyCall _ _ => some "("
  | .call _ _ _ => some "("
  | .index _ _ _ => some "["

/-- What follows a name starts with its bracket, or with something else if it has none. -/
theorem Tail.next {x : Ident} (hx : IsName x.token) {d : Tail} {r : List Token}
    (hends : Ends [] (x.token :: d.tokens) r) :
    ((d.tokens ++ r).head?.map Token.text).filter (· ∈ brackets) = d.bracket? := by
  cases d with
  | none =>
    have hr := hends.bracket x.token rfl hx
    cases r with
    | nil => rfl
    | cons t r => simpa [Tail.tokens, Tail.bracket?, Option.filter] using avoids_cons.mp hr
  | emptyCall o | call o | index o =>
    simp [Tail.tokens, Tail.bracket?, o.text_eq, brackets, Option.filter]

theorem Tail.bracket?_eq {x : Ident} (hx : IsName x.token) {d d' : Tail} {r r' : List Token}
    (hends : Ends [] (x.token :: d.tokens) r) (h : d.tokens ++ r = d'.tokens ++ r')
    (hends' : Ends [] (x.token :: d'.tokens) r') : d.bracket? = d'.bracket? := by
  rw [← Tail.next hx hends, h, Tail.next hx hends']

mutual

theorem Tiered.unique {l : Tier} : ∀ {d d' : Tiered l}, d.IsPlain → d'.IsPlain →
    ∀ {r r' : List Token}, Ends (reach l) d.tokens r → Ends (reach l) d'.tokens r' →
      d.tokens ++ r = d'.tokens ++ r' → d = d' ∧ r = r'
  | .mk first more, .mk first' more', hp, hp', r, r', hends, hends', h => by
    rw [Tiered.tokens] at hends hends'
    simp only [Tiered.tokens, List.append_assoc] at h
    obtain ⟨rfl, hmore⟩ := Operand.unique hp.1 hp'.1 (more.ends_first hends)
      (more'.ends_first hends') h
    obtain ⟨rfl, rfl⟩ := Chain.unique hp.2 hp'.2 hends hends' hmore
    exact ⟨rfl, rfl⟩
termination_by structural d => d

theorem Operand.unique {l : Tier} : ∀ {d d' : Operand l}, d.IsPlain → d'.IsPlain →
    ∀ {r r' : List Token}, Ends (inner l) d.tokens r → Ends (inner l) d'.tokens r' →
      d.tokens ++ r = d'.tokens ++ r' → d = d' ∧ r = r'
  | .tiered hnext e, d', hp, hp', r, r', hends, hends', h => by
    cases d' with
    | tiered hnext' e' =>
      obtain rfl := hnext.unique hnext'
      rw [hnext.inner_eq] at hends hends'
      obtain ⟨rfl, rfl⟩ := Tiered.unique hp hp' hends hends' h
      exact ⟨rfl, rfl⟩
    | primary e' => cases hnext
  | .primary e, d', hp, hp', r, r', hends, hends', h => by
    cases d' with
    | tiered hnext' e' => cases hnext'
    | primary e' =>
      obtain ⟨rfl, rfl⟩ := Primary.unique hp hp' hends hends' h
      exact ⟨rfl, rfl⟩
termination_by structural d => d

theorem Chain.unique {l : Tier} : ∀ {d d' : Chain l}, d.IsPlain → d'.IsPlain →
    ∀ {ts r r' : List Token}, Ends (reach l) (ts ++ d.tokens) r →
      Ends (reach l) (ts ++ d'.tokens) r' → d.tokens ++ r = d'.tokens ++ r' → d = d' ∧ r = r'
  | .nil, d', _, _, ts, r, r', hends, _, h => by
    cases d' with
    | nil => exact ⟨rfl, h⟩
    | cons op right more =>
      rw [Chain.tokens, List.nil_append] at h
      have hnot := avoids_cons.mp (h ▸ hends.operator)
      exact absurd (List.mem_append_left _ op.mem) hnot
  | .cons op right more, d', hp, hp', ts, r, r', hends, hends', h => by
    cases d' with
    | nil =>
      rw [Chain.tokens, Chain.tokens, List.nil_append] at h
      have hnot := avoids_cons.mp (h ▸ hends'.operator)
      exact absurd (List.mem_append_left _ op.mem) hnot
    | cons op' right' more' =>
      have hlast := Chain.ends_cons_iff.mp hends
      have hlast' := Chain.ends_cons_iff.mp hends'
      simp only [Chain.tokens, List.cons_append, List.append_assoc] at h
      obtain ⟨rfl, hright⟩ := Terminal.cons_inj h
      obtain ⟨rfl, hmore⟩ := Operand.unique hp.1 hp'.1 (more.ends_first hlast)
        (more'.ends_first hlast') hright
      obtain ⟨rfl, rfl⟩ := Chain.unique hp.2 hp'.2 hlast hlast' hmore
      exact ⟨rfl, rfl⟩
termination_by structural d => d

theorem Primary.unique : ∀ {d d' : Primary}, d.IsPlain → d'.IsPlain →
    ∀ {r r' : List Token}, Ends [] d.tokens r → Ends [] d'.tokens r' →
      d.tokens ++ r = d'.tokens ++ r' → d = d' ∧ r = r'
  | .literal l, d', hp, hp', r, r', hends, hends', h => by
    cases d' with
    | literal l' =>
      obtain ⟨rfl, rfl⟩ := Literal.cons_inj hp hp' h
      exact ⟨rfl, rfl⟩
    | group o e c => exact absurd (List.cons.inj h).1 (l.token_ne o)
    | reference x tail => exact absurd (List.cons.inj h).1 (l.token_ne_ident hp'.1.isName)
  | .group o e c, d', hp, hp', r, r', hends, hends', h => by
    cases d' with
    | literal l => exact absurd (List.cons.inj h).1 (l.token_ne o).symm
    | group o' e' c' =>
      simp only [Primary.tokens, List.cons_append, List.append_assoc, List.nil_append] at h
      obtain ⟨rfl, he⟩ := Terminal.cons_inj h
      obtain ⟨rfl, hc⟩ := Tiered.unique hp hp' (.of_terminal c r (by decide))
        (.of_terminal c' r' (by decide)) he
      obtain ⟨rfl, rfl⟩ := Terminal.cons_inj hc
      exact ⟨rfl, rfl⟩
    | reference x tail => exact absurd (List.cons.inj h).1 (x.token_ne o (by decide)).symm
  | .reference x tail, d', hp, hp', r, r', hends, hends', h => by
    cases d' with
    | literal l => exact absurd (List.cons.inj h).1 (l.token_ne_ident hp.1.isName).symm
    | group o e c => exact absurd (List.cons.inj h).1 (x.token_ne o (by decide))
    | reference x' tail' =>
      rw [Primary.tokens] at hends hends'
      obtain ⟨rfl, htail⟩ := Ident.cons_inj h
      obtain ⟨rfl, rfl⟩ := Tail.unique ⟨hp.1.isName, hp.2⟩ hp'.2 hends hends' htail
      exact ⟨rfl, rfl⟩
termination_by structural d => d

theorem Tail.unique : ∀ {x : Ident} {d d' : Tail}, IsName x.token ∧ d.IsPlain → d'.IsPlain →
    ∀ {r r' : List Token}, Ends [] (x.token :: d.tokens) r → Ends [] (x.token :: d'.tokens) r' →
      d.tokens ++ r = d'.tokens ++ r' → d = d' ∧ r = r'
  | x, .none, d', hp, hp', r, r', hends, hends', h => by
    have hbracket := Tail.bracket?_eq hp.1 hends h hends'
    cases d' with
    | none => exact ⟨rfl, h⟩
    | _ => cases hbracket
  | x, .emptyCall o c, d', hp, hp', r, r', hends, hends', h => by
    have hbracket := Tail.bracket?_eq hp.1 hends h hends'
    cases d' with
    | none => cases hbracket
    | emptyCall o' c' =>
      obtain ⟨rfl, hc⟩ := Terminal.cons_inj h
      obtain ⟨rfl, rfl⟩ := Terminal.cons_inj hc
      exact ⟨rfl, rfl⟩
    | call o' args c' =>
      -- both start with a bracket, but no argument starts with the closing one
      simp only [Tail.tokens, List.cons_append, List.append_assoc, List.nil_append] at h
      have hnot : Avoids [")"] (args.tokens ++ c'.token :: r') :=
        Expressions.avoids hp' _ (by decide)
      rw [← (List.cons.inj h).2] at hnot
      exact absurd c.mem (avoids_cons.mp hnot)
    | index o' place c' => simp [Tail.bracket?] at hbracket
  | x, .call o args c, d', hp, hp', r, r', hends, hends', h => by
    have hbracket := Tail.bracket?_eq hp.1 hends h hends'
    cases d' with
    | none => cases hbracket
    | emptyCall o' c' =>
      simp only [Tail.tokens, List.cons_append, List.append_assoc, List.nil_append] at h
      have hnot : Avoids [")"] (args.tokens ++ c.token :: r) :=
        Expressions.avoids hp.2 _ (by decide)
      rw [(List.cons.inj h).2] at hnot
      exact absurd c'.mem (avoids_cons.mp hnot)
    | call o' args' c' =>
      simp only [Tail.tokens, List.cons_append, List.append_assoc, List.nil_append] at h
      obtain ⟨rfl, hargs⟩ := Terminal.cons_inj h
      obtain ⟨rfl, hc⟩ := Expressions.unique hp.2 hp' (avoids_terminal c r (by decide))
        (avoids_terminal c' r' (by decide)) hargs
      obtain ⟨rfl, rfl⟩ := Terminal.cons_inj hc
      exact ⟨rfl, rfl⟩
    | index o' place c' => simp [Tail.bracket?] at hbracket
  | x, .index o place c, d', hp, hp', r, r', hends, hends', h => by
    have hbracket := Tail.bracket?_eq hp.1 hends h hends'
    cases d' with
    | none => cases hbracket
    | emptyCall o' c' => simp [Tail.bracket?] at hbracket
    | call o' args c' => simp [Tail.bracket?] at hbracket
    | index o' place' c' =>
      simp only [Tail.tokens, List.cons_append, List.append_assoc, List.nil_append] at h
      obtain ⟨rfl, hplace⟩ := Terminal.cons_inj h
      obtain ⟨rfl, hc⟩ := Tiered.unique hp.2 hp' (.of_terminal c r (by decide))
        (.of_terminal c' r' (by decide)) hplace
      obtain ⟨rfl, rfl⟩ := Terminal.cons_inj hc
      exact ⟨rfl, rfl⟩
termination_by structural _ d => d

theorem Expressions.unique : ∀ {d d' : Expressions}, d.IsPlain → d'.IsPlain →
    ∀ {r r' : List Token}, Avoids ("," :: (reach .logical ++ brackets)) r →
      Avoids ("," :: (reach .logical ++ brackets)) r' →
      d.tokens ++ r = d'.tokens ++ r' → d = d' ∧ r = r'
  | .one e, d', hp, hp', r, r', hr, hr', h => by
    have hends : Ends (reach .logical) e.tokens r :=
      .of_avoids (hr.subset (List.subset_cons_self ..))
    cases d' with
    | one e' =>
      obtain ⟨rfl, rfl⟩ := Tiered.unique hp hp' hends
        (.of_avoids (hr'.subset (List.subset_cons_self ..))) h
      exact ⟨rfl, rfl⟩
    | cons e' comma es =>
      simp only [Expressions.tokens, List.append_assoc, List.cons_append] at h
      obtain ⟨-, hcomma⟩ := Tiered.unique hp hp'.1 hends (.of_terminal comma _ (by decide)) h
      rw [hcomma] at hr
      exact absurd (List.mem_cons_self ..) (comma.text_eq ▸ avoids_cons.mp hr)
  | .cons e comma es, d', hp, hp', r, r', hr, hr', h => by
    cases d' with
    | one e' =>
      simp only [Expressions.tokens, List.append_assoc, List.cons_append] at h
      obtain ⟨-, hcomma⟩ := Tiered.unique hp.1 hp' (.of_terminal comma _ (by decide))
        (.of_avoids (hr'.subset (List.subset_cons_self ..))) h
      rw [← hcomma] at hr'
      exact absurd (List.mem_cons_self ..) (comma.text_eq ▸ avoids_cons.mp hr')
    | cons e' comma' es' =>
      simp only [Expressions.tokens, List.append_assoc, List.cons_append] at h
      obtain ⟨rfl, hcomma⟩ := Tiered.unique hp.1 hp'.1 (.of_terminal comma _ (by decide))
        (.of_terminal comma' _ (by decide)) h
      obtain ⟨rfl, hes⟩ := Terminal.cons_inj hcomma
      obtain ⟨rfl, rfl⟩ := Expressions.unique hp.2 hp'.2 hr hr' hes
      exact ⟨rfl, rfl⟩
termination_by structural d => d

end

/-- Expressions before words or marks that they do not go on with. -/
theorem Tiered.unique_before {d d' : Expression} (hp : d.IsPlain) (hp' : d'.IsPlain)
    {vs : List String} {k k' : Terminal vs} {r r' : List Token}
    (hvs : ∀ w ∈ vs, w ∉ reach .logical ++ brackets)
    (h : d.tokens ++ k.token :: r = d'.tokens ++ k'.token :: r') : d = d' ∧ k = k' ∧ r = r' := by
  obtain ⟨rfl, hk⟩ := Tiered.unique hp hp' (.of_terminal k r hvs) (.of_terminal k' r' hvs) h
  exact ⟨rfl, Terminal.cons_inj hk⟩

/-! ### Optional parts -/

theorem TypeNote.unique {d d' : TypeNote} {r r' : List Token} (hr : Avoids [":"] r)
    (hr' : Avoids [":"] r') (h : d.tokens ++ r = d'.tokens ++ r') : d = d' ∧ r = r' := by
  cases d with
  | none =>
    cases d' with
    | none => exact ⟨rfl, h⟩
    | some colon x =>
      rw [TypeNote.tokens, List.nil_append] at h
      rw [h] at hr
      exact absurd colon.mem (avoids_cons.mp hr)
  | some colon x =>
    cases d' with
    | none =>
      rw [TypeNote.tokens, TypeNote.tokens, List.nil_append] at h
      rw [← h] at hr'
      exact absurd colon.mem (avoids_cons.mp hr')
    | some colon' x' =>
      obtain ⟨rfl, hx⟩ := Terminal.cons_inj h
      obtain ⟨rfl, rfl⟩ := Ident.cons_inj hx
      exact ⟨rfl, rfl⟩

theorem Init.unique {d d' : Init} (hp : d.IsPlain) (hp' : d'.IsPlain) {semi semi' : Word ";"}
    {r r' : List Token} (h : d.tokens ++ semi.token :: r = d'.tokens ++ semi'.token :: r') :
    d = d' ∧ semi = semi' ∧ r = r' := by
  cases d with
  | none =>
    cases d' with
    | none => exact ⟨rfl, Terminal.cons_inj h⟩
    | some equals e => exact absurd (List.cons.inj h).1 (semi.token_ne equals (by decide))
  | some equals e =>
    cases d' with
    | none => exact absurd (List.cons.inj h).1 (equals.token_ne semi' (by decide))
    | some equals' e' =>
      obtain ⟨rfl, he⟩ := Terminal.cons_inj h
      obtain ⟨rfl, rfl, rfl⟩ := Tiered.unique_before hp hp' (by decide) he
      exact ⟨rfl, rfl, rfl⟩

/-! ### Statements -/

theorem Statement.keyword?_eq {d d' : Statement} (hp : d.IsPlain) (hp' : d'.IsPlain)
    {r r' : List Token} (h : d.tokens ++ r = d'.tokens ++ r') : d.keyword? = d'.keyword? := by
  obtain ⟨t, ts, htokens, hkeyword, -⟩ := Statement.starts hp
  obtain ⟨t', ts', htokens', hkeyword', -⟩ := Statement.starts hp'
  rw [htokens, htokens'] at h
  rw [← hkeyword, ← hkeyword', (List.cons.inj h).1]

mutual

theorem Block.unique : ∀ {d d' : Block}, d.IsPlain → d'.IsPlain → ∀ {r r' : List Token},
    endsBlock r = true → endsBlock r' = true → d.tokens ++ r = d'.tokens ++ r' → d = d' ∧ r = r'
  | .nil, d', _, hp', r, r', hr, hr', h => by
    cases d' with
    | nil => exact ⟨rfl, h⟩
    | cons s b =>
      simp only [Block.tokens, List.nil_append, List.append_assoc] at h
      rw [h] at hr
      exact absurd hr (Statement.not_endsBlock hp'.1 _)
  | .cons s b, d', hp, hp', r, r', hr, hr', h => by
    cases d' with
    | nil =>
      simp only [Block.tokens, List.nil_append, List.append_assoc] at h
      rw [← h] at hr'
      exact absurd hr' (Statement.not_endsBlock hp.1 _)
    | cons s' b' =>
      simp only [Block.tokens, List.append_assoc] at h
      obtain ⟨rfl, hb⟩ := Statement.unique hp.1 hp'.1 h
      obtain ⟨rfl, rfl⟩ := Block.unique hp.2 hp'.2 hr hr' hb
      exact ⟨rfl, rfl⟩
termination_by structural d => d

theorem Statement.unique : ∀ {d d' : Statement}, d.IsPlain → d'.IsPlain → ∀ {r r' : List Token},
    d.tokens ++ r = d'.tokens ++ r' → d = d' ∧ r = r'
  | .declare k x type value semi, d', hp, hp', r, r', h => by
    have hkeyword := Statement.keyword?_eq hp hp' h
    cases d' with
    | declare k' x' type' value' semi' =>
      simp only [Statement.tokens, List.cons_append, List.append_assoc, List.nil_append] at h
      obtain ⟨rfl, hx⟩ := Terminal.cons_inj h
      obtain ⟨rfl, htype⟩ := Ident.cons_inj hx
      obtain ⟨rfl, hvalue⟩ := TypeNote.unique (value.avoids semi r) (value'.avoids semi' r') htype
      obtain ⟨rfl, rfl, rfl⟩ := Init.unique hp hp' hvalue
      exact ⟨rfl, rfl⟩
    | _ => simp [Statement.keyword?] at hkeyword
  | .branch k c o t e cl, d', hp, hp', r, r', h => by
    have hkeyword := Statement.keyword?_eq hp hp' h
    cases d' with
    | branch k' c' o' t' e' cl' =>
      simp only [Statement.tokens, List.cons_append, List.append_assoc, List.nil_append] at h
      obtain ⟨rfl, hc⟩ := Terminal.cons_inj h
      obtain ⟨rfl, rfl, ht⟩ := Tiered.unique_before hp.1 hp'.1 (by decide) hc
      obtain ⟨rfl, he⟩ := Block.unique hp.2.1 hp'.2.1 (e.endsBlock cl r) (e'.endsBlock cl' r') ht
      obtain ⟨rfl, rfl, rfl⟩ := Else.unique hp.2.2 hp'.2.2 he
      exact ⟨rfl, rfl⟩
    | _ => simp [Statement.keyword?] at hkeyword
  | .switch k c cs cl, d', hp, hp', r, r', h => by
    have hkeyword := Statement.keyword?_eq hp hp' h
    cases d' with
    | switch k' c' cs' cl' =>
      simp only [Statement.tokens, List.cons_append, List.append_assoc, List.nil_append] at h
      obtain ⟨rfl, hc⟩ := Terminal.cons_inj h
      obtain ⟨rfl, hcs⟩ := Tiered.unique hp.1 hp'.1 (.of_avoids (cs.avoids _))
        (.of_avoids (cs'.avoids _)) hc
      obtain ⟨rfl, hcl⟩ := Cases.unique hp.2 hp'.2 (endsBlock_word cl r (by decide))
        (endsBlock_word cl' r' (by decide)) hcs
      obtain ⟨rfl, rfl⟩ := Terminal.cons_inj hcl
      exact ⟨rfl, rfl⟩
    | _ => simp [Statement.keyword?] at hkeyword
  | .loop k c o b cl, d', hp, hp', r, r', h => by
    have hkeyword := Statement.keyword?_eq hp hp' h
    cases d' with
    | loop k' c' o' b' cl' =>
      simp only [Statement.tokens, List.cons_append, List.append_assoc, List.nil_append] at h
      obtain ⟨rfl, hc⟩ := Terminal.cons_inj h
      obtain ⟨rfl, rfl, hb⟩ := Tiered.unique_before hp.1 hp'.1 (by decide) hc
      obtain ⟨rfl, hcl⟩ := Block.unique hp.2 hp'.2 (endsBlock_word cl r (by decide))
        (endsBlock_word cl' r' (by decide)) hb
      obtain ⟨rfl, rfl⟩ := Terminal.cons_inj hcl
      exact ⟨rfl, rfl⟩
    | _ => simp [Statement.keyword?] at hkeyword
  | .ret k e semi, d', hp, hp', r, r', h => by
    have hkeyword := Statement.keyword?_eq hp hp' h
    cases d' with
    | ret k' e' semi' =>
      simp only [Statement.tokens, List.cons_append, List.append_assoc, List.nil_append] at h
      obtain ⟨rfl, he⟩ := Terminal.cons_inj h
      obtain ⟨rfl, rfl, rfl⟩ := Tiered.unique_before hp hp' (by decide) he
      exact ⟨rfl, rfl⟩
    | _ => simp [Statement.keyword?] at hkeyword
  | .simple e value semi, d', hp, hp', r, r', h => by
    have hkeyword := Statement.keyword?_eq hp hp' h
    cases d' with
    | simple e' value' semi' =>
      simp only [Statement.tokens, List.cons_append, List.append_assoc, List.nil_append] at h
      obtain ⟨rfl, hvalue⟩ := Tiered.unique hp.1 hp'.1 (.of_avoids (value.avoids_operator semi r))
        (.of_avoids (value'.avoids_operator semi' r')) h
      obtain ⟨rfl, rfl, rfl⟩ := Init.unique hp.2 hp'.2 hvalue
      exact ⟨rfl, rfl⟩
    | _ => simp [Statement.keyword?] at hkeyword
termination_by structural d => d

theorem Else.unique : ∀ {d d' : Else}, d.IsPlain → d'.IsPlain →
    ∀ {cl cl' : Word "END"} {r r' : List Token},
      d.tokens ++ cl.token :: r = d'.tokens ++ cl'.token :: r' → d = d' ∧ cl = cl' ∧ r = r'
  | .none, d', _, _, cl, cl', r, r', h => by
    cases d' with
    | none => exact ⟨rfl, Terminal.cons_inj h⟩
    | some k b => exact absurd (List.cons.inj h).1 (cl.token_ne k (by decide))
  | .some k b, d', hp, hp', cl, cl', r, r', h => by
    cases d' with
    | none => exact absurd (List.cons.inj h).1 (k.token_ne cl' (by decide))
    | some k' b' =>
      obtain ⟨rfl, hb⟩ := Terminal.cons_inj h
      obtain ⟨rfl, hcl⟩ := Block.unique hp hp' (endsBlock_word cl r (by decide))
        (endsBlock_word cl' r' (by decide)) hb
      obtain ⟨rfl, rfl⟩ := Terminal.cons_inj hcl
      exact ⟨rfl, rfl, rfl⟩
termination_by structural d => d

theorem Cases.unique : ∀ {d d' : Cases}, d.IsPlain → d'.IsPlain → ∀ {r r' : List Token},
    endsBlock r = true → endsBlock r' = true → d.tokens ++ r = d'.tokens ++ r' → d = d' ∧ r = r'
  | .default k b, d', hp, hp', r, r', hr, hr', h => by
    cases d' with
    | default k' b' =>
      obtain ⟨rfl, hb⟩ := Terminal.cons_inj h
      obtain ⟨rfl, rfl⟩ := Block.unique hp hp' hr hr' hb
      exact ⟨rfl, rfl⟩
    | cons k' e colon b' more => exact absurd (List.cons.inj h).1 (k.token_ne k' (by decide))
  | .cons k e colon b more, d', hp, hp', r, r', hr, hr', h => by
    cases d' with
    | default k' b' => exact absurd (List.cons.inj h).1 (k.token_ne k' (by decide))
    | cons k' e' colon' b' more' =>
      simp only [Cases.tokens, List.cons_append, List.append_assoc] at h
      obtain ⟨rfl, he⟩ := Terminal.cons_inj h
      obtain ⟨rfl, rfl, hb⟩ := Tiered.unique_before hp.1 hp'.1 (by decide) he
      obtain ⟨rfl, hmore⟩ := Block.unique hp.2.1 hp'.2.1 (more.endsBlock r) (more'.endsBlock r') hb
      obtain ⟨rfl, rfl⟩ := Cases.unique hp.2.2 hp'.2.2 hr hr' hmore
      exact ⟨rfl, rfl⟩
termination_by structural d => d

end

/-! ### Declarations -/

theorem GlobalInit.unique {d d' : GlobalInit} (hp : d.IsPlain) (hp' : d'.IsPlain)
    {semi semi' : Word ";"} {r r' : List Token}
    (h : d.tokens ++ semi.token :: r = d'.tokens ++ semi'.token :: r') :
    d = d' ∧ semi = semi' ∧ r = r' := by
  have hexpr {e : Expression} (he : e.IsPlain) (o : Word "[") {ts us : List Token} :
      e.tokens ++ ts ≠ o.token :: us := by
    intro heq
    have hnot : Avoids ["["] (e.tokens ++ ts) := Tiered.avoids he ts (by decide)
    rw [heq] at hnot
    exact absurd o.mem (avoids_cons.mp hnot)
  cases d with
  | none =>
    cases d' with
    | none => exact ⟨rfl, Terminal.cons_inj h⟩
    | expr equals | list equals =>
      exact absurd (List.cons.inj h).1 (semi.token_ne equals (by decide))
  | expr equals e =>
    cases d' with
    | none => exact absurd (List.cons.inj h).1 (equals.token_ne semi' (by decide))
    | expr equals' e' =>
      obtain ⟨rfl, he⟩ := Terminal.cons_inj h
      obtain ⟨rfl, rfl, rfl⟩ := Tiered.unique_before hp hp' (by decide) he
      exact ⟨rfl, rfl, rfl⟩
    | list equals' o es c => exact absurd (List.cons.inj h).2 (hexpr hp o)
  | list equals o es c =>
    cases d' with
    | none => exact absurd (List.cons.inj h).1 (equals.token_ne semi' (by decide))
    | expr equals' e => exact absurd (List.cons.inj h).2.symm (hexpr hp' o)
    | list equals' o' es' c' =>
      simp only [GlobalInit.tokens, List.cons_append, List.append_assoc, List.nil_append] at h
      obtain ⟨rfl, ho⟩ := Terminal.cons_inj h
      obtain ⟨rfl, hes⟩ := Terminal.cons_inj ho
      obtain ⟨rfl, hc⟩ := Expressions.unique hp hp' (avoids_terminal c _ (by decide))
        (avoids_terminal c' _ (by decide)) hes
      obtain ⟨rfl, hsemi⟩ := Terminal.cons_inj hc
      obtain ⟨rfl, rfl⟩ := Terminal.cons_inj hsemi
      exact ⟨rfl, rfl, rfl⟩

theorem GlobalItem.unique {d d' : GlobalItem} (hp : d.IsPlain) (hp' : d'.IsPlain)
    {r r' : List Token} (h : d.tokens ++ r = d'.tokens ++ r') : d = d' ∧ r = r' := by
  obtain ⟨k, x, type, value, semi⟩ := d
  obtain ⟨k', x', type', value', semi'⟩ := d'
  simp only [GlobalItem.tokens, List.cons_append, List.append_assoc, List.nil_append] at h
  obtain ⟨rfl, hx⟩ := Terminal.cons_inj h
  obtain ⟨rfl, htype⟩ := Ident.cons_inj hx
  obtain ⟨rfl, hvalue⟩ := TypeNote.unique (value.avoids semi r) (value'.avoids semi' r') htype
  obtain ⟨rfl, rfl, rfl⟩ := GlobalInit.unique hp hp' hvalue
  exact ⟨rfl, rfl⟩

theorem Parameter.unique {d d' : Parameter} {r r' : List Token} (hr : Avoids [":"] r)
    (hr' : Avoids [":"] r') (h : d.tokens ++ r = d'.tokens ++ r') : d = d' ∧ r = r' := by
  obtain ⟨x, type⟩ := d
  obtain ⟨x', type'⟩ := d'
  obtain ⟨rfl, htype⟩ := Ident.cons_inj h
  obtain ⟨rfl, rfl⟩ := TypeNote.unique hr hr' htype
  exact ⟨rfl, rfl⟩

theorem Parameters.unique : ∀ {d d' : Parameters} {r r' : List Token}, Avoids [":", ","] r →
    Avoids [":", ","] r' → d.tokens ++ r = d'.tokens ++ r' → d = d' ∧ r = r'
  | .one p, d', r, r', hr, hr', h => by
    have hp : Avoids [":"] r := hr.subset (by decide)
    cases d' with
    | one p' =>
      obtain ⟨rfl, rfl⟩ := Parameter.unique hp (hr'.subset (by decide)) h
      exact ⟨rfl, rfl⟩
    | cons p' comma ps =>
      simp only [Parameters.tokens, List.append_assoc, List.cons_append] at h
      obtain ⟨-, hcomma⟩ := Parameter.unique hp (avoids_terminal comma _ (by decide)) h
      rw [hcomma] at hr
      exact absurd (by simp [comma.text_eq]) (avoids_cons.mp hr)
  | .cons p comma ps, d', r, r', hr, hr', h => by
    have hp : Avoids [":"] (comma.token :: (ps.tokens ++ r)) := avoids_terminal comma _ (by decide)
    simp only [Parameters.tokens, List.append_assoc, List.cons_append] at h
    cases d' with
    | one p' =>
      obtain ⟨-, hcomma⟩ := Parameter.unique hp (hr'.subset (by decide)) h
      rw [← hcomma] at hr'
      exact absurd (by simp [comma.text_eq]) (avoids_cons.mp hr')
    | cons p' comma' ps' =>
      simp only [Parameters.tokens, List.append_assoc, List.cons_append] at h
      obtain ⟨rfl, hcomma⟩ := Parameter.unique hp (avoids_terminal comma' _ (by decide)) h
      obtain ⟨rfl, hps⟩ := Terminal.cons_inj hcomma
      obtain ⟨rfl, rfl⟩ := Parameters.unique hr hr' hps
      exact ⟨rfl, rfl⟩

/-- Parameters, or none, before a closing bracket. -/
theorem Parameters.unique_before {d d' : Option Parameters} {c c' : Word ")"} {r r' : List Token}
    (h : d.elim [] Parameters.tokens ++ c.token :: r =
      d'.elim [] Parameters.tokens ++ c'.token :: r') :
    d = d' ∧ c = c' ∧ r = r' := by
  have hne (ps : Parameters) (c : Word ")") {ts us : List Token} :
      ps.tokens ++ ts ≠ c.token :: us := by
    intro heq
    have hnot := ps.avoids ts
    rw [heq] at hnot
    exact absurd c.mem (avoids_cons.mp hnot)
  cases d with
  | none =>
    cases d' with
    | none => exact ⟨rfl, Terminal.cons_inj h⟩
    | some ps => exact absurd h.symm (hne ps c)
  | some ps =>
    cases d' with
    | none => exact absurd h (hne ps c')
    | some ps' =>
      obtain ⟨rfl, hc⟩ := Parameters.unique (avoids_terminal c r (by decide))
        (avoids_terminal c' r' (by decide)) h
      exact ⟨rfl, Terminal.cons_inj hc⟩

theorem FunctionItem.unique {d d' : FunctionItem} (hp : d.IsPlain) (hp' : d'.IsPlain)
    {r r' : List Token} (h : d.tokens ++ r = d'.tokens ++ r') : d = d' ∧ r = r' := by
  obtain ⟨k, x, o, params, c, type, start, body, close⟩ := d
  obtain ⟨k', x', o', params', c', type', start', body', close'⟩ := d'
  simp only [FunctionItem.tokens, FunctionItem.paramTokens, List.cons_append, List.append_assoc,
    List.nil_append] at h
  obtain ⟨rfl, hx⟩ := Terminal.cons_inj h
  obtain ⟨rfl, ho⟩ := Ident.cons_inj hx
  obtain ⟨rfl, hparams⟩ := Terminal.cons_inj ho
  obtain ⟨rfl, rfl, htype⟩ := Parameters.unique_before hparams
  obtain ⟨rfl, hstart⟩ := TypeNote.unique (avoids_terminal start _ (by decide))
    (avoids_terminal start' _ (by decide)) htype
  obtain ⟨rfl, hbody⟩ := Terminal.cons_inj hstart
  obtain ⟨rfl, hclose⟩ := Block.unique hp hp' (endsBlock_word close r (by decide))
    (endsBlock_word close' r' (by decide)) hbody
  obtain ⟨rfl, rfl⟩ := Terminal.cons_inj hclose
  exact ⟨rfl, rfl⟩

section Sequences

variable {α : Type} {f : α → List Token} {p : α → Prop} {ws : List String}
  (hstart : ∀ a, ∃ (k : Terminal ws) (ts : List Token), f a = k.token :: ts)
  (hunique : ∀ {a a' : α}, p a → p a' → ∀ {r r' : List Token}, f a ++ r = f a' ++ r' →
    a = a' ∧ r = r')

include hstart in
theorem not_avoids_flatMap (a : α) (as : List α) (r : List Token) :
    ¬ Avoids ws ((a :: as).flatMap f ++ r) := by
  obtain ⟨k, ts, hf⟩ := hstart a
  rw [List.flatMap_cons, hf]
  exact fun h => avoids_cons.mp h k.mem

include hstart hunique in
/-- Items that start with certain words, one after the other, up to something else. -/
theorem flatMap_unique : ∀ {as as' : List α}, (∀ a ∈ as, p a) → (∀ a ∈ as', p a) →
    ∀ {r r' : List Token}, Avoids ws r → Avoids ws r' →
      as.flatMap f ++ r = as'.flatMap f ++ r' → as = as' ∧ r = r'
  | [], as', _, _, r, r', hr, _, h => by
    cases as' with
    | nil => exact ⟨rfl, h⟩
    | cons a as' =>
      rw [List.flatMap_nil, List.nil_append] at h
      rw [h] at hr
      exact absurd hr (not_avoids_flatMap hstart a as' r')
  | a :: as, as', hp, hp', r, r', hr, hr', h => by
    cases as' with
    | nil =>
      rw [List.flatMap_nil, List.nil_append] at h
      rw [← h] at hr'
      exact absurd hr' (not_avoids_flatMap hstart a as r)
    | cons a' as' =>
      have hp := List.forall_mem_cons.mp hp
      have hp' := List.forall_mem_cons.mp hp'
      simp only [List.flatMap_cons, List.append_assoc] at h
      obtain ⟨rfl, has⟩ := hunique hp.1 hp'.1 h
      obtain ⟨rfl, rfl⟩ := flatMap_unique hp.2 hp'.2 hr hr' has
      exact ⟨rfl, rfl⟩

end Sequences

theorem Source.unique {d d' : Source} (hp : d.IsPlain) (hp' : d'.IsPlain)
    (h : d.tokens = d'.tokens) : d = d' := by
  obtain ⟨gs, fs⟩ := d
  obtain ⟨gs', fs'⟩ := d'
  obtain ⟨rfl, hfs⟩ := flatMap_unique (f := GlobalItem.tokens) (p := GlobalItem.IsPlain)
    (fun g => ⟨g.keyword, _, rfl⟩) GlobalItem.unique hp.globals hp'.globals (functions_avoid fs)
    (functions_avoid fs') h
  rw [← List.append_nil (fs.flatMap _), ← List.append_nil (fs'.flatMap _)] at hfs
  obtain ⟨rfl, -⟩ := flatMap_unique (f := FunctionItem.tokens) (p := FunctionItem.IsPlain)
    (fun f => ⟨f.keyword, _, rfl⟩) FunctionItem.unique hp.functions hp'.functions avoids_nil
    avoids_nil hfs
  rfl

end Scriptlet.Grammar
