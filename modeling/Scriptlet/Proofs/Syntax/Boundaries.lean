import Scriptlet.Proofs.Syntax.Literals
import Scriptlet.Proofs.Syntax.Written

/-! # Where derivations start and end

A reader decides by the next token what to read, and it stops where the next token does not go on
with what it has read. The first half is about single tokens; the second half says, for each
nonterminal, which tokens its plain derivations start with and which must not come after them.

An expression goes on with an operator, and after a name also with an opening bracket: `Ends` says
that neither comes next. In the middle of an expression this follows from what comes next
(`Chain.ends_first`): an operator of a tier goes on with no operand of the tier. -/

namespace Scriptlet.Grammar

open Scriptlet.Parser (Tier take? at? endsBlock blockEnds)

/-! ### The tables of the readers -/

theorem operators_eq (l : Tier) : l.operators = operators l := by
  cases l <;> rfl

theorem tighter?_eq_some_iff {l next : Tier} : l.tighter? = some next ↔ Tighter l next := by
  constructor
  · intro h
    cases l <;> cases h <;> constructor
  · intro h
    cases h <;> rfl

/-! ### Single tokens -/

/-- Whether the texts of tokens belong to the languages of their classes. -/
def Lexed (ts : List Token) : Prop := ∀ t ∈ ts, IsLexical t

theorem Lexed.right {ts us : List Token} (h : Lexed (ts ++ us)) : Lexed us :=
  fun t ht => h t (List.mem_append_right ts ht)

theorem Lexed.tail {t : Token} {ts : List Token} (h : Lexed (t :: ts)) : Lexed ts :=
  fun u hu => h u (List.mem_cons_of_mem t hu)

/-- Whether the next token, if there is one, has none of some texts. -/
def Avoids (ws : List String) (ts : List Token) : Prop := ∀ t ∈ ts.head?, t.text ∉ ws

theorem avoids_nil {ws : List String} : Avoids ws [] := nofun

theorem avoids_none {ts : List Token} : Avoids [] ts := fun _ _ => List.not_mem_nil

theorem avoids_cons {ws : List String} {t : Token} {ts : List Token} :
    Avoids ws (t :: ts) ↔ t.text ∉ ws := by
  simp [Avoids]

theorem Avoids.subset {ws vs : List String} {ts : List Token} (h : Avoids ws ts) (hvs : vs ⊆ ws) :
    Avoids vs ts :=
  fun t ht hmem => h t ht (hvs hmem)

theorem Avoids.append {ws vs : List String} {ts : List Token} (hws : Avoids ws ts)
    (hvs : Avoids vs ts) : Avoids (ws ++ vs) ts :=
  fun t ht hmem => (List.mem_append.mp hmem).elim (hws t ht) (hvs t ht)

theorem avoids_terminal {ws vs : List String} (k : Terminal vs) (ts : List Token)
    (h : ∀ w ∈ vs, w ∉ ws) : Avoids ws (k.token :: ts) :=
  avoids_cons.mpr (h _ k.mem)

theorem take?_eq_none_iff {ws : List String} {ts : List Token} :
    take? ws ts = none ↔ Avoids ws ts := by
  cases ts with
  | nil => simp [take?, Avoids]
  | cons t ts => simp [take?, Avoids]

theorem at?_eq_false_iff {w : String} {ts : List Token} : at? w ts = false ↔ Avoids [w] ts := by
  cases ts with
  | nil => simp [at?, Avoids]
  | cons t ts => simp [at?, Avoids]

@[simp] theorem take?_terminal {ws : List String} (k : Terminal ws) (ts : List Token) :
    take? ws (k.token :: ts) = some (k.token.text, ts) := by
  simp [take?, k.mem]

theorem Terminal.text_eq {w : String} (k : Word w) : k.token.text = w :=
  List.mem_singleton.mp k.mem

/-- Words and marks do not always stand for a datum. -/
theorem Terminal.kind_notMem {ws : List String} (k : Terminal ws) (h : ws ⊆ words ++ marks) :
    k.token.kind ∉ valueKinds :=
  fun hk => notMem_words_append_marks k.isLexical hk (h k.mem)

@[simp] theorem at?_word {w v : String} (k : Word w) (ts : List Token) :
    at? v (k.token :: ts) = decide (w = v) := by
  simp [at?, k.text_eq]

@[simp] theorem word_word {stop : Nat} {w : String} (k : Word w) (ts : List Token) :
    Parser.word stop w (k.token :: ts) = .ok ts := by
  simp [Parser.word, k.text_eq]

@[simp] theorem identifier_ident {stop : Nat} {w : Wanted} (x : Ident) (ts : List Token) :
    Parser.identifier stop w (x.token :: ts) = .ok (x.name, ts) := by
  simp [Parser.identifier, x.kind_eq, Ident.name]

theorem exists_terminal {ws : List String} {ts rest : List Token} {s : String} (hts : Lexed ts)
    (h : take? ws ts = some (s, rest)) :
    ∃ k : Terminal ws, ts = k.token :: rest ∧ k.token.text = s := by
  cases ts with
  | nil => cases h
  | cons t ts =>
    by_cases hmem : t.text ∈ ws
    · rw [take?, if_pos (List.contains_iff_mem.mpr hmem)] at h
      cases h
      exact ⟨⟨t, hts t List.mem_cons_self, hmem⟩, rfl, rfl⟩
    · rw [take?, if_neg (mt List.contains_iff_mem.mp hmem)] at h
      cases h

theorem exists_word_of_at? {w : String} {ts : List Token} (hts : Lexed ts) (h : at? w ts = true) :
    ∃ (k : Word w) (rest : List Token), ts = k.token :: rest := by
  cases ts with
  | nil => cases h
  | cons t ts =>
    have htext : t.text = w := by simpa [at?] using h
    exact ⟨⟨t, hts t List.mem_cons_self, List.mem_singleton.mpr htext⟩, ts, rfl⟩

theorem exists_word {stop : Nat} {w : String} {ts rest : List Token} (hts : Lexed ts)
    (h : Parser.word stop w ts = .ok rest) : ∃ k : Word w, ts = k.token :: rest := by
  cases ts with
  | nil => cases h
  | cons t ts =>
    by_cases htext : t.text = w
    · rw [Parser.word, if_pos htext] at h
      cases h
      exact ⟨⟨t, hts t List.mem_cons_self, List.mem_singleton.mpr htext⟩, rfl⟩
    · rw [Parser.word, if_neg htext] at h
      exact (Parser.fail_ne_ok h).elim

theorem exists_ident {stop : Nat} {w : Wanted} {ts rest : List Token} {n : Name} (hts : Lexed ts)
    (h : Parser.identifier stop w ts = .ok (n, rest)) :
    ∃ x : Ident, ts = x.token :: rest ∧ x.name = n := by
  cases ts with
  | nil => cases h
  | cons t ts =>
    by_cases hkind : t.kind = .identifier
    · rw [Parser.identifier, if_pos hkind] at h
      cases h
      exact ⟨⟨t, hts t List.mem_cons_self, hkind⟩, rfl, rfl⟩
    · rw [Parser.identifier, if_neg hkind] at h
      exact (Parser.fail_ne_ok h).elim

/-- Whether a block that has been read ends before the next token. -/
def EndsBlock (ts : List Token) : Prop :=
  ∀ t ∈ ts.head?, t.text ∈ ["END", "ELSE", "CASE", "DEFAULT"]

theorem endsBlock_iff {ts : List Token} : endsBlock ts = true ↔ EndsBlock ts := by
  cases ts with
  | nil => simp [endsBlock, EndsBlock]
  | cons t ts => simp [endsBlock, EndsBlock, blockEnds]

/-- A block ends before a word that ends blocks. -/
theorem endsBlock_word {w : String} (k : Word w) (ts : List Token) (hw : w ∈ blockEnds) :
    endsBlock (k.token :: ts) = true := by
  simp [endsBlock, k.text_eq, hw]

/-! ### The ends of expressions -/

/-- The operators inside the operands of a tier. -/
def inner : Tier → List String
  | .logical => operators .comparison ++ (operators .additive ++ operators .multiplicative)
  | .comparison => operators .additive ++ operators .multiplicative
  | .additive => operators .multiplicative
  | .multiplicative => []

/-- The operators that a tier goes on with. -/
def reach (l : Tier) : List String := operators l ++ inner l

theorem Tighter.inner_eq {l next : Tier} (h : Tighter l next) : inner l = reach next := by
  cases h <;> rfl

/-- The brackets that a name goes on with. -/
def brackets : List String := ["(", "["]

/-- Whether a token is a name, and no word for a datum. -/
def IsName (t : Token) : Prop := t.kind = .identifier ∧ t.text ∉ constants

theorem Ident.IsPlain.isName {x : Ident} (hp : x.IsPlain) : IsName x.token :=
  ⟨x.kind_eq, fun hmem => hp ((by decide : constants ⊆ words) hmem)⟩

theorem Denotes.not_isName {t : Token} {v : Datum} {k : LiteralKind} (h : Denotes t v k) :
    ¬ IsName t := by
  rintro ⟨hkind, hconst⟩
  rcases h.kind_or_constant with hk | hc
  · rw [hkind] at hk
    exact absurd hk (by decide)
  · exact hconst hc

/-- Whether an expression that has been read ends before the next token: that is none of the
operators that the expression goes on with, and no opening bracket after a name. -/
structure Ends (ops : List String) (ts rest : List Token) : Prop where
  operator : Avoids ops rest
  bracket : ∀ t ∈ ts.getLast?, IsName t → Avoids brackets rest

namespace Ends

variable {ops : List String} {ts us rest : List Token}

theorem of_avoids (h : Avoids (ops ++ brackets) rest) : Ends ops ts rest :=
  ⟨h.subset (List.subset_append_left ..), fun _ _ _ => h.subset (List.subset_append_right ..)⟩

theorem of_terminal {vs : List String} (k : Terminal vs) (rest : List Token)
    (h : ∀ w ∈ vs, w ∉ ops ++ brackets) : Ends ops ts (k.token :: rest) :=
  of_avoids (avoids_terminal k rest h)

theorem of_nil : Ends ops ts [] :=
  of_avoids avoids_nil

/-- Only the last tokens matter. -/
theorem append_iff (hne : us ≠ []) : Ends ops (ts ++ us) rest ↔ Ends ops us rest := by
  have hlast : (ts ++ us).getLast? = us.getLast? := by
    rw [List.getLast?_append, Option.or_of_isSome (by simpa using hne)]
  exact ⟨fun h => ⟨h.operator, hlast ▸ h.bracket⟩, fun h => ⟨h.operator, hlast ▸ h.bracket⟩⟩

/-- After a closing bracket only an operator goes on. -/
theorem of_closing {w : String} (ts : List Token) (k : Word w) (hw : w ∈ marks)
    (h : Avoids ops rest) : Ends ops (ts ++ [k.token]) rest := by
  refine ⟨h, fun t ht hname => ?_⟩
  rw [List.getLast?_concat] at ht
  cases ht
  have hmark := notMem_marks k.isLexical hname.1
  rw [k.text_eq] at hmark
  exact absurd hw hmark

end Ends

mutual

theorem Tiered.tokens_ne_nil {l : Tier} : ∀ d : Tiered l, d.tokens ≠ []
  | .mk first more => by
    rw [Tiered.tokens]
    exact List.append_ne_nil_of_left_ne_nil first.tokens_ne_nil _

theorem Operand.tokens_ne_nil {l : Tier} : ∀ d : Operand l, d.tokens ≠ []
  | .tiered _ e => by
    rw [Operand.tokens]
    exact e.tokens_ne_nil
  | .primary e => by
    rw [Operand.tokens]
    cases e <;> exact List.cons_ne_nil _ _

end

/-- Only the last operand of a chain matters for where it ends. -/
theorem Chain.ends_cons_iff {l : Tier} {ops : List String} {ts rest : List Token}
    {op : Terminal (operators l)} {right : Operand l} {more : Chain l} :
    Ends ops (ts ++ (Chain.cons op right more).tokens) rest ↔
      Ends ops (right.tokens ++ more.tokens) rest := by
  have hne := List.append_ne_nil_of_left_ne_nil right.tokens_ne_nil more.tokens
  rw [Chain.tokens, List.append_cons]
  exact Ends.append_iff hne

/-- An operand ends where the operators after it start. -/
theorem Chain.ends_first {l : Tier} {ts rest : List Token} (d : Chain l)
    (h : Ends (reach l) (ts ++ d.tokens) rest) : Ends (inner l) ts (d.tokens ++ rest) := by
  cases d with
  | nil =>
    rw [Chain.tokens, List.append_nil] at h
    exact ⟨h.operator.subset (List.subset_append_right ..), h.bracket⟩
  | cons op right more =>
    have hops : ∀ l : Tier, ∀ w ∈ operators l, w ∉ inner l ++ brackets := by
      intro l
      cases l <;> decide
    exact Ends.of_terminal op _ (hops l)

/-! ### The starts of expressions -/

/-- The texts out of words and marks that an expression starts with. -/
def openers : List String := "(" :: constants

/-- Whether a token starts a plain expression: it is a word or a mark only if it is an opener. -/
def Starts (t : Token) : Prop := t.text ∈ words ++ marks → t.text ∈ openers

theorem Starts.notMem {t : Token} (h : Starts t) {ws : List String}
    (hws : ∀ w ∈ ws, w ∈ words ++ marks ∧ w ∉ openers) : t.text ∉ ws :=
  fun hmem => (hws _ hmem).2 (h (hws _ hmem).1)

theorem Primary.starts {d : Primary} (hp : d.IsPlain) :
    ∃ t ts, d.tokens = t :: ts ∧ Starts t := by
  cases d with
  | literal l =>
    refine ⟨l.token, [], rfl, fun hmem => ?_⟩
    rcases l.denotes.kind_or_constant with hk | hconst
    · exact absurd hmem (notMem_words_append_marks l.isLexical hk)
    · exact List.mem_cons_of_mem _ hconst
  | group o e c => exact ⟨o.token, _, rfl, fun _ => by simp [o.text_eq, openers]⟩
  | reference x tail =>
    refine ⟨x.token, _, rfl, fun hmem => ?_⟩
    rcases List.mem_append.mp hmem with hword | hmark
    · exact absurd hword hp.1
    · exact absurd hmark (notMem_marks x.isLexical x.kind_eq)

mutual

theorem Tiered.starts {l : Tier} :
    ∀ {d : Tiered l}, d.IsPlain → ∃ t ts, d.tokens = t :: ts ∧ Starts t
  | .mk first more, hp => by
    obtain ⟨t, ts, htokens, ht⟩ := Operand.starts hp.1
    refine ⟨t, ts ++ more.tokens, ?_, ht⟩
    rw [Tiered.tokens, htokens, List.cons_append]

theorem Operand.starts {l : Tier} :
    ∀ {d : Operand l}, d.IsPlain → ∃ t ts, d.tokens = t :: ts ∧ Starts t
  | .tiered _ e, hp => by
    obtain ⟨t, ts, htokens, ht⟩ := Tiered.starts hp
    exact ⟨t, ts, by rw [Operand.tokens, htokens], ht⟩
  | .primary e, hp => by
    obtain ⟨t, ts, htokens, ht⟩ := Primary.starts hp
    exact ⟨t, ts, by rw [Operand.tokens, htokens], ht⟩

end

/-- What comes next is not one of the words and marks that no expression starts with. -/
theorem Tiered.avoids {l : Tier} {d : Tiered l} (hp : d.IsPlain) (rest : List Token)
    {ws : List String} (hws : ∀ w ∈ ws, w ∈ words ++ marks ∧ w ∉ openers) :
    Avoids ws (d.tokens ++ rest) := by
  obtain ⟨t, ts, htokens, ht⟩ := Tiered.starts hp
  rw [htokens, List.cons_append]
  exact avoids_cons.mpr (ht.notMem hws)

theorem Expressions.avoids {d : Expressions} (hp : d.IsPlain) (rest : List Token)
    {ws : List String} (hws : ∀ w ∈ ws, w ∈ words ++ marks ∧ w ∉ openers) :
    Avoids ws (d.tokens ++ rest) := by
  cases d with
  | one e => exact Tiered.avoids hp rest hws
  | cons e comma es =>
    rw [Expressions.tokens, List.append_assoc]
    exact Tiered.avoids hp.1 _ hws

/-! ### The starts of statements -/

/-- The word that a statement starts with, if it starts with one. -/
def Statement.keyword? : Statement → Option String
  | .declare _ _ _ _ _ => some "LET"
  | .branch _ _ _ _ _ _ => some "IF"
  | .switch _ _ _ _ => some "SWITCH"
  | .loop _ _ _ _ _ => some "WHILE"
  | .ret _ _ _ => some "RETURN"
  | .simple _ _ _ => none

/-- The words that statements start with. -/
def statementWords : List String := ["LET", "IF", "SWITCH", "WHILE", "RETURN"]

/-- The first token of a statement tells which it is, and no block ends with it. -/
theorem Statement.starts {d : Statement} (hp : d.IsPlain) :
    ∃ t ts, d.tokens = t :: ts ∧
      (if t.text ∈ statementWords then some t.text else none) = d.keyword? ∧
      t.text ∉ blockEnds := by
  cases d with
  | declare k | branch k | switch k | loop k | ret k =>
    refine ⟨k.token, _, rfl, ?_, ?_⟩ <;>
      simp [k.text_eq, statementWords, Statement.keyword?, blockEnds]
  | simple e value semi =>
    obtain ⟨t, ts, htokens, ht⟩ := Tiered.starts hp.1
    have hword : t.text ∉ statementWords := ht.notMem (by decide)
    have hend : t.text ∉ blockEnds := ht.notMem (by decide)
    refine ⟨t, ts ++ (value.tokens ++ [semi.token]), ?_, if_neg hword, hend⟩
    rw [Statement.tokens, htokens, List.cons_append]

/-- The first token of cases goes on with no expression. -/
theorem Cases.avoids (d : Cases) (rest : List Token) :
    Avoids (reach .logical ++ brackets) (d.tokens ++ rest) := by
  cases d with
  | default k b => exact avoids_terminal k _ (by decide)
  | cons k e colon b more => exact avoids_terminal k _ (by decide)

/-- A block ends before cases. -/
theorem Cases.endsBlock (d : Cases) (rest : List Token) :
    Parser.endsBlock (d.tokens ++ rest) = true := by
  cases d with
  | default k b => exact endsBlock_word k _ (by decide)
  | cons k e colon b more => exact endsBlock_word k _ (by decide)

/-- No block ends before a statement. -/
theorem Statement.not_endsBlock {d : Statement} (hp : d.IsPlain) (rest : List Token) :
    ¬ Parser.endsBlock (d.tokens ++ rest) = true := by
  obtain ⟨t, ts, htokens, -, ht⟩ := Statement.starts hp
  simpa [htokens, Parser.endsBlock] using ht

/-- A block ends before what is done otherwise, and before the end of a branch. -/
theorem Else.endsBlock (d : Else) (cl : Word "END") (rest : List Token) :
    Parser.endsBlock (d.tokens ++ cl.token :: rest) = true := by
  cases d with
  | none => exact endsBlock_word cl rest (by decide)
  | some k b => exact endsBlock_word k _ (by decide)

theorem Statement.tokens_ne_nil (d : Statement) : d.tokens ≠ [] := by
  cases d with
  | simple e value semi =>
    rw [Statement.tokens]
    exact List.append_ne_nil_of_left_ne_nil e.tokens_ne_nil _
  | _ => exact List.cons_ne_nil _ _

/-! ### What follows names and types -/

/-- What follows the type of a variable is no colon. -/
theorem Init.avoids (d : Init) (semi : Word ";") (rest : List Token) :
    Avoids [":"] (d.tokens ++ semi.token :: rest) := by
  cases d with
  | none => exact avoids_terminal semi rest (by decide)
  | some equals e => exact avoids_terminal equals _ (by decide)

/-- What follows an expression in a statement goes on with no expression. -/
theorem Init.avoids_operator (d : Init) (semi : Word ";") (rest : List Token) :
    Avoids (reach .logical ++ brackets) (d.tokens ++ semi.token :: rest) := by
  cases d with
  | none => exact avoids_terminal semi rest (by decide)
  | some equals e => exact avoids_terminal equals _ (by decide)

theorem GlobalInit.avoids (d : GlobalInit) (semi : Word ";") (rest : List Token) :
    Avoids [":"] (d.tokens ++ semi.token :: rest) := by
  cases d with
  | none => exact avoids_terminal semi rest (by decide)
  | expr equals _ | list equals _ _ _ => exact avoids_terminal equals _ (by decide)

theorem Parameters.avoids (d : Parameters) (rest : List Token) :
    Avoids [")"] (d.tokens ++ rest) := by
  have hident (x : Ident) (ts : List Token) : Avoids [")"] (x.token :: ts) := by
    refine avoids_cons.mpr fun hmem => ?_
    exact notMem_marks x.isLexical x.kind_eq ((by decide : [")"] ⊆ marks) hmem)
  cases d with
  | one p => exact hident p.x _
  | cons p comma ps => exact hident p.x _

/-- Functions come after the last global variable. -/
theorem functions_avoid (fs : List FunctionItem) :
    Avoids ["LIST", "VAR", "VAL"] (fs.flatMap FunctionItem.tokens) := by
  cases fs with
  | nil => exact avoids_nil
  | cons f fs => exact avoids_terminal f.keyword _ (by decide)

end Scriptlet.Grammar
