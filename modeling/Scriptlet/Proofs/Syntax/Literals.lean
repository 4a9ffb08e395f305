import Scriptlet.Proofs.Syntax.Grammar

/-! # Leaves and literals

The language of a token's class tells how its text starts or what it contains, which keeps the
leaves of derivations apart: an identifier is no mark, and what stands for a number, a character or
a string is neither a word nor a mark. `literal?` finds what a token stands for.

* `denotes_of_literal?`: what it finds is what the token stands for;
* `eq_bad_of_literal?`: it fails for too long a number only;
* `literal?_of_isPlain`: it finds what a token stands for unless that is too long an integer. -/

namespace Scriptlet

open Lexical
open scoped Computability

namespace Text

/-! ### Integers -/

theorem digitValue?_of_isDigit {c : Char} (h : IsDigit c) :
    digitValue? c = some (c.toNat - 48) := by
  simp only [IsDigit, Char.le_def, UInt32.le_iff_toNat_le] at h
  have hlow : 48 ≤ c.toNat := h.1
  have hhigh : c.toNat ≤ 57 := h.2
  have hzero : (decide (48 ≤ c.toNat) && decide (c.toNat < 48 + 10)) = true := by
    simp only [Bool.and_eq_true, decide_eq_true_eq]
    omega
  have hzeros : zeroDigits = 48 :: zeroDigits.tail := rfl
  rw [digitValue?, hzeros, List.find?_cons_of_pos (by exact hzero), Option.map_some]

theorem isMargin_of_isDigit {c : Char} (h : IsDigit c) : isMargin c = false := by
  have hplain := Decimal.isPlain_of_isAsciiDigit (Lexer.isAsciiDigit_iff.mpr h)
  simp only [Decimal.isPlain, Bool.and_eq_true, Bool.not_eq_true'] at hplain
  simp [isMargin, hplain.1.2]

theorem separatesDigits_of_isDigit {w : List Char} (hw : ∀ c ∈ w, IsDigit c) :
    separatesDigits w = true := by
  have hne : '_' ∉ w := fun hmem => absurd (hw _ hmem) (by decide)
  unfold separatesDigits
  simp only [Bool.and_eq_true, decide_eq_true_eq, List.all_eq_true]
  refine ⟨⟨fun h => hne (List.mem_of_mem_head? h), fun h => hne (List.mem_of_getLast? h)⟩, ?_⟩
  rintro ⟨a, b⟩ hab
  have ha : a ≠ '_' := fun heq => hne (heq ▸ (List.of_mem_zip hab).1)
  simp [ha]

theorem filterMap_digitValue? {w : List Char} (hw : ∀ c ∈ w, IsDigit c) :
    w.filterMap digitValue? = w.map (fun c => c.toNat - 48) := by
  rw [← List.filterMap_eq_map]
  exact List.filterMap_congr fun c hc => digitValue?_of_isDigit (hw c hc)

/-- Reading a run of digits after an optional minus sign. -/
theorem readInteger_signed (neg : Bool) {w : List Char} (hw : Grammar.AreDigits w) :
    readInteger (Grammar.signText neg ++ w) =
      if maxDigits < w.length then .error (.tooManyDigits w.length)
      else .ok (if neg then -(digitsValue w : Int) else digitsValue w) := by
  obtain ⟨c, cs, rfl⟩ := List.exists_cons_of_ne_nil hw.1
  have hc : IsDigit c := hw.2 c List.mem_cons_self
  have hmargin : (Grammar.signText neg ++ c :: cs).dropWhile isMargin =
      Grammar.signText neg ++ c :: cs := by
    cases neg with
    | true => exact List.dropWhile_cons_of_neg (by decide)
    | false => exact List.dropWhile_cons_of_neg (by simp [isMargin_of_isDigit hc])
  have hnumber : ∀ d ∈ c :: cs, (decide (d = '_') || (digitValue? d).isSome) = true := by
    intro d hd
    rw [digitValue?_of_isDigit (hw.2 d hd), Option.isSome_some, Bool.or_true]
  have htake := List.takeWhile_eq_self_iff.mpr hnumber
  have hdrop := List.dropWhile_eq_nil_iff.mpr hnumber
  have hminus : c ≠ '-' := fun heq => absurd (heq ▸ hc) (by decide)
  have hplus : c ≠ '+' := fun heq => absurd (heq ▸ hc) (by decide)
  unfold readInteger readIntegerWithin
  rw [hmargin]
  cases neg <;>
    simp [Grammar.signText, hminus, hplus, htake, hdrop, separatesDigits_of_isDigit hw.2,
      filterMap_digitValue? hw.2, List.foldl_map, digitsValue]

end Text

namespace Grammar

/-! ### Escapes -/

/-- The letters that are read back after a backslash are those that the lexer lets pass there. -/
theorem isSome_escape?_iff {c : Char} : (escape? c).isSome = true ↔ c ∈ escapeLetters := by
  unfold escape? escapeLetters
  split_ifs <;> simp_all [or_assoc]

theorem escape?_eq_some_iff {c d : Char} : escape? c = some d ↔ (c, d) ∈ escapes := by
  constructor
  · intro h
    have hletters : escapeLetters.all (fun x => escapes.any fun y =>
        decide (y.1 = x ∧ escape? x = some y.2)) = true := by decide
    have hc := List.all_eq_true.mp hletters c (isSome_escape?_iff.mp (by simp [h]))
    obtain ⟨y, hy, hcy⟩ := List.any_eq_true.mp hc
    obtain ⟨rfl, hescape⟩ := of_decide_eq_true hcy
    obtain rfl := Option.some.inj (h.symm.trans hescape)
    exact hy
  · intro h
    have hall : escapes.all (fun x => decide (escape? x.1 = some x.2)) = true := by decide
    exact of_decide_eq_true (List.all_eq_true.mp hall _ h)

theorem unescapes_of_unescape? {cs ds : List Char} (h : unescape? cs = some ds) :
    Unescapes cs ds := by
  induction cs using unescape?.induct generalizing ds with
  | case1 =>
    cases h
    exact .nil
  | case2 => cases h
  | case3 c rest ih =>
    rw [unescape?] at h
    obtain ⟨x, hx, h⟩ := Option.bind_eq_some_iff.mp h
    obtain ⟨xs, hxs, h⟩ := Option.bind_eq_some_iff.mp h
    cases h
    exact .escape (escape?_eq_some_iff.mp hx) (ih hxs)
  | case4 c rest hnil hcons ih =>
    have hc : c ≠ '\\' := by
      intro heq
      cases rest with
      | nil => exact hnil heq rfl
      | cons d rest => exact hcons d rest heq rfl
    rw [unescape?.eq_4 c rest hnil hcons] at h
    obtain ⟨xs, hxs, rfl⟩ := Option.map_eq_some_iff.mp h
    exact .plain hc (ih hxs)

theorem Unescapes.unescape?_eq {cs ds : List Char} (h : Unescapes cs ds) :
    unescape? cs = some ds := by
  induction h with
  | nil => rfl
  | plain hne h ih => simp [unescape?, hne, ih]
  | escape hmem h ih => simp [unescape?, escape?_eq_some_iff.mpr hmem, ih]

/-- What may stand between quotes in one place stands for one character. -/
theorem exists_unescape?_append {p : Char → Prop} (hp : ∀ c, p c → c ≠ '\\') {x : List Char}
    (hx : x ∈ Lexer.item p) : ∃ d, ∀ cs, unescape? (x ++ cs) = (unescape? cs).map (d :: ·) := by
  rcases hx with ⟨c, hc, rfl⟩ | hx
  · have hne := hp c hc
    exact ⟨c, fun cs => by simp [unescape?, hne]⟩
  · obtain ⟨c, hc, rfl⟩ := mem_escape.mp hx
    obtain ⟨d, hd⟩ := Option.isSome_iff_exists.mp (isSome_escape?_iff.mpr hc)
    exact ⟨d, fun cs => by simp [unescape?, hd, Option.map_eq_bind]⟩

/-- What may stand between quotes has known escapes only. -/
theorem exists_unescape? {p : Char → Prop} (hp : ∀ c, p c → c ≠ '\\') {w : List Char}
    (hw : w ∈ (Lexer.item p)∗) : ∃ ds, unescape? w = some ds := by
  obtain ⟨ws, rfl, hws⟩ := Language.mem_kstar.mp hw
  clear hw
  induction ws with
  | nil => exact ⟨[], rfl⟩
  | cons v ws ih =>
    obtain ⟨d, hd⟩ := exists_unescape?_append hp (hws v List.mem_cons_self)
    obtain ⟨ds, hds⟩ := ih fun u hu => hws u (List.mem_cons_of_mem v hu)
    exact ⟨d :: ds, by rw [List.flatten_cons, hd, hds]; rfl⟩

/-- What stands between quotes is unescaped. -/
theorem unquoted?_eq {t : Token} {q : Char} {cs : List Char}
    (h : t.text.toList = q :: cs ++ [q]) :
    t.unquoted? = (unescape? cs).map String.ofList := by
  rw [Token.unquoted?, h, List.cons_append, List.drop_one, List.tail_cons, List.dropLast_concat]

/-! ### Texts of tokens -/

/-- The marks of the grammar: punctuation and operators. -/
def marks : List String :=
  ["(", ")", "[", "]", ",", ";", ":", "=", "&&", "||", "<", ">", "==", "!=", "+", "-", "*", "/",
    "%", "^"]

/-- The classes of tokens that always stand for a datum. -/
def valueKinds : List TokenKind := [.integer, .decimal, .character, .string]

theorem exists_signText {w : List Char} (h : w ∈ sign) : ∃ neg, w = signText neg := by
  rcases mem_sign.mp h with rfl | rfl
  · exact ⟨false, rfl⟩
  · exact ⟨true, rfl⟩

theorem areDigits_of_mem_whole {w : List Char} (h : w ∈ whole) : AreDigits w := by
  rcases mem_whole.mp h with rfl | ⟨c, v, rfl, hc, hv⟩
  · exact ⟨by simp, List.forall_mem_singleton.mpr (by decide)⟩
  · exact ⟨by simp, List.forall_mem_cons.mpr ⟨hc.1, hv⟩⟩

theorem integer_parts {w : List Char} (h : w ∈ TokenKind.integer.language) :
    ∃ neg u, w = signText neg ++ u ∧ AreDigits u := by
  obtain ⟨s, hs, u, hu, rfl⟩ := Language.mem_mul.mp h
  obtain ⟨neg, rfl⟩ := exists_signText hs
  exact ⟨neg, u, rfl, areDigits_of_mem_whole hu⟩

theorem decimal_parts {w : List Char} (h : w ∈ TokenKind.decimal.language) :
    ∃ neg u f, w = signText neg ++ u ++ '.' :: f ∧ AreDigits u ∧ AreDigits f := by
  obtain ⟨v, hv, f, hf, rfl⟩ := Language.mem_mul.mp h
  obtain ⟨neg, u, rfl, hu⟩ := integer_parts hv
  obtain ⟨f, rfl, hne, hf⟩ := mem_fraction.mp hf
  exact ⟨neg, u, f, rfl, hu, hne, hf⟩

theorem identifier_start {t : Token} (h : IsLexical t) (hk : t.kind = .identifier) :
    ∃ c ∈ t.text.toList.head?, IsNameStart c := by
  unfold IsLexical at h
  rw [hk] at h
  obtain ⟨c, v, htext, hc, -⟩ := mem_one_mul.mp h
  exact ⟨c, by simp [htext], hc⟩

/-- Identifiers are no marks. -/
theorem notMem_marks {t : Token} (h : IsLexical t) (hk : t.kind = .identifier) :
    t.text ∉ marks := by
  intro hmem
  have hmarks : ∀ m ∈ marks, m.toList.head?.any (fun c => decide (IsNameStart c)) = false := by
    decide
  obtain ⟨c, hc, hstart⟩ := identifier_start h hk
  have hnot := hmarks t.text hmem
  rw [hc, Option.any_some] at hnot
  exact of_decide_eq_false hnot hstart

/-- What always stands for a datum has a digit or a quote in its text. -/
theorem exists_digit_or_quote {t : Token} (h : IsLexical t) (hk : t.kind ∈ valueKinds) :
    ∃ c ∈ t.text.toList, IsDigit c ∨ c = '\'' ∨ c = '"' := by
  have hdigits {u : List Char} (hu : AreDigits u) : ∃ c ∈ u, IsDigit c := by
    obtain ⟨c, cs, rfl⟩ := List.exists_cons_of_ne_nil hu.1
    exact ⟨c, List.mem_cons_self, hu.2 c List.mem_cons_self⟩
  unfold IsLexical at h
  cases hkind : t.kind with
  | integer =>
    rw [hkind] at h
    obtain ⟨neg, u, htext, hu⟩ := integer_parts h
    obtain ⟨c, hc, hdigit⟩ := hdigits hu
    exact ⟨c, by simp [htext, hc], Or.inl hdigit⟩
  | decimal =>
    rw [hkind] at h
    obtain ⟨neg, u, f, htext, hu, -⟩ := decimal_parts h
    obtain ⟨c, hc, hdigit⟩ := hdigits hu
    exact ⟨c, by simp [htext, hc], Or.inl hdigit⟩
  | character =>
    rw [hkind] at h
    obtain ⟨cs, -, htext⟩ := (mem_quoted (c := '\'') rfl).mp h
    exact ⟨'\'', by simp [htext], Or.inr (Or.inl rfl)⟩
  | string =>
    rw [hkind] at h
    obtain ⟨cs, -, htext⟩ := (mem_quoted (c := '"') rfl).mp h
    exact ⟨'"', by simp [htext], Or.inr (Or.inr rfl)⟩
  | identifier | operator =>
    rw [hkind] at hk
    exact absurd hk (by decide)

/-- What always stands for a datum is neither a word nor a mark. -/
theorem notMem_words_append_marks {t : Token} (h : IsLexical t) (hk : t.kind ∈ valueKinds) :
    t.text ∉ words ++ marks := by
  intro hmem
  have hall : ∀ m ∈ words ++ marks,
      m.toList.all (fun c => decide (¬ (IsDigit c ∨ c = '\'' ∨ c = '"'))) = true := by
    decide
  obtain ⟨c, hc, hor⟩ := exists_digit_or_quote h hk
  exact of_decide_eq_true (List.all_eq_true.mp (hall t.text hmem) c hc) hor

/-! ### Literals -/

/-- The words that stand for a datum. -/
def constants : List String := ["NIL", "TRUE", "FALSE"]

theorem literal?_eq_none {t : Token} (hk : t.kind ∉ valueKinds) (ht : t.text ∉ constants) :
    Parser.literal? t = none := by
  simp only [constants, List.mem_cons, List.not_mem_nil, or_false, not_or] at ht
  obtain ⟨hnil, htrue, hfalse⟩ := ht
  rw [Parser.literal?, if_neg hnil, if_neg htrue, if_neg hfalse]
  cases hkind : t.kind with
  | identifier | operator => rfl
  | integer | decimal | character | string =>
    rw [hkind] at hk
    exact absurd (by decide) hk

/-- Reading the text of a decimal token. -/
theorem ofText_decimal {t : Token} {neg : Bool} {w f : List Char} (hw : AreDigits w)
    (hf : AreDigits f) (htext : t.text.toList = signText neg ++ w ++ '.' :: f) :
    Decimal.ofText t.text = Decimal.ofParts neg (Text.digitsValue (w ++ f)) (-f.length) := by
  have hlayout : Decimal.layout w f none = w ++ '.' :: f := by
    rw [Decimal.layout, if_neg hf.1, Decimal.exponentText, List.append_nil]
  have hread := Decimal.ofText_layout hw.1 (fun c hc => Lexer.isAsciiDigit_iff.mpr (hw.2 c hc))
    (fun c hc => Lexer.isAsciiDigit_iff.mpr (hf.2 c hc)) neg none
  have heq : t.text = String.ofList (if neg then '-' :: Decimal.layout w f none
      else Decimal.layout w f none) := by
    rw [← String.toList_inj, htext, String.toList_ofList, hlayout]
    cases neg <;> rfl
  rw [heq, hread]
  simp

theorem denotes_of_quoted {t : Token} {e : Expr} {k : LiteralKind} {q : Char} {cs : List Char}
    (htext : t.text.toList = q :: cs ++ [q]) (h : Parser.quoted t k = .ok e) :
    ∃ ds, e = .literal (.plain (.str (String.ofList ds))) k none ∧ Unescapes cs ds := by
  unfold Parser.quoted at h
  rw [unquoted?_eq htext] at h
  cases hds : unescape? cs with
  | none =>
    rw [hds] at h
    cases h
  | some ds =>
    rw [hds] at h
    cases h
    exact ⟨ds, rfl, unescapes_of_unescape? hds⟩

theorem denotes_of_literal? {t : Token} {e : Expr} (ht : IsLexical t)
    (h : Parser.literal? t = some (.ok e)) :
    ∃ v k, e = .literal v k none ∧ Denotes t v k := by
  unfold IsLexical at ht
  unfold Parser.literal? at h
  split at h
  · next hnil =>
    cases h
    exact ⟨_, _, rfl, .nil hnil⟩
  split at h
  · next htrue =>
    cases h
    exact ⟨_, _, rfl, .yes htrue⟩
  split at h
  · next hfalse =>
    cases h
    exact ⟨_, _, rfl, .no hfalse⟩
  split at h
  · next hkind =>
    rw [hkind] at ht
    obtain ⟨neg, w, htext, hw⟩ := integer_parts ht
    rw [htext, Text.readInteger_signed neg hw] at h
    by_cases hlen : Text.maxDigits < w.length
    · rw [if_pos hlen] at h
      cases h
    · rw [if_neg hlen] at h
      cases h
      exact ⟨_, _, rfl, .integer hkind hw htext⟩
  · next hkind =>
    rw [hkind] at ht
    obtain ⟨neg, w, f, htext, hw, hf⟩ := decimal_parts ht
    rw [ofText_decimal hw hf htext] at h
    split at h
    · next d hd =>
      cases h
      obtain ⟨rfl, hrange⟩ := Decimal.ofParts_eq_ok_iff.mp hd
      exact ⟨_, _, rfl, .decimal hkind hw hf htext hrange⟩
    · cases h
  · next hkind =>
    rw [hkind] at ht
    obtain ⟨cs, -, htext⟩ := (mem_quoted (c := '\'') rfl).mp ht
    obtain ⟨ds, rfl, hds⟩ := denotes_of_quoted htext (Option.some.inj h)
    exact ⟨_, _, rfl, .character hkind htext hds⟩
  · next hkind =>
    rw [hkind] at ht
    obtain ⟨cs, -, htext⟩ := (mem_quoted (c := '"') rfl).mp ht
    obtain ⟨ds, rfl, hds⟩ := denotes_of_quoted htext (Option.some.inj h)
    exact ⟨_, _, rfl, .string hkind htext hds⟩
  · cases h

/-- A character token stands for one character. -/
theorem unquoted?_character {t : Token} (ht : IsLexical t) (hk : t.kind = .character) :
    ∃ c, t.unquoted? = some (String.ofList [c]) := by
  unfold IsLexical at ht
  rw [hk] at ht
  obtain ⟨x, hx, htext⟩ := (mem_quoted (c := '\'') rfl).mp ht
  obtain ⟨c, hc⟩ := exists_unescape?_append (fun _ h => h.1) hx
  have hone := hc []
  rw [List.append_nil] at hone
  exact ⟨c, by rw [unquoted?_eq htext, hone]; rfl⟩

/-- A string token stands for a text. -/
theorem unquoted?_string {t : Token} (ht : IsLexical t) (hk : t.kind = .string) :
    ∃ v, t.unquoted? = some v := by
  unfold IsLexical at ht
  rw [hk] at ht
  obtain ⟨cs, hcs, htext⟩ := (mem_quoted (c := '"') rfl).mp ht
  obtain ⟨ds, hds⟩ := exists_unescape? (fun _ hc => hc.1.1) hcs
  exact ⟨_, by rw [unquoted?_eq htext, hds]; rfl⟩

theorem exists_quoted {t : Token} (ht : IsLexical t)
    (hk : t.kind = .character ∨ t.kind = .string) (k : LiteralKind) :
    ∃ e, Parser.quoted t k = .ok e := by
  obtain ⟨v, hv⟩ : ∃ v, t.unquoted? = some v := by
    rcases hk with hk | hk
    · obtain ⟨c, hc⟩ := unquoted?_character ht hk
      exact ⟨_, hc⟩
    · exact unquoted?_string ht hk
  rw [Parser.quoted, hv]
  exact ⟨_, rfl⟩

/-- A token that stands for something stands for a datum unless it is too long. -/
theorem eq_bad_of_literal? {t : Token} {e : ParseError} (ht : IsLexical t)
    (h : Parser.literal? t = some (.error e)) :
    (∃ p, e = .badInteger t.text p) ∨ ∃ s, e = .badDecimal s := by
  unfold Parser.literal? at h
  iterate 3
    split at h
    · cases h
  split at h
  · cases hread : Text.readInteger t.text.toList with
    | ok n => simp [hread] at h
    | error p =>
      simp only [hread, Option.some.injEq, Except.error.injEq] at h
      exact .inl ⟨p, h.symm⟩
  · cases hread : Decimal.ofText t.text with
    | ok d => simp [hread] at h
    | error s =>
      simp only [hread, Option.some.injEq, Except.error.injEq] at h
      exact .inr ⟨s, h.symm⟩
  · next hk =>
    obtain ⟨e, he⟩ := exists_quoted ht (.inl hk) .character
    rw [he] at h
    cases h
  · next hk =>
    obtain ⟨e, he⟩ := exists_quoted ht (.inr hk) .string
    rw [he] at h
    cases h
  · cases h

/-- The digits of an integer token are what follows its sign. -/
theorem countP_signText {neg : Bool} {w : List Char} (hw : AreDigits w) :
    (signText neg ++ w).countP Text.isAsciiDigit = w.length := by
  have hall : w.countP Text.isAsciiDigit = w.length :=
    List.countP_eq_length.mpr fun c hc => Lexer.isAsciiDigit_iff.mpr (hw.2 c hc)
  rw [List.countP_append, hall]
  cases neg <;> simp [signText, Text.isAsciiDigit]

theorem literal?_of_isPlain {l : Literal} (hp : l.IsPlain) :
    Parser.literal? l.token = some (.ok (.literal l.value l.kind none)) := by
  obtain ⟨t, hlex, v, k, hdenotes⟩ := l
  -- what is not a constant is read by its class
  have hconst (hk : t.kind ∈ valueKinds) :
      t.text ≠ "NIL" ∧ t.text ≠ "TRUE" ∧ t.text ≠ "FALSE" := by
    have hnot := notMem_words_append_marks hlex hk
    refine ⟨?_, ?_, ?_⟩ <;> exact fun h => hnot (h ▸ by decide)
  cases hdenotes with
  | nil h => simp [Parser.literal?, h]
  | yes h => simp [Parser.literal?, h]
  | no h => simp [Parser.literal?, h]
  | @integer neg w hkind hw htext =>
    obtain ⟨hnil, htrue, hfalse⟩ := hconst (by simp [hkind, valueKinds])
    have hlen : ¬ Text.maxDigits < w.length := by
      have hcount := hp hkind
      rw [htext, countP_signText hw] at hcount
      omega
    simp [Parser.literal?, hnil, htrue, hfalse, hkind, htext, Text.readInteger_signed neg hw, hlen]
  | @decimal neg w f hkind hw hf htext hrange =>
    obtain ⟨hnil, htrue, hfalse⟩ := hconst (by simp [hkind, valueKinds])
    have hread := Decimal.ofParts_eq_ok_iff.mpr ⟨rfl, hrange⟩
    simp [Parser.literal?, hnil, htrue, hfalse, hkind, ofText_decimal hw hf htext, hread]
  | character hkind htext hds | string hkind htext hds =>
    obtain ⟨hnil, htrue, hfalse⟩ := hconst (by simp [hkind, valueKinds])
    simp [Parser.literal?, hnil, htrue, hfalse, hkind, Parser.quoted, unquoted?_eq htext,
      hds.unescape?_eq]

/-- A token that stands for a datum always does, or is a constant. -/
theorem Denotes.kind_or_constant {t : Token} {v : Datum} {k : LiteralKind} (h : Denotes t v k) :
    t.kind ∈ valueKinds ∨ t.text ∈ constants := by
  cases h with
  | nil h | yes h | no h => exact Or.inr (by simp [h, constants])
  | integer h | decimal h | character h | string h => exact Or.inl (by simp [h, valueKinds])

end Grammar

end Scriptlet
