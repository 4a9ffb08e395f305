import Scriptlet.Proofs.Token.Segmentation

/-! # Tokens written apart

The lexer takes the longest start of a form, so what it takes depends on what follows. Nothing that
is longer is taken beyond a boundary, which is a blank, a quote or the end: names, numbers and
double operators hold no blanks and no quotes, and a quoted token ends at its closing quote whatever
comes next. So what is taken in front of a boundary does not depend on what stands behind it, and
the tokens of a text are read again from every text that writes them in their order with blanks
between them.

* `Token.IsLexeme.cut`: a lexeme in front of a boundary is the lexeme there.
* `tokenize_of_spaced`: tokens written apart are read again, at other offsets.
* `tokenize_of_mem`: a text of a class is read as one token of the class. -/

namespace Scriptlet

open scoped Computability

/-- Whether characters are blank. -/
def AreBlank (cs : List Char) : Prop :=
  ∀ c ∈ cs, Text.isBlank c = true

/-- Whether a text writes the texts of tokens in their order: at least one blank stands between two
of them, and any number before the first and after the last. -/
inductive Spaced : List Char → List Token → Prop where
  | nil {gap : List Char} : AreBlank gap → Spaced gap []
  | last {before after : List Char} {t : Token} : AreBlank before → AreBlank after →
      Spaced (before ++ t.text.toList ++ after) [t]
  | cons {before cs : List Char} {c : Char} {t u : Token} {ts : List Token} : AreBlank before →
      Text.isBlank c = true → Spaced cs (u :: ts) →
      Spaced (before ++ t.text.toList ++ c :: cs) (t :: u :: ts)

/-- Whether a token is the same token at any other place. -/
structure Token.Same (t u : Token) : Prop where
  kind_eq : u.kind = t.kind
  text_eq : u.text = t.text

/-- Whether no token that started before a character goes on with it, unless the token is quoted. -/
def Lexical.IsBoundary (c : Char) : Prop :=
  Text.isBlank c = true ∨ c = '\'' ∨ c = '"'

/-- Whether a text is at its end or goes on with a boundary. -/
def EndsToken (cs : List Char) : Prop :=
  ∀ c ∈ cs.head?, Lexical.IsBoundary c

namespace Lexical

/-! ### Boundaries in tokens -/

/-- Blanks lie outside the visible part of ASCII. -/
theorem lt_or_lt_of_isBlank {c : Char} (h : Text.isBlank c = true) :
    c.toNat < 33 ∨ 126 < c.toNat := by
  simp only [Text.isBlank, Text.blankRanges, Text.inRanges_cons, Text.inRanges_nil, Bool.or_eq_true,
    Bool.and_eq_true, decide_eq_true_eq, Bool.false_eq_true, or_false] at h
  omega

theorem not_isDigit_of_isBoundary {c : Char} (h : IsBoundary c) : ¬ IsDigit c := by
  rcases h with h | rfl | rfl
  · have hrange := lt_or_lt_of_isBlank h
    rintro ⟨hlow, hhigh⟩
    simp only [Char.le_def, UInt32.le_iff_toNat_le] at hlow hhigh
    change 48 ≤ c.toNat at hlow
    change c.toNat ≤ 57 at hhigh
    omega
  · decide
  · decide

theorem not_isLetter_of_isBoundary {c : Char} (h : IsBoundary c) : ¬ IsLetter c := by
  rcases h with h | rfl | rfl
  · have hrange := lt_or_lt_of_isBlank h
    rintro (⟨hlow, hhigh⟩ | ⟨hlow, hhigh⟩)
    all_goals
      simp only [Char.le_def, UInt32.le_iff_toNat_le] at hlow hhigh
    · change 97 ≤ c.toNat at hlow
      change c.toNat ≤ 122 at hhigh
      omega
    · change 65 ≤ c.toNat at hlow
      change c.toNat ≤ 90 at hhigh
      omega
  · decide
  · decide

/-- The characters of numbers and operators that are no boundaries. -/
theorem notMem_of_isBoundary {c : Char} (h : IsBoundary c) :
    c ∉ ['-', '_', '.', '!', '=', '&', '|'] := by
  rcases h with h | rfl | rfl
  · intro hmem
    simp only [List.mem_cons, List.not_mem_nil, or_false] at hmem
    rcases hmem with rfl | rfl | rfl | rfl | rfl | rfl | rfl <;> cases h
  · decide
  · decide

theorem not_isNamePart_of_isBoundary {c : Char} (h : IsBoundary c) : ¬ IsNamePart c := by
  rintro (hc | hc | rfl | rfl)
  · exact not_isLetter_of_isBoundary h hc
  · exact not_isDigit_of_isBoundary h hc
  · exact notMem_of_isBoundary h (by decide)
  · exact notMem_of_isBoundary h (by decide)

theorem isNamePart_of_mem {w : List Char} (h : w ∈ TokenKind.identifier.language) :
    ∀ c ∈ w.tail, IsNamePart c := by
  obtain ⟨c, v, rfl, -, hv⟩ := mem_one_mul.mp h
  exact mem_star_one.mp hv

/-- A number is made of digits, a sign and a point. -/
theorem mem_number {w : List Char} (h : w ∈ Form.number.language) :
    ∀ c ∈ w, c = '-' ∨ IsDigit c ∨ c = '.' := by
  obtain ⟨s, u, f, rfl, hs, hu, hf⟩ := mem_language_number.mp h
  intro c hc
  simp only [List.mem_append] at hc
  rcases hc with hc | hc | hc
  · rcases mem_sign.mp hs with rfl | rfl
    · cases hc
    · exact .inl (List.mem_singleton.mp hc)
  · rcases mem_whole.mp hu with rfl | ⟨d, v, rfl, ⟨hd, -⟩, hv⟩
    · rw [List.mem_singleton.mp hc]
      exact .inr (.inl (by decide))
    · rcases List.mem_cons.mp hc with rfl | hc
      · exact .inr (.inl hd)
      · exact .inr (.inl (hv c hc))
  · rcases hf with rfl | hf
    · cases hc
    · obtain ⟨v, rfl, -, hv⟩ := mem_fraction.mp hf
      rcases List.mem_cons.mp hc with rfl | hc
      · exact .inr (.inr rfl)
      · exact .inr (.inl (hv c hc))

theorem notMem_number {w : List Char} (h : w ∈ Form.number.language) {c : Char}
    (hc : IsBoundary c) : c ∉ w := by
  intro hmem
  rcases mem_number h c hmem with rfl | hd | rfl
  · exact notMem_of_isBoundary hc (by decide)
  · exact not_isDigit_of_isBoundary hc hd
  · exact notMem_of_isBoundary hc (by decide)

theorem notMem_doubles {w : List Char} (h : w ∈ Lexer.doubles) {c : Char}
    (hc : IsBoundary c) : c ∉ w := by
  intro hmem
  have hmarks : Lexer.doubles.all (fun v => v.all fun d =>
      ['-', '_', '.', '!', '=', '&', '|'].contains d) = true := by
    decide
  have hall := List.all_eq_true.mp (List.all_eq_true.mp hmarks w h) c hmem
  exact notMem_of_isBoundary hc (List.contains_iff_mem.mp hall)

/-! ### Quoted tokens -/

/-- Where bodies are found by a measure, no text starts with quoted tokens of two lengths. -/
theorem length_eq_of_quoted {q : String} {c : Char} {body : Language Char}
    {measured : List Char → Except (LexProblem × Nat) Nat} {k : Nat} (hq : q.toList = [c])
    (hmeasured : ∀ x ∈ body, ∀ r, measured (x ++ c :: r) = .ok (x.length + k))
    {w v more rest : List Char} (hw : w ∈ only q * body * only q)
    (hv : v ∈ only q * body * only q) (h : v ++ more = w ++ rest) : v.length = w.length := by
  obtain ⟨x, hx, rfl⟩ := (mem_quoted hq).mp hw
  obtain ⟨y, hy, rfl⟩ := (mem_quoted hq).mp hv
  have heq : y ++ c :: more = x ++ c :: rest := by simpa using h
  have hlen := (hmeasured y hy more).symm.trans (heq ▸ hmeasured x hx rest)
  have hlen := Except.ok.inj hlen
  simp only [List.length_cons, List.length_append]
  omega

end Lexical

open Lexical

/-- A word of a form that starts with another one is no longer than that or ends before the next
boundary. -/
theorem Form.length_le_or_isPrefix {f : Form} {w v u rest : List Char} (hw : w ∈ f.language)
    (hwu : w <+: u) (hv : v ∈ f.language) (hpre : v <+: u ++ rest) (hrest : EndsToken rest) :
    v.length ≤ w.length ∨ v <+: u := by
  by_contra hor
  obtain ⟨hlt, hbeyond⟩ := not_or.mp hor
  have hlong : u.length < v.length := by
    by_contra hle
    exact hbeyond (List.prefix_of_prefix_length_le hpre (List.prefix_append u rest)
      (Nat.not_lt.mp hle))
  obtain ⟨x, rfl⟩ := List.prefix_of_prefix_length_le (List.prefix_append u rest) hpre hlong.le
  obtain ⟨more, hmore⟩ := hpre
  have hne : u ≠ [] := by
    rintro rfl
    obtain ⟨k, -, hk⟩ := hw
    exact TokenKind.ne_nil_of_mem hk (List.prefix_nil.mp hwu)
  -- the first character beyond `u` is a boundary
  obtain ⟨c, y, rfl⟩ : ∃ c y, x = c :: y := by
    refine List.exists_cons_of_ne_nil ?_
    rintro rfl
    simp at hlong
  have hrest' : c :: (y ++ more) = rest := by simpa using hmore
  have hbound : IsBoundary c := hrest c (by simp [← hrest'])
  -- a longer quoted word would be a second one at the front
  have hwmore : ∃ z, u ++ c :: y ++ more = w ++ z := by
    obtain ⟨z, rfl⟩ := hwu
    exact ⟨z ++ c :: y ++ more, by simp⟩
  obtain ⟨z, hz⟩ := hwmore
  cases f with
  | name =>
    have hv := (mem_language_form (k := .identifier) nofun).mp hv
    refine not_isNamePart_of_isBoundary hbound (isNamePart_of_mem hv c ?_)
    simp [List.tail_append_of_ne_nil hne]
  | number => exact notMem_number hv hbound (by simp)
  | operator =>
    have hform := (mem_language_form (k := .operator) nofun).mp hv
    rcases Lexer.mem_operator.mp hform with hv | ⟨d, hd⟩
    · exact notMem_doubles hv hbound (by simp)
    · have hlen := congrArg List.length hd
      have hpos := List.length_pos_iff.mpr hne
      simp only [List.length_append, List.length_cons, List.length_nil] at hlen
      omega
  | character =>
    have hw := (mem_language_form (k := .character) nofun).mp hw
    have hv := (mem_language_form (k := .character) nofun).mp hv
    have hlen := length_eq_of_quoted rfl (fun _ hx _ => Lexer.characterLength_of_mem hx) hw hv hz
    omega
  | string =>
    have hw := (mem_language_form (k := .string) nofun).mp hw
    have hv := (mem_language_form (k := .string) nofun).mp hv
    have hmeasured (x) (hx : x ∈ (Lexer.item fun c => IsQuotable c ∧ c ≠ '"')∗) (r : List Char) :
        Lexer.stringLength 0 (x ++ '"' :: r) = .ok (x.length + 1) := by
      rw [Lexer.stringLength_of_mem hx, Nat.zero_add]
    have hlen := length_eq_of_quoted rfl hmeasured hw hv hz
    omega

/-! ### Tokens at a front -/

/-- The form is selected by the first two characters at most. -/
theorem Form.select_cons_cons (c d : Char) (cs ds : List Char) :
    Form.select (c :: d :: cs) = Form.select (c :: d :: ds) := rfl

/-- What follows a first character only tells numbers with a sign apart. -/
theorem Form.select_cons {c : Char} {cs ds : List Char}
    (h : c = '-' → (DigitFirst cs ↔ DigitFirst ds)) :
    Form.select (c :: cs) = Form.select (c :: ds) := by
  have hnumber : (IsDigit c ∨ c = '-' ∧ DigitFirst cs) ↔ (IsDigit c ∨ c = '-' ∧ DigitFirst ds) :=
    or_congr_right (and_congr_right h)
  simp only [Form.select, hnumber]

theorem not_digitFirst_of_endsToken {cs : List Char} (h : EndsToken cs) : ¬ DigitFirst cs := by
  cases cs with
  | nil => exact id
  | cons c cs => exact not_isDigit_of_isBoundary (h c rfl)

/-- A minus sign alone is no number. -/
theorem minus_notMem_number : ['-'] ∉ Form.number.language := by
  intro h
  obtain ⟨s, u, f, hsuf, hs, hu, -⟩ := mem_language_number.mp h
  obtain ⟨c, v, rfl, hc⟩ := exists_digit_of_mem_whole hu
  rcases mem_sign.mp hs with rfl | rfl
  · obtain ⟨rfl, -⟩ := List.cons.inj hsuf
    exact absurd hc (by decide)
  · cases hsuf

/-- The form that a lexeme was selected for does not depend on what stands behind a boundary. -/
theorem Token.IsLexeme.select_cut {t : Token} {u rest rest' : List Char}
    (h : t.IsLexeme (u ++ rest)) (hu : t.text.toList <+: u) (hrest' : EndsToken rest') :
    Form.select (u ++ rest') = Form.select (u ++ rest) := by
  have hmem : t.text.toList ∈ (Form.select (u ++ rest)).language := ⟨t.kind, h.form, h.mem⟩
  have hne := TokenKind.ne_nil_of_mem h.mem
  cases u with
  | nil => exact (hne (List.prefix_nil.mp hu)).elim
  | cons c u =>
    cases u with
    | cons d u => exact Form.select_cons_cons ..
    | nil =>
      refine Form.select_cons fun hc => ?_
      subst hc
      refine iff_of_false (not_digitFirst_of_endsToken hrest') fun hdigit => ?_
      have hname : ¬ IsNameStart '-' := by decide
      have hselect : Form.select (['-'] ++ rest) = .number := by
        rw [List.singleton_append, Form.select, if_neg hname, if_pos (.inr ⟨rfl, hdigit⟩)]
      have htext : t.text.toList = ['-'] :=
        hu.eq_of_length_le (List.length_pos_iff.mpr hne)
      rw [hselect, htext] at hmem
      exact minus_notMem_number hmem

/-- **What stands behind a boundary does not matter for a lexeme in front of it.** -/
theorem Token.IsLexeme.cut {t : Token} {u rest rest' : List Char} (h : t.IsLexeme (u ++ rest))
    (hu : t.text.toList <+: u) (hrest' : EndsToken rest') : t.IsLexeme (u ++ rest') where
  form := h.form.trans (h.select_cut hu hrest').symm
  mem := h.mem
  isPrefix := hu.trans (List.prefix_append u rest')
  longest := by
    rw [h.select_cut hu hrest']
    intro v hv hpre
    rcases Form.length_le_or_isPrefix ⟨t.kind, h.form, h.mem⟩ hu hv hpre hrest' with hle | hvu
    · exact hle
    · exact h.longest v hv (hvu.trans (List.prefix_append u rest))

/-- A lexeme in front of a boundary is the lexeme there. -/
theorem Token.IsLexeme.apart {t : Token} {cs rest : List Char} (h : t.IsLexeme cs)
    (hrest : EndsToken rest) : t.IsLexeme (t.text.toList ++ rest) := by
  obtain ⟨more, hmore⟩ := h.isPrefix
  rw [← hmore] at h
  exact h.cut (List.prefix_refl _) hrest

/-! ### Reading tokens that are written apart -/

/-- Whether a token stands somewhere in a text and does not start with a blank. -/
def Token.Stands (t : Token) : Prop :=
  ∃ cs, t.IsLexeme cs ∧ ∀ c ∈ cs.head?, Text.isBlank c = false

theorem IsSegmentation.stands {cs : List Char} {start : Nat} {ts : List Token}
    (h : IsSegmentation cs start ts) : ∀ t ∈ ts, t.Stands := by
  intro t ht
  refine ⟨_, h.lexeme t ht, fun c hc => ?_⟩
  obtain ⟨d, hd, hsolid⟩ := h.solid t ht
  rw [List.head?_drop, hd] at hc
  cases hc
  exact hsolid

theorem AreBlank.endsToken {cs : List Char} (h : AreBlank cs) : EndsToken cs :=
  fun c hc => .inl (h c (List.mem_of_mem_head? hc))

namespace Lexer

theorem scan_gap : ∀ {gap : List Char}, AreBlank gap → ∀ (fuel start : Nat) (cs : List Char),
    scan (fuel + gap.length) start (gap ++ cs) = scan fuel (start + gap.length) cs
  | [], _, _, _, _ => rfl
  | c :: gap, h, fuel, start, cs => by
    have h := List.forall_mem_cons.mp h
    rw [List.length_cons, ← Nat.add_assoc, List.cons_append, scan, if_pos h.1, scan_gap h.2,
      Nat.add_right_comm start, Nat.add_assoc start]

/-- A token in front of a boundary is read as it is. -/
theorem scan_apart {t : Token} {cs : List Char} {fuel start : Nat} {us : List Token}
    (ht : t.Stands) (hcs : EndsToken cs)
    (hus : scan fuel (start + t.text.toList.length) cs = .ok us) :
    scan (fuel + 1) start (t.text.toList ++ cs) = .ok (⟨t.kind, t.text, start⟩ :: us) := by
  obtain ⟨cs₀, hlex, hsolid⟩ := ht
  have hmeasure := hlex.apart hcs
  obtain ⟨more, rfl⟩ := hlex.isPrefix
  have hne := TokenKind.ne_nil_of_mem hlex.mem
  obtain ⟨c, w, hw⟩ := List.exists_cons_of_ne_nil hne
  have hblank : Text.isBlank c = false := hsolid c (by rw [hw]; rfl)
  have htext : t.text = String.ofList (c :: w) := by rw [← hw, String.ofList_toList]
  rw [hw] at hmeasure hus ⊢
  rw [List.cons_append] at hmeasure
  rw [List.cons_append, scan_token hblank (measure_of_isLexeme hmeasure), hw, ← List.cons_append,
    List.drop_left, List.take_left, htext]
  exact ⟨us, hus, rfl⟩

/-- Whether tokens are read off a text, wherever it stands and with whatever fuel suffices. -/
def Reads (cs : List Char) (ts : List Token) : Prop :=
  ∀ fuel start, cs.length ≤ fuel →
    ∃ us, scan fuel start cs = .ok us ∧ List.Forall₂ Token.Same ts us

theorem reads_gap {gap : List Char} (h : AreBlank gap) : Reads gap [] := by
  intro fuel start hfuel
  obtain ⟨fuel, rfl⟩ := Nat.exists_eq_add_of_le' hfuel
  refine ⟨[], ?_, .nil⟩
  have hgap := scan_gap h fuel start []
  rw [List.append_nil] at hgap
  rw [hgap]
  cases fuel <;> rfl

theorem Reads.token {before cs : List Char} {t : Token} {ts : List Token} (h : Reads cs ts)
    (hbefore : AreBlank before) (ht : t.Stands) (hcs : EndsToken cs) :
    Reads (before ++ t.text.toList ++ cs) (t :: ts) := by
  intro fuel start hfuel
  have hpos : 0 < t.text.toList.length := by
    obtain ⟨_, hlex, -⟩ := ht
    exact List.length_pos_iff.mpr (TokenKind.ne_nil_of_mem hlex.mem)
  rw [List.append_assoc, List.length_append, List.length_append] at hfuel
  obtain ⟨fuel, rfl⟩ := Nat.exists_eq_add_of_le' (show before.length + 1 ≤ fuel by omega)
  obtain ⟨us, hus, hsame⟩ := h fuel (start + before.length + t.text.toList.length) (by omega)
  refine ⟨⟨t.kind, t.text, start + before.length⟩ :: us, ?_, .cons ⟨rfl, rfl⟩ hsame⟩
  rw [List.append_assoc, Nat.add_comm before.length, ← Nat.add_assoc, scan_gap hbefore]
  exact scan_apart ht hcs hus

/-- Tokens that are written apart are read again. -/
theorem reads_of_spaced {cs : List Char} {ts : List Token} (h : Spaced cs ts)
    (hts : ∀ t ∈ ts, t.Stands) : Reads cs ts := by
  induction h with
  | nil hgap => exact reads_gap hgap
  | last hbefore hafter =>
    exact (reads_gap hafter).token hbefore (hts _ List.mem_cons_self) hafter.endsToken
  | @cons before cs c t u ts hbefore hc _ ih =>
    have hts := List.forall_mem_cons.mp hts
    have hspace : Reads (c :: cs) (u :: ts) := by
      intro fuel start hfuel
      rw [List.length_cons] at hfuel
      obtain ⟨fuel, rfl⟩ := Nat.exists_eq_add_of_le' (show 1 ≤ fuel by omega)
      rw [scan, if_pos hc]
      exact ih hts.2 fuel (start + 1) (by omega)
    exact hspace.token hbefore hts.1 fun d hd => by cases hd; exact .inl hc

end Lexer

/-- **Tokens that are written apart are read again.** They have the same classes and texts, at
offsets of their own. -/
theorem tokenize_of_spaced {s s' : String} {ts : List Token} (h : tokenize s = .ok ts)
    (hs' : Spaced s'.toList ts) :
    ∃ us, tokenize s' = .ok us ∧ List.Forall₂ Token.Same ts us :=
  Lexer.reads_of_spaced hs' (tokenize_eq_ok_iff.mp h).stands _ 0 (Nat.le_refl _)

/-! ### Texts of one token -/

theorem Lexical.not_isNameStart_of_isDigit {c : Char} (h : IsDigit c) : ¬ IsNameStart c := by
  obtain ⟨-, hhigh⟩ := h
  have hlow {d : Char} (hd : ¬ d ≤ '9') : ¬ d ≤ c := fun hdc => hd (Char.le_trans hdc hhigh)
  rintro ((⟨ha, -⟩ | ⟨hA, -⟩) | rfl | rfl)
  · exact hlow (by decide) ha
  · exact hlow (by decide) hA
  · exact absurd hhigh (by decide)
  · exact absurd hhigh (by decide)

theorem Form.select_of_mem_number {w : List Char} (h : w ∈ Form.number.language) :
    Form.select w = .number := by
  obtain ⟨s, u, f, rfl, hs, hu, -⟩ := mem_language_number.mp h
  obtain ⟨c, v, rfl, hc⟩ := exists_digit_of_mem_whole hu
  rcases mem_sign.mp hs with rfl | rfl
  · exact (if_neg (not_isNameStart_of_isDigit hc)).trans (if_pos (Or.inl hc))
  · have hminus : ¬ IsNameStart '-' := by decide
    rw [List.singleton_append, Form.select, if_neg hminus, if_pos (Or.inr ⟨rfl, hc⟩)]

/-- A text of a class selects the form of the class; a single character may be any operator. -/
theorem Form.select_of_mem {k : TokenKind} {w : List Char} (hk : k ≠ .operator)
    (h : w ∈ k.language) : Form.select w = k.form := by
  cases k with
  | identifier =>
    obtain ⟨c, v, rfl, hc, -⟩ := mem_one_mul.mp h
    exact if_pos hc
  | integer => exact select_of_mem_number ⟨.integer, rfl, h⟩
  | decimal => exact select_of_mem_number ⟨.decimal, rfl, h⟩
  | character =>
    obtain ⟨x, -, rfl⟩ := (mem_quoted (c := '\'') rfl).mp h
    exact Lexer.select_character _
  | string =>
    obtain ⟨x, -, rfl⟩ := (mem_quoted (c := '"') rfl).mp h
    exact Lexer.select_string _
  | operator => exact absurd rfl hk

theorem Form.select_of_isBlank {c : Char} {cs : List Char} (h : Text.isBlank c = true) :
    Form.select (c :: cs) = .operator := by
  have hletter := not_isLetter_of_isBoundary (.inl h)
  have hdigit := not_isDigit_of_isBoundary (.inl h)
  have hne {d : Char} (hd : Text.isBlank d = false) : c ≠ d := by
    rintro rfl
    rw [h] at hd
    cases hd
  have hname : ¬ IsNameStart c := by
    rintro (hc | hc | hc)
    · exact hletter hc
    · exact hne (by rfl) hc
    · exact hne (by rfl) hc
  have hnumber : ¬ (IsDigit c ∨ c = '-' ∧ DigitFirst cs) := by
    rintro (hc | ⟨hc, -⟩)
    · exact hdigit hc
    · exact hne (by rfl) hc
  rw [Form.select, if_neg hname, if_neg hnumber, if_neg (hne (by rfl)), if_neg (hne (by rfl))]

/-- **A text of a class is read as one token.** A text that is an operator may start another
class. -/
theorem tokenize_of_mem {s : String} {k : TokenKind} (hk : k ≠ .operator)
    (h : s.toList ∈ k.language) : tokenize s = .ok [⟨k, s, 0⟩] := by
  have hselect := Form.select_of_mem hk h
  obtain ⟨c, cs, hs⟩ := List.exists_cons_of_ne_nil (TokenKind.ne_nil_of_mem h)
  have hsolid : Text.isBlank c = false := by
    by_contra hblank
    rw [hs, Form.select_of_isBlank (by simpa using hblank)] at hselect
    cases k <;> first | exact absurd rfl hk | cases hselect
  have hfirst : s.toList[0]? = some c := by rw [hs]; rfl
  have hlexeme : Token.IsLexeme ⟨k, s, 0⟩ (s.toList.drop 0) :=
    ⟨hselect.symm, h, List.prefix_rfl, fun _ _ hw => hw.length_le⟩
  refine tokenize_eq_ok_iff.mpr ((IsSegmentation.token_iff hfirst hsolid).mpr
    ⟨_, [], rfl, rfl, hlexeme, (IsSegmentation.end_iff ?_).mpr rfl⟩)
  simp [Token.stop, String.length_toList]

end Scriptlet
