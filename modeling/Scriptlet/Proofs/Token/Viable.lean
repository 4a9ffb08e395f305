import Scriptlet.Proofs.Token.Spacing

/-! # Where a text stops being readable

A text is refused at the first character that no readable text can have there. Only quoted tokens
are refused. What the scan takes in front of the quote does not depend on what stands behind it
(`Lexer.Passes`), and after the quote the scan stops at the first character with which no quoted
token goes on (`Lexer.Sticks`).

* `tokenize_error_viable`: what precedes the offset of a failure can be completed, and with the
  character at the offset it fails in the same way, whatever follows. -/

namespace Scriptlet

open Lexical

namespace Lexer

variable {start : Nat} {c : Char} {cs : List Char}

/-! ### Scanning with enough fuel -/

theorem measure_pos {k : TokenKind} {n : Nat} (h : measure (c :: cs) = .ok (k, n)) : 0 < n := by
  have hne := TokenKind.ne_nil_of_mem (measures_of_measure h).mem
  refine Nat.pos_of_ne_zero ?_
  rintro rfl
  exact hne List.take_zero

/-- What the scan does at a token. -/
theorem scan_measured {fuel n : Nat} {k : TokenKind} (hc : Text.isBlank c = false)
    (hmeasure : measure (c :: cs) = .ok (k, n)) :
    scan (fuel + 1) start (c :: cs) = (scan fuel (start + n) ((c :: cs).drop n)).map
      (⟨k, String.ofList ((c :: cs).take n), start⟩ :: ·) := by
  rw [scan, hc, if_neg Bool.false_ne_true, hmeasure]
  rfl

/-- What the scan does at a quoted token that is not finished. -/
theorem scan_failed {fuel n : Nat} {p : LexProblem} (hc : Text.isBlank c = false)
    (hmeasure : measure (c :: cs) = .error (p, n)) :
    scan (fuel + 1) start (c :: cs) = .error ⟨p, start + n⟩ := by
  rw [scan, hc, if_neg Bool.false_ne_true, hmeasure]

/-- Any fuel that suffices gives the same tokens. -/
theorem scan_fuel : ∀ {fuel fuel' start : Nat} {cs : List Char}, cs.length ≤ fuel →
    cs.length ≤ fuel' → scan fuel start cs = scan fuel' start cs
  | fuel, fuel', _, [], _, _ => by cases fuel <;> cases fuel' <;> rfl
  | fuel + 1, fuel' + 1, start, c :: cs, h, h' => by
    rw [List.length_cons] at h h'
    cases hc : Text.isBlank c with
    | true =>
      rw [scan, scan, if_pos hc, if_pos hc]
      exact scan_fuel (by omega) (by omega)
    | false =>
      cases hmeasure : measure (c :: cs) with
      | error e => rw [scan_failed hc hmeasure, scan_failed hc hmeasure]
      | ok kn =>
        have hpos := measure_pos hmeasure
        have hdrop : ((c :: cs).drop kn.2).length ≤ cs.length := by
          rw [List.length_drop, List.length_cons]
          omega
        have hrest : scan fuel (start + kn.2) ((c :: cs).drop kn.2) =
            scan fuel' (start + kn.2) ((c :: cs).drop kn.2) :=
          scan_fuel (by omega) (by omega)
        rw [scan_measured hc hmeasure, scan_measured hc hmeasure, hrest]

/-- The tokens of a text that starts at an offset. -/
def tokensFrom (start : Nat) (cs : List Char) : Except LexError (List Token) :=
  scan cs.length start cs

theorem tokenize_eq (s : String) : tokenize s = tokensFrom 0 s.toList := rfl

theorem tokensFrom_blank (hc : Text.isBlank c = true) :
    tokensFrom start (c :: cs) = tokensFrom (start + 1) cs := by
  rw [tokensFrom, List.length_cons, scan, if_pos hc, tokensFrom]

theorem tokensFrom_failed (start : Nat) {n : Nat} {p : LexProblem} (hc : Text.isBlank c = false)
    (hmeasure : measure (c :: cs) = .error (p, n)) :
    tokensFrom start (c :: cs) = .error ⟨p, start + n⟩ :=
  scan_failed hc hmeasure

/-- A text that is one token. -/
theorem exists_tokensFrom_eq (start : Nat) {k : TokenKind} (hc : Text.isBlank c = false)
    (hmeasure : measure (c :: cs) = .ok (k, 1 + cs.length)) :
    ∃ t, tokensFrom start (c :: cs) = .ok [t] := by
  have hdrop : (c :: cs).drop (1 + cs.length) = [] := by
    rw [Nat.add_comm]
    exact List.drop_length
  refine ⟨⟨k, String.ofList ((c :: cs).take (1 + cs.length)), start⟩, ?_⟩
  rw [tokensFrom, List.length_cons, scan_measured hc hmeasure, hdrop, scan_fuel (Nat.zero_le _)
    (Nat.le_refl _)]
  rfl

/-- Whether a token stands at the front of a text, which starts at the offset of the token. -/
structure Leads (t : Token) (cs : List Char) : Prop where
  lexeme : t.IsLexeme cs
  solid : ∀ c ∈ cs.head?, Text.isBlank c = false

theorem tokensFrom_token {t : Token} (h : Leads t (t.text.toList ++ cs)) :
    tokensFrom t.offset (t.text.toList ++ cs) =
      (tokensFrom (t.offset + t.text.toList.length) cs).map (t :: ·) := by
  obtain ⟨c, w, hw⟩ := List.exists_cons_of_ne_nil (TokenKind.ne_nil_of_mem h.lexeme.mem)
  have hlex := h.lexeme
  have hc : Text.isBlank c = false := h.solid c (by rw [hw]; rfl)
  have hmeasure : measure (c :: (w ++ cs)) = .ok (t.kind, t.text.toList.length) :=
    measure_of_isLexeme (by rwa [hw] at hlex)
  have htext : String.ofList ((c :: (w ++ cs)).take t.text.toList.length) = t.text := by
    rw [← List.cons_append, ← hw, List.take_left, String.ofList_toList]
  have hdrop : (c :: (w ++ cs)).drop t.text.toList.length = cs := by
    rw [← List.cons_append, ← hw, List.drop_left]
  rw [hw, List.cons_append, tokensFrom, List.length_cons, scan_measured hc hmeasure, htext, hdrop,
    tokensFrom, ← hw, scan_fuel (by simp) (Nat.le_refl _)]

/-! ### Tokens in front of a boundary -/

/-- Whether the scan takes tokens off a text that starts with `u`, and nothing beyond `u`, wherever
`u` ends at a boundary. -/
def Passes (start : Nat) (u : List Char) (ts : List Token) : Prop :=
  ∀ rest, EndsToken rest →
    tokensFrom start (u ++ rest) = (tokensFrom (start + u.length) rest).map (ts ++ ·)

theorem map_nil_append (r : Except LexError (List Token)) : r.map ([] ++ ·) = r := by
  cases r <;> rfl

theorem passes_nil : Passes start [] [] := by
  intro rest _
  rw [map_nil_append]
  rfl

theorem Passes.blank {u : List Char} {ts : List Token} (h : Passes (start + 1) u ts)
    (hc : Text.isBlank c = true) : Passes start (c :: u) ts := by
  intro rest hrest
  rw [List.cons_append, tokensFrom_blank hc, h rest hrest, List.length_cons, Nat.add_right_comm,
    Nat.add_assoc]

theorem Passes.token {t : Token} {u : List Char} {ts : List Token}
    (h : Passes (t.offset + t.text.toList.length) u ts) {more : List Char}
    (ht : Leads t (t.text.toList ++ u ++ more)) :
    Passes t.offset (t.text.toList ++ u) (t :: ts) := by
  intro rest hrest
  have hlead : Leads t (t.text.toList ++ (u ++ rest)) := by
    rw [← List.append_assoc]
    refine ⟨ht.lexeme.cut (List.prefix_append _ u) hrest, fun c hc => ht.solid c ?_⟩
    obtain ⟨d, w, hw⟩ := List.exists_cons_of_ne_nil (TokenKind.ne_nil_of_mem ht.lexeme.mem)
    rw [hw] at hc ⊢
    exact hc
  rw [List.append_assoc, tokensFrom_token hlead, h rest hrest, List.length_append, Nat.add_assoc]
  cases tokensFrom (t.offset + (t.text.toList.length + u.length)) rest <;> rfl

/-- What is measured is a token at the front. -/
theorem exists_leads (start : Nat) {n : Nat} {k : TokenKind} (hc : Text.isBlank c = false)
    (hmeasure : measure (c :: cs) = .ok (k, n)) : ∃ t : Token, t.offset = start ∧
      Leads t (c :: cs) ∧ t.text.toList.length = n ∧ t.text.toList ++ (c :: cs).drop n = c :: cs ∧
        ⟨k, String.ofList ((c :: cs).take n), start⟩ = t := by
  have hmeasures := measures_of_measure hmeasure
  refine ⟨⟨k, String.ofList ((c :: cs).take n), start⟩, rfl,
    ⟨hmeasures.isLexeme, fun d hd => by cases hd; exact hc⟩, ?_, ?_, rfl⟩
  · rw [String.toList_ofList, List.length_take, Nat.min_eq_left hmeasures.le]
  · rw [String.toList_ofList, List.take_append_drop]

/-- The scan passes to any token that it finds. -/
theorem exists_passes : ∀ {fuel start : Nat} {cs : List Char} {ts : List Token},
    scan fuel start cs = .ok ts → ∀ p, ∃ u rest, cs = u ++ rest ∧ Passes start u (ts.take p)
  | _, _, cs, _, _, 0 => ⟨[], cs, rfl, passes_nil⟩
  | 0, _, cs, _, h, _ + 1 => by
    cases h
    exact ⟨[], cs, rfl, passes_nil⟩
  | _ + 1, _, [], _, h, _ + 1 => by
    cases h
    exact ⟨[], [], rfl, passes_nil⟩
  | fuel + 1, start, c :: cs, ts, h, p + 1 => by
    cases hc : Text.isBlank c with
    | true =>
      rw [scan, if_pos hc] at h
      obtain ⟨u, rest, rfl, hpass⟩ := exists_passes h (p + 1)
      exact ⟨c :: u, rest, rfl, hpass.blank hc⟩
    | false =>
      cases hmeasure : measure (c :: cs) with
      | error e =>
        rw [scan_failed hc hmeasure] at h
        cases h
      | ok kn =>
        obtain ⟨k, n⟩ := kn
        rw [scan_measured hc hmeasure] at h
        cases hrest : scan fuel (start + n) ((c :: cs).drop n) with
        | error e =>
          rw [hrest] at h
          cases h
        | ok us =>
          rw [hrest] at h
          cases h
          obtain ⟨u, rest, hdrop, hpass⟩ := exists_passes hrest p
          obtain ⟨t, rfl, hlead, hlen, htext, ht⟩ := exists_leads start hc hmeasure
          rw [ht, List.take_succ_cons]
          rw [← htext, hdrop, ← List.append_assoc] at hlead ⊢
          rw [← hlen] at hpass
          exact ⟨_, rest, rfl, hpass.token hlead⟩

theorem cases_of_measure_error {n : Nat} {p : LexProblem}
    (h : measure (c :: cs) = .error (p, n)) :
    (c = '\'' ∧ characterLength cs = .error (p, n)) ∨
      (c = '"' ∧ stringLength 1 cs = .error (p, n)) := by
  rw [measure] at h
  split_ifs at h with _ _ hchar hstring
  · cases hlen : characterLength cs with
    | ok m => simp [hlen, Except.map] at h
    | error e =>
      rw [hlen] at h
      cases h
      exact .inl ⟨hchar, rfl⟩
  · cases hlen : stringLength 1 cs with
    | ok m => simp [hlen, Except.map] at h
    | error e =>
      rw [hlen] at h
      cases h
      exact .inr ⟨hstring, rfl⟩

/-- A failure is that of an unfinished quoted token, in front of which the scan passes. -/
theorem exists_failed : ∀ {fuel start : Nat} {cs : List Char} {e : LexError},
    scan fuel start cs = .error e → ∃ u ts q w p n, cs = u ++ q :: w ∧ (q = '\'' ∨ q = '"') ∧
      Passes start u ts ∧ measure (q :: w) = .error (p, n) ∧ e = ⟨p, start + u.length + n⟩
  | 0, _, _, _, h => by cases h
  | _ + 1, _, [], _, h => by cases h
  | fuel + 1, start, c :: cs, e, h => by
    cases hc : Text.isBlank c with
    | true =>
      rw [scan, if_pos hc] at h
      obtain ⟨u, ts, q, w, p, n, rfl, hq, hpass, hmeasure, rfl⟩ := exists_failed h
      refine ⟨c :: u, ts, q, w, p, n, rfl, hq, hpass.blank hc, hmeasure, ?_⟩
      rw [List.length_cons, Nat.add_right_comm start, Nat.add_assoc start]
    | false =>
      cases hmeasure : measure (c :: cs) with
      | error pn =>
        rw [scan_failed hc hmeasure] at h
        cases h
        have hquote := (cases_of_measure_error hmeasure).imp And.left And.left
        exact ⟨[], [], c, cs, pn.1, pn.2, rfl, hquote, passes_nil, hmeasure, rfl⟩
      | ok kn =>
        obtain ⟨k, n⟩ := kn
        rw [scan_measured hc hmeasure] at h
        cases hrest : scan fuel (start + n) ((c :: cs).drop n) with
        | ok us =>
          rw [hrest] at h
          cases h
        | error e' =>
          rw [hrest] at h
          cases h
          obtain ⟨u, ts, q, w, p, m, hdrop, hq, hpass, hfailed, rfl⟩ := exists_failed hrest
          obtain ⟨t, rfl, hlead, hlen, htext, -⟩ := exists_leads start hc hmeasure
          rw [← htext, hdrop, ← List.append_assoc] at hlead ⊢
          rw [← hlen] at hpass ⊢
          refine ⟨_, t :: ts, q, w, p, m, rfl, hq, hpass.token hlead, hfailed, ?_⟩
          rw [List.length_append, Nat.add_assoc t.offset]

/-- Tokens, each after a space. -/
def spaced (ts : List Token) : List Char :=
  ts.flatMap fun t => ' ' :: t.text.toList

theorem endsToken_spaced (ts : List Token) : EndsToken (spaced ts) := by
  cases ts with
  | nil => nofun
  | cons t ts =>
    intro c hc
    cases hc
    exact .inl rfl

theorem reads_spaced {ts : List Token} (h : ∀ t ∈ ts, t.Stands) : Reads (spaced ts) ts := by
  induction ts with
  | nil => exact reads_gap (List.forall_mem_nil _)
  | cons t ts ih =>
    have h := List.forall_mem_cons.mp h
    have hspace : AreBlank [' '] := List.forall_mem_singleton.mpr rfl
    exact (ih h.2).token hspace h.1 (endsToken_spaced ts)

/-! ### Quoted tokens -/

/-- Whether a measure of what follows the first `k` characters of a quoted token gets stuck after
`i` characters: these can be completed, and with the next one the measure fails. -/
structure Sticks (measured : List Char → Except (LexProblem × Nat) Nat) (k : Nat) (cs : List Char)
    (p : LexProblem) (i : Nat) : Prop where
  le : i ≤ cs.length
  completes : ∃ more, measured (cs.take i ++ more) = .ok (k + (cs.take i ++ more).length)
  fails : i < cs.length → ∀ more, measured (cs.take (i + 1) ++ more) = .error (p, k + i)

theorem ne_backslash {rest : List Char} (hlone : c = '\\' → rest = [] → False)
    (hescape : ∀ d more, c = '\\' → rest = d :: more → False) : c ≠ '\\' := by
  rintro rfl
  cases rest with
  | nil => exact hlone rfl rfl
  | cons d more => exact hescape d more rfl rfl

theorem sticks_characterLength {n : Nat} {p : LexProblem}
    (h : characterLength cs = .error (p, n)) :
    ∃ i, n = 1 + i ∧ Sticks characterLength 1 cs p i := by
  unfold characterLength at h
  split at h
  · next c rest =>
    split_ifs at h with hc hquote
    · cases h
      exact ⟨1, rfl, by simp, ⟨['n', '\''], rfl⟩, fun _ more => by simp [characterLength, hc]⟩
    · cases h
      refine ⟨2, rfl, by simp, ⟨['\''], by simp [characterLength, hc]⟩, fun hlt more => ?_⟩
      obtain ⟨d, rest, rfl⟩ := List.exists_cons_of_length_pos (l := rest) (by simpa using hlt)
      have hd : d ≠ '\'' := by simpa using hquote
      simp [characterLength, hc, hd]
  · cases h
    exact ⟨1, rfl, by simp, ⟨['n', '\''], rfl⟩, fun hlt => by simp at hlt⟩
  · next c rest hescape hlone =>
    have hc : c ≠ '\\' := ne_backslash hlone hescape
    split_ifs at h with hquotable hquote
    · cases h
      refine ⟨0, rfl, Nat.zero_le _, ⟨['a', '\''], rfl⟩, fun _ more => ?_⟩
      simp [characterLength, hc, hquotable]
    · cases h
      refine ⟨1, rfl, by simp, ⟨['\''], by simp [characterLength, hc, hquotable]⟩, ?_⟩
      intro hlt more
      obtain ⟨d, rest, rfl⟩ := List.exists_cons_of_length_pos (l := rest) (by simpa using hlt)
      have hd : d ≠ '\'' := by simpa using hquote
      simp [characterLength, hc, hquotable, hd]
  · cases h
    exact ⟨0, rfl, Nat.zero_le _, ⟨['a', '\''], rfl⟩, fun hlt => by simp at hlt⟩

theorem sticks_stringLength {k n : Nat} {p : LexProblem} (h : stringLength k cs = .error (p, n)) :
    ∃ i, n = k + i ∧ Sticks (stringLength k) k cs p i := by
  fun_induction stringLength k cs with
  | case1 k =>
    cases h
    exact ⟨0, rfl, Nat.zero_le _, ⟨['"'], rfl⟩, fun hlt => by simp at hlt⟩
  | case2 k rest => cases h
  | case3 k =>
    cases h
    exact ⟨1, rfl, by simp, ⟨['n', '"'], rfl⟩, fun hlt => by simp at hlt⟩
  | case4 k c rest hc =>
    cases h
    exact ⟨1, rfl, by simp, ⟨['n', '"'], rfl⟩, fun _ more => by simp [stringLength, hc]⟩
  | case5 k c rest hc ih =>
    have hstep (cs : List Char) : stringLength k ('\\' :: c :: cs) = stringLength (k + 2) cs := by
      rw [stringLength, if_neg hc]
    obtain ⟨i, rfl, hi⟩ := ih h
    obtain ⟨more, hmore⟩ := hi.completes
    refine ⟨i + 2, by omega, Nat.add_le_add_right hi.le 2, ⟨more, ?_⟩, fun hlt more => ?_⟩
    · rw [List.take_succ_cons, List.take_succ_cons, List.cons_append, List.cons_append, hstep,
        hmore, List.length_cons, List.length_cons]
      congr 1
      omega
    · rw [List.take_succ_cons, List.take_succ_cons, List.cons_append, List.cons_append, hstep,
        hi.fails (by simpa using hlt), Nat.add_assoc, Nat.add_comm 2]
  | case6 k c rest hquote hlone hescape hc ih =>
    have hne : c ≠ '\\' := ne_backslash hlone hescape
    have hstep (cs : List Char) : stringLength k (c :: cs) = stringLength (k + 1) cs := by
      simp [stringLength, hne, hc]
    obtain ⟨i, rfl, hi⟩ := ih h
    obtain ⟨more, hmore⟩ := hi.completes
    refine ⟨i + 1, by omega, Nat.add_le_add_right hi.le 1, ⟨more, ?_⟩, fun hlt more => ?_⟩
    · rw [List.take_succ_cons, List.cons_append, hstep, hmore, List.length_cons]
      congr 1
      omega
    · rw [List.take_succ_cons, List.cons_append, hstep, hi.fails (by simpa using hlt),
        Nat.add_assoc, Nat.add_comm 1]
  | case7 k c rest hquote hlone hescape hc =>
    have hne : c ≠ '\\' := ne_backslash hlone hescape
    cases h
    exact ⟨0, rfl, Nat.zero_le _, ⟨['"'], rfl⟩, fun _ more => by
      simp [stringLength, hne, hc]⟩

/-- An unfinished quoted token is stuck after some of its characters. -/
theorem sticks_measure {n : Nat} {p : LexProblem} (h : measure (c :: cs) = .error (p, n)) :
    ∃ i, n = 1 + i ∧ i ≤ cs.length ∧
      (∃ more k, measure (c :: (cs.take i ++ more)) = .ok (k, 1 + (cs.take i ++ more).length)) ∧
      (i < cs.length → ∀ more, measure (c :: (cs.take (i + 1) ++ more)) = .error (p, n)) := by
  have hcharacter (cs : List Char) :
      measure ('\'' :: cs) = (characterLength cs).map (.character, ·) := rfl
  have hstring (cs : List Char) : measure ('"' :: cs) = (stringLength 1 cs).map (.string, ·) := rfl
  rcases cases_of_measure_error h with ⟨rfl, hlen⟩ | ⟨rfl, hlen⟩
  · obtain ⟨i, rfl, hi⟩ := sticks_characterLength hlen
    obtain ⟨more, hmore⟩ := hi.completes
    refine ⟨i, rfl, hi.le, ⟨more, _, by rw [hcharacter, hmore]; rfl⟩, fun hlt more => ?_⟩
    rw [hcharacter, hi.fails hlt]
    rfl
  · obtain ⟨i, rfl, hi⟩ := sticks_stringLength hlen
    obtain ⟨more, hmore⟩ := hi.completes
    refine ⟨i, rfl, hi.le, ⟨more, _, by rw [hstring, hmore]; rfl⟩, fun hlt more => ?_⟩
    rw [hstring, hi.fails hlt]
    rfl

end Lexer

/-! ### Texts -/

/-- Any first tokens of a text can be followed by other tokens instead. -/
theorem exists_tokenize_append {s : String} {ts : List Token} (h : tokenize s = .ok ts) (p : Nat)
    {more : List Token} (hmore : ∀ t ∈ more, t.Stands) :
    ∃ s' us, tokenize s' = .ok (ts.take p ++ us) ∧ List.Forall₂ Token.Same more us := by
  obtain ⟨u, -, -, hpass⟩ := Lexer.exists_passes h p
  obtain ⟨us, hus, hsame⟩ :=
    Lexer.reads_spaced hmore (Lexer.spaced more).length (0 + u.length) (Nat.le_refl _)
  refine ⟨String.ofList (u ++ Lexer.spaced more), us, ?_, hsame⟩
  rw [Lexer.tokenize_eq, String.toList_ofList, hpass _ (Lexer.endsToken_spaced more),
    Lexer.tokensFrom, hus]
  rfl

/-- **A failure to read tokens is at the first character that cannot go on.** What precedes it can
be completed, and every text that goes on like this one up to that character fails in the same
way. -/
theorem tokenize_error_viable {s : String} {e : LexError} (h : tokenize s = .error e) :
    e.offset ≤ s.length ∧
      (∃ s', s.toList.take e.offset <+: s'.toList ∧ ∃ ts, tokenize s' = .ok ts) ∧
      (e.offset < s.length → ∀ s', s.toList.take (e.offset + 1) <+: s'.toList →
        tokenize s' = .error e) := by
  obtain ⟨u, ts, q, w, p, n, hs, hq, hpass, hmeasure, rfl⟩ := Lexer.exists_failed h
  obtain ⟨i, rfl, hi, ⟨more, k, hcomplete⟩, hfails⟩ := Lexer.sticks_measure hmeasure
  have hblank : Text.isBlank q = false := by
    rcases hq with rfl | rfl <;> rfl
  have hends (cs : List Char) : EndsToken (q :: cs) := fun c hc => by
    cases hc
    exact .inr hq
  -- the text in front of the quote, the quote and what follows it up to the offset
  have htake {j : Nat} : s.toList.take (0 + u.length + (1 + j)) = u ++ q :: w.take j := by
    rw [hs, Nat.zero_add, List.take_length_add_append, Nat.add_comm 1, List.take_succ_cons]
  have hlength : s.length = u.length + 1 + w.length := by
    rw [← String.length_toList, hs, List.length_append, List.length_cons]
    omega
  simp only [Lexer.tokenize_eq, hlength]
  refine ⟨by omega, ?_, fun hlt s' hprefix => ?_⟩
  · obtain ⟨t, ht⟩ := Lexer.exists_tokensFrom_eq (0 + u.length) hblank hcomplete
    refine ⟨String.ofList (u ++ q :: (w.take i ++ more)), ?_, ts ++ [t], ?_⟩
    · rw [htake, String.toList_ofList]
      exact ⟨more, by simp⟩
    · rw [String.toList_ofList, hpass _ (hends _), ht]
      rfl
  · rw [Nat.add_assoc (0 + u.length), Nat.add_assoc 1, htake] at hprefix
    obtain ⟨rest, hrest⟩ := hprefix
    have hfailed := Lexer.tokensFrom_failed (0 + u.length) hblank (hfails (by omega) rest)
    rw [← hrest, List.append_assoc, List.cons_append, hpass _ (hends _), hfailed]
    rfl

/-- A character literal with two letters is refused at the second one. -/
theorem tokenize_error_viable_letters :
    (∃ s', "x='a".toList <+: s'.toList ∧ ∃ ts, tokenize s' = .ok ts) ∧
      ∀ s', "x='ab".toList <+: s'.toList →
        tokenize s' = .error ⟨.unterminatedCharacter, 4⟩ := by
  have h := @tokenize_error_viable "x='ab'" ⟨.unterminatedCharacter, 4⟩ (by rfl)
  exact ⟨h.2.1, h.2.2 (by decide)⟩

end Scriptlet
