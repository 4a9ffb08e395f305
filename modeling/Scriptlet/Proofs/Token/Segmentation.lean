import Scriptlet.Proofs.Token.Lexemes

/-! # Tokens as a segmentation of the text

A segmentation of a text puts tokens next to each other with nothing but blanks between them, each
token being the longest lexeme at its place. A text has one segmentation at most, and `tokenize`
finds it: the three step lemmas say what a segmentation does at the end of the text, at a blank and
at the start of a token, which is what the scanning loop does there.

* `tokenize_segments`: reading tokens succeeds exactly on the texts that have a segmentation, with
  the segmentation as its result. -/

namespace Scriptlet

/-- Whether tokens are the segmentation of a text from an offset on. -/
structure IsSegmentation (cs : List Char) (start : Nat) (ts : List Token) : Prop where
  after : ∀ t ∈ ts, start ≤ t.offset
  increasing : ts.Pairwise fun t u => t.offset < u.offset
  apart : ts.Pairwise fun t u => t.stop ≤ u.offset
  text_eq : ∀ t ∈ ts, (cs.drop t.offset).take t.text.length = t.text.toList
  /-- What no token covers is blank. -/
  blank : ∀ i c, start ≤ i → cs[i]? = some c → (∀ t ∈ ts, ¬ (t.offset ≤ i ∧ i < t.stop)) →
    Text.isBlank c = true
  /-- No token starts with a blank. -/
  solid : ∀ t ∈ ts, ∃ c, cs[t.offset]? = some c ∧ Text.isBlank c = false
  lexeme : ∀ t ∈ ts, t.IsLexeme (cs.drop t.offset)

/-- Whether a text is made of the texts of tokens, with blanks before each and at the end. -/
inductive Rebuilds : List Char → List Token → Prop where
  | nil {gap : List Char} : (∀ c ∈ gap, Text.isBlank c = true) → Rebuilds gap []
  | cons {gap cs : List Char} {t : Token} {ts : List Token} :
      (∀ c ∈ gap, Text.isBlank c = true) → Rebuilds cs ts →
      Rebuilds (gap ++ t.text.toList ++ cs) (t :: ts)

/-- A blank in front joins the first gap. -/
theorem Rebuilds.blank {c : Char} {cs : List Char} {ts : List Token} (hc : Text.isBlank c = true)
    (h : Rebuilds cs ts) : Rebuilds (c :: cs) ts := by
  cases h with
  | nil hgap => exact .nil (List.forall_mem_cons.mpr ⟨hc, hgap⟩)
  | @cons gap cs t ts hgap hcs =>
    have hgap : ∀ d ∈ c :: gap, Text.isBlank d = true := List.forall_mem_cons.mpr ⟨hc, hgap⟩
    exact .cons hgap hcs

namespace IsSegmentation

variable {cs : List Char} {start : Nat} {ts : List Token} {c : Char}

theorem lt_length (h : IsSegmentation cs start ts) {t : Token} (ht : t ∈ ts) :
    t.offset < cs.length := by
  obtain ⟨c, hc, -⟩ := h.solid t ht
  exact (List.getElem?_eq_some_iff.mp hc).1

theorem offset_lt_stop (h : IsSegmentation cs start ts) {t : Token} (ht : t ∈ ts) :
    t.offset < t.stop := by
  have hne := TokenKind.ne_nil_of_mem (h.lexeme t ht).mem
  have hpos : 0 < t.text.toList.length := List.length_pos_iff.mpr hne
  rw [String.length_toList] at hpos
  unfold Token.stop
  omega

/-! ### One step -/

theorem end_iff (hlen : cs.length ≤ start) : IsSegmentation cs start ts ↔ ts = [] := by
  constructor
  · intro h
    refine List.eq_nil_iff_forall_not_mem.mpr fun t ht => ?_
    have hafter := h.after t ht
    have hlt := h.lt_length ht
    omega
  · rintro rfl
    refine ⟨by simp, by simp, by simp, by simp, ?_, by simp, by simp⟩
    intro i c hi hc
    have hlt := (List.getElem?_eq_some_iff.mp hc).1
    omega

theorem blank_iff (hc : cs[start]? = some c) (hblank : Text.isBlank c = true) :
    IsSegmentation cs start ts ↔ IsSegmentation cs (start + 1) ts := by
  constructor
  · intro h
    refine { h with after := ?_, blank := ?_ }
    · intro t ht
      have hafter := h.after t ht
      have hne : t.offset ≠ start := by
        intro heq
        obtain ⟨d, hd, hsolid⟩ := h.solid t ht
        rw [heq, hc] at hd
        cases hd
        rw [hblank] at hsolid
        cases hsolid
      omega
    · exact fun i d hi => h.blank i d (by omega)
  · intro h
    refine { h with after := ?_, blank := ?_ }
    · intro t ht
      have hafter := h.after t ht
      omega
    · intro i d hi hd hfree
      by_cases heq : i = start
      · rw [heq, hc] at hd
        cases hd
        exact hblank
      · exact h.blank i d (by omega) hd hfree

theorem token_iff (hc : cs[start]? = some c) (hsolid : Text.isBlank c = false) :
    IsSegmentation cs start ts ↔
      ∃ t us, ts = t :: us ∧ t.offset = start ∧ t.IsLexeme (cs.drop start) ∧
        IsSegmentation cs t.stop us := by
  constructor
  · intro h
    -- the place is not blank, so a token covers it, and that token must start there
    have hcover : ∃ t ∈ ts, t.offset ≤ start ∧ start < t.stop := by
      by_contra hnone
      push Not at hnone
      have hblank := h.blank start c (Nat.le_refl start) hc fun t ht hcov =>
        absurd hcov.2 (Nat.not_lt.mpr (hnone t ht hcov.1))
      rw [hsolid] at hblank
      cases hblank
    obtain ⟨t, ht, hle, -⟩ := hcover
    have hoffset : t.offset = start := Nat.le_antisymm hle (h.after t ht)
    cases ts with
    | nil => cases ht
    | cons u us =>
      have hu : u.offset = start := by
        rcases List.mem_cons.mp ht with rfl | ht
        · exact hoffset
        · have hlt := (List.pairwise_cons.mp h.increasing).1 t ht
          have hafter := h.after u List.mem_cons_self
          omega
      have happart := List.pairwise_cons.mp h.apart
      refine ⟨u, us, rfl, hu, hu ▸ h.lexeme u List.mem_cons_self, ?_⟩
      refine ⟨happart.1, (List.pairwise_cons.mp h.increasing).2, happart.2, ?_, ?_, ?_, ?_⟩
      · exact fun t ht => h.text_eq t (List.mem_cons_of_mem u ht)
      · intro i d hi hd hfree
        have hstop := h.offset_lt_stop (t := u) List.mem_cons_self
        refine h.blank i d (by omega) hd (List.forall_mem_cons.mpr ⟨?_, hfree⟩)
        omega
      · exact fun t ht => h.solid t (List.mem_cons_of_mem u ht)
      · exact fun t ht => h.lexeme t (List.mem_cons_of_mem u ht)
  · rintro ⟨t, us, rfl, rfl, hlex, h⟩
    have hstop : t.offset ≤ t.stop := Nat.le_add_right _ _
    have hpos : 0 < t.text.length := by
      rw [← String.length_toList]
      exact List.length_pos_iff.mpr (TokenKind.ne_nil_of_mem hlex.mem)
    refine ⟨?_, ?_, ?_, ?_, ?_, ?_, ?_⟩
    · refine List.forall_mem_cons.mpr ⟨Nat.le_refl _, fun u hu => ?_⟩
      exact Nat.le_trans hstop (h.after u hu)
    · refine List.pairwise_cons.mpr ⟨fun u hu => ?_, h.increasing⟩
      have hafter := h.after u hu
      unfold Token.stop at hafter
      omega
    · exact List.pairwise_cons.mpr ⟨h.after, h.apart⟩
    · refine List.forall_mem_cons.mpr ⟨?_, h.text_eq⟩
      rw [← String.length_toList]
      exact (List.prefix_iff_eq_take.mp hlex.isPrefix).symm
    · intro i d hi hd hfree
      have hfree := List.forall_mem_cons.mp hfree
      have hge : t.stop ≤ i := by
        have hnot := hfree.1
        omega
      exact h.blank i d hge hd hfree.2
    · exact List.forall_mem_cons.mpr ⟨⟨c, hc, hsolid⟩, h.solid⟩
    · exact List.forall_mem_cons.mpr ⟨hlex, h.lexeme⟩

/-! ### The whole text -/

/-- The tokens of a segmentation and the blanks between them make up the text. -/
theorem rebuilds {start : Nat} {ts : List Token} (h : IsSegmentation cs start ts) :
    Rebuilds (cs.drop start) ts := by
  by_cases hlt : start < cs.length
  · have hc : cs[start]? = some cs[start] := List.getElem?_eq_getElem hlt
    cases hblank : Text.isBlank cs[start] with
    | true =>
      have hrest := rebuilds ((blank_iff hc hblank).mp h)
      rw [List.drop_eq_getElem_cons hlt]
      exact hrest.blank hblank
    | false =>
      obtain ⟨t, us, rfl, rfl, hlex, hus⟩ := (token_iff hc hblank).mp h
      have hdec : t.offset < t.stop := h.offset_lt_stop List.mem_cons_self
      have hrest : Rebuilds ([] ++ t.text.toList ++ cs.drop t.stop) (t :: us) :=
        .cons (by simp) (rebuilds hus)
      have htext : t.text.toList ++ cs.drop t.stop = cs.drop t.offset := by
        obtain ⟨rest, hrest⟩ := hlex.isPrefix
        unfold Token.stop
        rw [← hrest, ← List.drop_drop, ← hrest, ← String.length_toList, List.drop_left]
      rwa [List.nil_append, htext] at hrest
  · rw [(end_iff (Nat.not_lt.mp hlt)).mp h, List.drop_eq_nil_of_le (Nat.not_lt.mp hlt)]
    exact .nil (by simp)
termination_by cs.length - start

end IsSegmentation

namespace Lexer

/-- One token of the scanning loop. -/
theorem scan_token {cs : List Char} {c : Char} {fuel start n : Nat} {k : TokenKind}
    {ts : List Token} (hblank : Text.isBlank c = false)
    (hmeasure : measure (c :: cs) = .ok (k, n)) :
    scan (fuel + 1) start (c :: cs) = .ok ts ↔
      ∃ us, scan fuel (start + n) ((c :: cs).drop n) = .ok us ∧
        ts = ⟨k, String.ofList ((c :: cs).take n), start⟩ :: us := by
  rw [scan, hblank, if_neg Bool.false_ne_true, hmeasure]
  cases hscan : scan fuel (start + n) ((c :: cs).drop n) with
  | error e => simp [bind, Except.bind, hscan]
  | ok us => simp [bind, Except.bind, pure, Except.pure, hscan, eq_comm]

/-- The scanning loop finds the segmentation of what is left, and fails if there is none. -/
theorem scan_eq_ok_iff {cs : List Char} : ∀ {fuel start : Nat} {ts : List Token},
    cs.length ≤ start + fuel →
      (scan fuel start (cs.drop start) = .ok ts ↔ IsSegmentation cs start ts)
  | 0, start, ts, hfuel => by
    have hlen : cs.length ≤ start := hfuel
    rw [scan, IsSegmentation.end_iff hlen]
    exact ⟨fun h => (Except.ok.inj h).symm, fun h => h ▸ rfl⟩
  | fuel + 1, start, ts, hfuel => by
    by_cases hlt : start < cs.length
    · have hc : cs[start]? = some cs[start] := List.getElem?_eq_getElem hlt
      have hdrop := List.drop_eq_getElem_cons hlt
      cases hblank : Text.isBlank cs[start] with
      | true =>
        rw [hdrop, scan, if_pos hblank, scan_eq_ok_iff (by omega),
          IsSegmentation.blank_iff hc hblank]
      | false =>
        rw [IsSegmentation.token_iff hc hblank]
        cases hmeasure : measure (cs[start] :: cs.drop (start + 1)) with
        | error e =>
          rw [hdrop, scan, hblank, if_neg Bool.false_ne_true, hmeasure]
          refine ⟨nofun, ?_⟩
          rintro ⟨t, us, -, -, hlex, -⟩
          rw [measure_of_isLexeme hlex] at hmeasure
          cases hmeasure
        | ok kn =>
          obtain ⟨k, n⟩ := kn
          have hk := measures_of_measure hmeasure
          rw [hdrop, scan_token hblank hmeasure, ← hdrop, List.drop_drop]
          rw [← hdrop] at hk
          have hlen : (String.ofList ((cs.drop start).take n)).length = n := by
            rw [String.length_ofList, List.length_take, Nat.min_eq_left hk.le]
          have hpos : 0 < n := by
            rw [← hlen, ← String.length_toList]
            have hlex : Token.IsLexeme ⟨k, _, 0⟩ _ := hk.isLexeme
            exact List.length_pos_iff.mpr (TokenKind.ne_nil_of_mem hlex.mem)
          have ih (us : List Token) : scan fuel (start + n) (cs.drop (start + n)) = .ok us ↔
              IsSegmentation cs (start + n) us := scan_eq_ok_iff (by omega)
          constructor
          · rintro ⟨us, hscan, rfl⟩
            refine ⟨_, us, rfl, rfl, hk.isLexeme, ?_⟩
            unfold Token.stop
            rw [hlen]
            exact (ih us).mp hscan
          · rintro ⟨t, us, rfl, rfl, hlex, hus⟩
            obtain ⟨hkind, htext⟩ := hlex.unique (hk.isLexeme (o := t.offset))
            have hstop : t.stop = t.offset + n := by
              unfold Token.stop
              rw [htext, hlen]
            rw [hstop] at hus
            refine ⟨us, (ih us).mpr hus, ?_⟩
            obtain ⟨kind, text, offset⟩ := t
            simp only at hkind htext ⊢
            rw [hkind, htext]
    · have hlen := Nat.not_lt.mp hlt
      rw [IsSegmentation.end_iff hlen, List.drop_eq_nil_of_le hlen]
      exact ⟨fun h => (Except.ok.inj h).symm, fun h => h ▸ rfl⟩

end Lexer

theorem tokenize_eq_ok_iff {s : String} {ts : List Token} :
    tokenize s = .ok ts ↔ IsSegmentation s.toList 0 ts := by
  have hscan : Lexer.scan s.toList.length 0 (s.toList.drop 0) = .ok ts ↔
      IsSegmentation s.toList 0 ts := Lexer.scan_eq_ok_iff (by omega)
  rwa [List.drop_zero] at hscan

/-- **Reading tokens is segmentation.** The tokens of a text are its segmentation, from which it can
be rebuilt; a text without a segmentation is refused. -/
theorem tokenize_segments (s : String) :
    (∀ ts, tokenize s = .ok ts ↔ IsSegmentation s.toList 0 ts) ∧
      ((∃ e, tokenize s = .error e) ↔ ¬ ∃ ts, IsSegmentation s.toList 0 ts) ∧
      ∀ ts, IsSegmentation s.toList 0 ts → Rebuilds s.toList ts := by
  refine ⟨fun ts => tokenize_eq_ok_iff, ?_, fun ts h => h.rebuilds⟩
  simp only [← tokenize_eq_ok_iff]
  cases tokenize s with
  | error e => simp
  | ok ts => simp

/-- A hyphen inside a name, two characters of one operator, and a negative number whose leading zero
ends it. -/
theorem tokenize_segments_mixed :
    IsSegmentation "x-1 != -02.5".toList 0
        [⟨.identifier, "x-1", 0⟩, ⟨.operator, "!=", 4⟩, ⟨.integer, "-0", 7⟩,
          ⟨.decimal, "2.5", 9⟩] ∧
      Rebuilds "x-1 != -02.5".toList
        [⟨.identifier, "x-1", 0⟩, ⟨.operator, "!=", 4⟩, ⟨.integer, "-0", 7⟩,
          ⟨.decimal, "2.5", 9⟩] := by
  have h := tokenize_segments "x-1 != -02.5"
  have hread : tokenize "x-1 != -02.5" = .ok
      [⟨.identifier, "x-1", 0⟩, ⟨.operator, "!=", 4⟩, ⟨.integer, "-0", 7⟩,
        ⟨.decimal, "2.5", 9⟩] := by
    rfl
  have hseg := (h.1 _).mp hread
  exact ⟨hseg, h.2.2 _ hseg⟩

end Scriptlet
