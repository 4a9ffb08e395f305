import Mathlib.Data.Char
import Scriptlet.Json.Printer
import Scriptlet.Json.Reader
import Scriptlet.Power
import Scriptlet.Proofs.Decimal.Written

/-! # Printed texts and numbers are read

A text is read from its escaped characters, whatever comes after its closing quote. An integer is
read from its digits if it has no more than are converted, and if what comes next does not go on
with a number (`Ends`).

* `readText_textBody`: a text is read from what is printed for it.
* `readAtom_toString`: an integer is read from what is printed for it.
* `not_mem_writeText`, `not_mem_toString`: neither has a carriage return. -/

namespace Scriptlet.Json

/-! ### Texts -/

theorem not_surrogate (c : Char) : ¬ (0xD800 ≤ c.toNat ∧ c.toNat ≤ 0xDFFF) := by
  have := c.valid
  simp only [UInt32.isValidChar, Nat.isValidChar] at this
  change ¬ (0xD800 ≤ c.val.toNat ∧ c.val.toNat ≤ 0xDFFF)
  omega

theorem ofCode_toNat (c : Char) : CodePoint.ofCode c.toNat = .char c := by
  rw [CodePoint.ofCode, dif_neg (not_surrogate c), Char.ofNat_toNat]

/-- Characters are no halves of surrogate pairs. -/
theorem pointsOfCodes_toNat : ∀ cs : List Char, pointsOfCodes (cs.map Char.toNat) = cs.map .char
  | [] => rfl
  | [c] => by simp [pointsOfCodes, ofCode_toNat]
  | c :: d :: cs => by
    have hpair : ¬ (0xD800 ≤ c.toNat ∧ c.toNat ≤ 0xDBFF) := by
      have := not_surrogate c
      omega
    have ih := pointsOfCodes_toNat (d :: cs)
    rw [List.map_cons] at ih
    simp [pointsOfCodes, ofCode_toNat, hpair, ih]

theorem hex4?_hexDigit : ∀ n < 32, hex4? (Text.hexDigit (n / 16 / 16 / 16 % 16))
    (Text.hexDigit (n / 16 / 16 % 16)) (Text.hexDigit (n / 16 % 16)) (Text.hexDigit (n % 16)) =
      some n := by
  decide

/-- A character is read from what is printed for it. -/
theorem readText_escapeChar (start : Nat) (c : Char) (offset : Nat) (done : List Nat)
    (d : Char) (rest : List Char) : ∃ o, readText start offset done (escapeChar c ++ d :: rest) =
      readText start o (c.toNat :: done) (d :: rest) := by
  unfold escapeChar
  split_ifs with hquote hbackslash hfeed hreturn htab h8 h12 hcontrol
  · exact ⟨offset + 2, by simp [readText, escaped?, hquote]⟩
  · exact ⟨offset + 2, by simp [readText, escaped?, hbackslash]⟩
  · exact ⟨offset + 2, by simp [readText, escaped?, hfeed]⟩
  · exact ⟨offset + 2, by simp [readText, escaped?, hreturn]⟩
  · exact ⟨offset + 2, by simp [readText, escaped?, htab]⟩
  · exact ⟨offset + 2, by simp [readText, escaped?, h8]⟩
  · exact ⟨offset + 2, by simp [readText, escaped?, h12]⟩
  · refine ⟨offset + 6, ?_⟩
    have hhex := hex4?_hexDigit c.toNat hcontrol
    simp [Text.hexDigits, readText, hhex]
  · refine ⟨offset + 1, ?_⟩
    rw [List.singleton_append, readText, if_neg hcontrol]
    · simp [hquote]
    · simp [hbackslash]
    · simp [hbackslash]
    · simp [hbackslash]
    · simp [hbackslash]

theorem readText_escaped (start : Nat) (rest : List Char) :
    ∀ (cs : List Char) (offset : Nat) (done : List Nat),
      ∃ o, readText start offset done (cs.flatMap escapeChar ++ '"' :: rest) =
        .ok (.ofPoints (pointsOfCodes (done.reverse ++ cs.map Char.toNat)), ⟨rest, o⟩)
  | [], offset, done => ⟨offset + 1, by simp [readText]⟩
  | c :: cs, offset, done => by
    obtain ⟨d, tail, htail⟩ : ∃ d tail, cs.flatMap escapeChar ++ '"' :: rest = d :: tail :=
      List.exists_cons_of_ne_nil (by simp)
    obtain ⟨o, ho⟩ := readText_escapeChar start c offset done d tail
    obtain ⟨o', ho'⟩ := readText_escaped start rest cs o (c.toNat :: done)
    refine ⟨o', ?_⟩
    rw [List.flatMap_cons, List.append_assoc, htail, ho, ← htail, ho']
    simp

/-- What stands after the opening quote of a text. -/
def textBody (t : Text) : List Char :=
  t.points.flatMap escapePoint ++ ['"']

theorem toList_writeText (t : Text) : (writeText t).toList = '"' :: textBody t := by
  simp [writeText, textBody]

theorem textBody_plain (s : String) : textBody s = s.toList.flatMap escapeChar ++ ['"'] := by
  simp [textBody, Text.points, List.flatMap_map, escapePoint]

theorem readText_textBody (start : Nat) (s : String) (offset : Nat) (rest : List Char) :
    ∃ o, readText start offset [] (textBody s ++ rest) = .ok (.plain s, ⟨rest, o⟩) := by
  obtain ⟨o, ho⟩ := readText_escaped start rest s.toList offset []
  refine ⟨o, ?_⟩
  rw [textBody_plain, List.append_assoc, List.singleton_append, ho, List.reverse_nil,
    List.nil_append, pointsOfCodes_toNat, Text.ofPoints_chars, String.ofList_toList]

/-! ### Numbers -/

/-- Whether what comes next does not go on with a number. -/
def Ends (rest : List Char) : Prop :=
  ∀ c ∈ rest.head?, c = ',' ∨ c = '\n'

theorem Ends.not_digit {rest : List Char} (h : Ends rest) :
    ∀ c ∈ rest.head?, Text.isAsciiDigit c = false := by
  intro c hc
  rcases h c hc with rfl | rfl
  · rfl
  · rfl

theorem takeWhile_digits {ds rest : List Char} (hds : ∀ d ∈ ds, Text.isAsciiDigit d = true)
    (hrest : Ends rest) : (ds ++ rest).takeWhile Text.isAsciiDigit = ds := by
  rw [List.takeWhile_append_of_pos hds]
  cases rest with
  | nil => simp
  | cons c rest => simp [hrest.not_digit c rfl]

/-- All digits of a number are taken: a zero stands only alone. -/
theorem integerLength_toDigits (n : Nat) {rest : List Char} (hrest : Ends rest) :
    integerLength (Nat.toDigits 10 n ++ rest) = some (Nat.toDigits 10 n).length := by
  rcases Nat.eq_zero_or_pos n with rfl | hn
  · rfl
  · have htake : (Nat.toDigits 10 n ++ rest).takeWhile Text.isAsciiDigit = Nat.toDigits 10 n :=
      takeWhile_digits (fun d hd => Text.isAsciiDigit_of_mem_toDigits hd) hrest
    have hhead := Text.head_toDigits hn
    obtain ⟨d, ds, hds⟩ := List.exists_cons_of_ne_nil (Nat.toDigits_ne_nil (n := n) (b := 10))
    have hdigit : Text.isAsciiDigit d = true :=
      Text.isAsciiDigit_of_mem_toDigits (n := n) (by rw [hds]; exact List.mem_cons_self)
    rw [hds] at htake hhead ⊢
    rw [List.cons_append] at htake ⊢
    rw [integerLength, if_pos hdigit, htake]
    simpa using hhead

theorem Ends.fractionLength {rest : List Char} (h : Ends rest) : fractionLength rest = 0 := by
  unfold Json.fractionLength
  split
  · rcases h '.' rfl with hc | hc
    · cases hc
    · cases hc
  · rfl

theorem Ends.exponentLength {rest : List Char} (h : Ends rest) : exponentLength rest = 0 := by
  unfold Json.exponentLength
  split
  · next c rest =>
    rcases h c rfl with rfl | rfl
    · rfl
    · rfl
  · rfl

theorem readNumber_unsigned {ds rest : List Char} (hhead : (ds ++ rest).head? ≠ some '-')
    (hlength : integerLength (ds ++ rest) = some ds.length) (hlimit : ds.length ≤ Text.maxDigits)
    (hrest : Ends rest) (offset : Nat) :
    readNumber (some Text.maxDigits) ⟨ds ++ rest, offset⟩ =
      .ok (.int (Text.digitsValue ds), ⟨rest, offset + ds.length⟩) := by
  have hlimit := Nat.not_lt.mpr hlimit
  simp only [readNumber, hhead, if_false, hlength, List.drop_left, hrest.fractionLength,
    Nat.add_zero, hrest.exponentLength, decide_true, Bool.and_self, if_true, Option.any_some,
    hlimit, decide_false, Bool.false_eq_true, List.take_left, Rest.drop, Nat.zero_add]

theorem readNumber_negative {ds rest : List Char}
    (hlength : integerLength (ds ++ rest) = some ds.length) (hlimit : ds.length ≤ Text.maxDigits)
    (hrest : Ends rest) (offset : Nat) :
    readNumber (some Text.maxDigits) ⟨'-' :: (ds ++ rest), offset⟩ =
      .ok (.int (-Text.digitsValue ds), ⟨rest, offset + (1 + ds.length)⟩) := by
  have hlimit := Nat.not_lt.mpr hlimit
  simp only [readNumber, List.head?_cons, if_true, List.drop_succ_cons, List.drop_zero, hlength,
    List.drop_left, hrest.fractionLength, Nat.add_zero, hrest.exponentLength, decide_true,
    Bool.and_self, Option.any_some, hlimit, decide_false, Bool.false_eq_true, if_false,
    List.take_left, Rest.drop, Nat.add_comm 1]

/-- **An integer is read from its digits.** -/
theorem readNumber_toString {n : Int} (hn : n.natAbs < tenTo Text.maxDigits) {rest : List Char}
    (hrest : Ends rest) (offset : Nat) :
    ∃ o, readNumber (some Text.maxDigits) ⟨(toString n).toList ++ rest, offset⟩ =
      .ok (.int n, ⟨rest, o⟩) := by
  have hlength := integerLength_toDigits n.natAbs hrest
  have hlimit := Text.length_toDigits_le hn
  rw [Text.toList_toString_int]
  by_cases hnonneg : 0 ≤ n
  · have hhead : (Nat.toDigits 10 n.natAbs ++ rest).head? ≠ some '-' := by
      obtain ⟨d, ds, hds⟩ :=
        List.exists_cons_of_ne_nil (Nat.toDigits_ne_nil (n := n.natAbs) (b := 10))
      have hdigit : Text.isAsciiDigit d = true :=
        Text.isAsciiDigit_of_mem_toDigits (n := n.natAbs) (by rw [hds]; exact List.mem_cons_self)
      rw [hds]
      intro hd
      cases hd
      cases hdigit
    rw [if_pos hnonneg, readNumber_unsigned hhead hlength hlimit hrest, Text.digitsValue_toDigits,
      Int.natAbs_of_nonneg hnonneg]
    exact ⟨_, rfl⟩
  · have habs : -(n.natAbs : Int) = n := by omega
    rw [if_neg hnonneg, List.cons_append, readNumber_negative hlength hlimit hrest,
      Text.digitsValue_toDigits, habs]
    exact ⟨_, rfl⟩

/-! ### Atoms -/

theorem find?_words_of_digit {c : Char} (hc : Text.isAsciiDigit c = true) (t : List Char) :
    words.find? (fun w => w.1.isPrefixOf (c :: t)) = none ∧
      words.find? (fun w => w.1.isPrefixOf ('-' :: c :: t)) = none := by
  have hother : ['n', 't', 'f', 'N', 'I', '-'].all (fun d => !Text.isAsciiDigit d) = true := by
    decide
  have hne : ∀ d ∈ ['n', 't', 'f', 'N', 'I', '-'], d ≠ c := by
    rintro d hd rfl
    have hd := List.all_eq_true.mp hother d hd
    rw [hc] at hd
    cases hd
  simp only [List.mem_cons, List.not_mem_nil, or_false, forall_eq_or_imp, forall_eq] at hne
  obtain ⟨hn, ht, hf, hN, hI, hminus⟩ := hne
  simp [words, hn, ht, hf, hN, hI, hminus]

theorem exists_digit_toString (n : Int) : ∃ c t, Text.isAsciiDigit c = true ∧
    ((toString n).toList = c :: t ∨ (toString n).toList = '-' :: c :: t) := by
  obtain ⟨c, t, ht⟩ := List.exists_cons_of_ne_nil (Nat.toDigits_ne_nil (n := n.natAbs) (b := 10))
  refine ⟨c, t, Text.isAsciiDigit_of_mem_toDigits (n := n.natAbs) ?_, ?_⟩
  · rw [ht]
    exact List.mem_cons_self
  · rw [Text.toList_toString_int, ht]
    split_ifs
    · exact Or.inl rfl
    · exact Or.inr rfl

theorem readAtom_toString {n : Int} (hn : n.natAbs < tenTo Text.maxDigits) {rest : List Char}
    (hrest : Ends rest) (offset : Nat) :
    ∃ o, readAtom (some Text.maxDigits) ⟨(toString n).toList ++ rest, offset⟩ =
      .ok (.int n, ⟨rest, o⟩) := by
  have hfind : words.find? (fun w => w.1.isPrefixOf ((toString n).toList ++ rest)) = none := by
    obtain ⟨c, t, hc, ht | ht⟩ := exists_digit_toString n
    · rw [ht]
      exact (find?_words_of_digit hc _).1
    · rw [ht]
      exact (find?_words_of_digit hc _).2
  rw [readAtom, hfind]
  exact readNumber_toString hn hrest offset

/-! ### Line ends -/

theorem not_mem_escapeChar (c : Char) : '\r' ∉ escapeChar c := by
  unfold escapeChar
  split_ifs with hquote hbackslash hfeed hreturn htab h8 h12 hcontrol
  · decide
  · decide
  · decide
  · decide
  · decide
  · decide
  · decide
  · have hhex : ∀ n < 32, '\r' ∉ '\\' :: 'u' :: Text.hexDigits 4 n := by decide
    exact hhex c.toNat hcontrol
  · simpa using Ne.symm hreturn

theorem not_mem_writeText (s : String) : '\r' ∉ (writeText s).toList := by
  rw [toList_writeText, textBody_plain]
  simp [not_mem_escapeChar]

theorem not_mem_toString (n : Int) : '\r' ∉ (toString n).toList := by
  have hdigits : '\r' ∉ Nat.toDigits 10 n.natAbs := by
    intro hmem
    cases Text.isAsciiDigit_of_mem_toDigits hmem
  rw [Text.toList_toString_int]
  split_ifs
  · exact hdigits
  · simpa using hdigits

end Scriptlet.Json
