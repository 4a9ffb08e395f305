import Scriptlet.Proofs.Syntax.Recognition
import Scriptlet.Proofs.Token.Spacing
import Scriptlet.Proofs.Value.Arithmetic

/-! # Plain numbers

A number is written as a sign, an integer part without superfluous zeros, and perhaps a point with
digits after it. Such a text is one token, and the literal that is read from it stands for the
number that is written, as a decimal if there is a point and as an integer if there is none. Zeros
make room for a point in front of short coefficients, and stand for a positive exponent.

* `PlainNumber.tokenize_text`, `PlainNumber.exists_literal`: plain numbers are read.
* `Value.exists_isWritten`: finite numbers are written as plain numbers.
* `number_text_reads_back`: the text of a number is read as the number. -/

namespace Scriptlet

open Lexical
open Grammar (signText AreDigits Literal)

/-- A number as it is written without an exponent. -/
structure PlainNumber where
  neg : Bool
  whole : List Char
  /-- The digits after the point; without any, there is no point. -/
  fraction : List Char
  whole_mem : whole ∈ Lexical.whole
  isDigit_of_mem : ∀ c ∈ fraction, IsDigit c

namespace PlainNumber

/-- The text of a plain number. -/
def text (x : PlainNumber) : String :=
  String.ofList (signText x.neg ++ Decimal.layout x.whole x.fraction none)

/-- The class of a plain number. -/
def kind (x : PlainNumber) : TokenKind :=
  if x.fraction = [] then .integer else .decimal

/-- The number that is written, with its digits as coefficient. -/
def number (x : PlainNumber) : Decimal :=
  .finite x.neg (Text.digitsValue (x.whole ++ x.fraction)) (-x.fraction.length)

/-- The value that is written: a number without a point is an integer. -/
def value (x : PlainNumber) : Value :=
  if x.fraction = [] then .int (Decimal.signed x.neg (Text.digitsValue x.whole))
  else .decimal x.number

/-- Whether a plain number is short enough to be read. -/
def Fits (x : PlainNumber) : Prop :=
  if x.fraction = [] then x.whole.length ≤ Text.maxDigits else x.number.InRange

variable (x : PlainNumber)

theorem areDigits_whole : AreDigits x.whole :=
  Grammar.areDigits_of_mem_whole x.whole_mem

theorem text_toList : x.text.toList =
    signText x.neg ++ x.whole ++ if x.fraction = [] then [] else '.' :: x.fraction := by
  rw [text, String.toList_ofList, Decimal.layout, Decimal.exponentText, List.append_nil,
    List.append_assoc]

theorem text_mem : x.text.toList ∈ x.kind.language := by
  have hsign : signText x.neg ∈ sign := by
    cases x.neg with
    | true => exact .inr rfl
    | false => exact .inl rfl
  have hfront : signText x.neg ++ x.whole ∈ TokenKind.integer.language :=
    Language.append_mem_mul hsign x.whole_mem
  rw [text_toList, kind]
  split_ifs with hf
  · rwa [List.append_nil]
  · exact Language.append_mem_mul hfront (mem_fraction.mpr ⟨_, rfl, hf, x.isDigit_of_mem⟩)

theorem kind_cases : x.kind = .integer ∨ x.kind = .decimal := by
  unfold kind
  split_ifs
  · exact .inl rfl
  · exact .inr rfl

/-- **A plain number is one token.** -/
theorem tokenize_text : tokenize x.text = .ok [⟨x.kind, x.text, 0⟩] := by
  have hkind : x.kind ≠ .operator := by rcases x.kind_cases with h | h <;> rw [h] <;> decide
  exact tokenize_of_mem hkind x.text_mem

/-- A plain number has no letters. -/
theorem not_isLetter_of_mem {c : Char} (h : c ∈ x.text.toList) : ¬ IsLetter c := by
  have hnumber : x.text.toList ∈ Form.number.language := by
    refine ⟨x.kind, ?_, x.text_mem⟩
    rcases x.kind_cases with h | h <;> rw [h] <;> rfl
  rcases mem_number hnumber c h with rfl | hc | rfl
  · decide
  · exact fun hletter => not_isNameStart_of_isDigit hc (.inl hletter)
  · decide

theorem isFinite_value : x.value.IsFinite := by
  unfold value
  split_ifs
  · trivial
  · rfl

variable {x}

/-- **A plain number is a literal** that stands for the number that is written. -/
theorem exists_literal (hx : x.Fits) : ∃ l : Literal, l.token = ⟨x.kind, x.text, 0⟩ ∧ l.IsPlain ∧
    Value.ofLiteral l.value l.kind = x.value := by
  have hlexical : Grammar.IsLexical ⟨x.kind, x.text, 0⟩ := x.text_mem
  have htext := x.text_toList
  unfold Fits at hx
  by_cases hf : x.fraction = []
  · have hkind : x.kind = .integer := if_pos hf
    rw [if_pos hf] at hx htext
    rw [List.append_nil] at htext
    refine ⟨⟨_, hlexical, _, _, .integer hkind x.areDigits_whole htext⟩, rfl, fun _ => ?_, ?_⟩
    · rw [htext, Grammar.countP_signText x.areDigits_whole]
      exact hx
    · exact (if_pos hf).symm
  · have hkind : x.kind = .decimal := if_neg hf
    rw [if_neg hf] at hx htext
    refine ⟨⟨_, hlexical, _, _, .decimal hkind x.areDigits_whole ⟨hf, x.isDigit_of_mem⟩ htext hx⟩,
      rfl, fun hinteger => ?_, ?_⟩
    · cases hkind.symm.trans hinteger
    · exact (if_neg hf).symm

/-! ### Integers -/

/-- The first digits of a number have no superfluous zero. -/
theorem mem_whole_of_isPrefix {n : ℕ} {w : List Char} (hne : w ≠ [])
    (hw : w <+: Nat.toDigits 10 n) : w ∈ Lexical.whole := by
  have hdigit : ∀ c ∈ w, IsDigit c := fun c hc =>
    Lexer.isAsciiDigit_iff.mp (Text.isAsciiDigit_of_mem_toDigits (hw.mem hc))
  obtain ⟨c, v, rfl⟩ := List.exists_cons_of_ne_nil hne
  rcases Nat.eq_zero_or_pos n with rfl | hn
  · have hlen := hw.length_le
    exact mem_whole.mpr (.inl (hw.eq_of_length (Nat.le_antisymm hlen (by simp))))
  · obtain ⟨rest, hrest⟩ := hw
    have hhead := Text.head_toDigits hn
    rw [← hrest, List.cons_append, List.head?_cons] at hhead
    have hdigit := List.forall_mem_cons.mp hdigit
    exact mem_whole.mpr (.inr ⟨c, v, rfl, ⟨hdigit.1, fun h => hhead (congrArg some h)⟩, hdigit.2⟩)

/-- An integer as it is written. -/
def ofNat (neg : Bool) (n : ℕ) : PlainNumber where
  neg := neg
  whole := Nat.toDigits 10 n
  fraction := []
  whole_mem := mem_whole_of_isPrefix Nat.toDigits_ne_nil List.prefix_rfl
  isDigit_of_mem := nofun

theorem text_ofNat (neg : Bool) (n : ℕ) :
    (ofNat neg n).text = String.ofList (signText neg ++ Nat.toDigits 10 n) := by
  rw [text, Decimal.layout, Decimal.exponentText, List.append_nil]
  exact congrArg _ (congrArg _ (List.append_nil _))

theorem value_ofNat (neg : Bool) (n : ℕ) : (ofNat neg n).value = .int (Decimal.signed neg n) := by
  rw [value, if_pos (by rfl)]
  exact congrArg (fun k : ℕ => Value.int (Decimal.signed neg k)) (Text.digitsValue_toDigits n)

theorem fits_ofNat (neg : Bool) {n : ℕ} (hn : n < tenTo Text.maxDigits) : (ofNat neg n).Fits := by
  rw [Fits, if_pos (by rfl)]
  exact Text.length_toDigits_le hn

end PlainNumber

namespace Value

variable {h : Heap} {neg : Bool} {c : ℕ} {e : ℤ}

/-- Whether a plain number is the text of a value, short enough to be read as an equal number; as
the same number if that is an integer or has a point. -/
structure IsWritten (h : Heap) (v : Value) (x : PlainNumber) : Prop where
  text_eq : h.text v = .ok x.text
  fits : x.Fits
  toRat_eq : x.value.toRat = v.toRat
  eq_of_isInteger : v.IsInteger → x.value = v
  eq_of_point : ∀ neg c e, v = .decimal (.finite neg c e) → e < 0 → x.value = v

theorem lt_tenTo_of_cast {n k : ℕ} (hn : (n : ℚ) < 10 ^ k) : n < tenTo k := by
  have hpow : tenTo k = 10 ^ k := rfl
  rw [hpow]
  exact_mod_cast hn

theorem not_isInteger_decimal (d : Decimal) : ¬ (decimal d).IsInteger := by
  rintro ⟨n, hn⟩
  cases hn

theorem isWritten_int {n : ℤ} (hn : |(int n).toRat| < 10 ^ Text.maxDigits) :
    IsWritten h (.int n) (.ofNat (n < 0) n.natAbs) := by
  have hnat : n.natAbs < tenTo Text.maxDigits := by
    rw [toRat, ← Int.cast_abs, ← Int.natCast_natAbs, Int.cast_natCast] at hn
    exact lt_tenTo_of_cast hn
  have htext : h.text (.int n) = .ok (toString n) := by
    rw [Heap.text, Heap.render, Heap.renderAt_int, showInt, if_pos hnat]
    rfl
  have hvalue : (PlainNumber.ofNat (n < 0) n.natAbs).value = .int n := by
    rw [PlainNumber.value_ofNat, int.injEq, Decimal.signed]
    split_ifs with hneg <;> simp only [decide_eq_true_eq] at hneg <;> omega
  refine ⟨?_, PlainNumber.fits_ofNat _ hnat, by rw [hvalue], fun _ => hvalue,
    fun _ _ _ hdecimal => by cases hdecimal⟩
  rw [htext, PlainNumber.text_ofNat, Except.ok.injEq, Text.plain.injEq, ← String.toList_inj,
    String.toList_ofList, Text.toList_toString_int]
  split_ifs with hneg
  · rw [decide_eq_false (by omega)]
    rfl
  · rw [decide_eq_true (by omega)]
    rfl

theorem text_decimal : h.text (.decimal (.finite neg c e)) =
    .ok (String.ofList (signText neg ++ Decimal.plainMagnitude c e)) := by
  cases neg <;> rfl

/-- A positive exponent is written as zeros. -/
theorem plainMagnitude_eq (he : 0 ≤ e) :
    Decimal.plainMagnitude c e = Nat.toDigits 10 (c * 10 ^ e.toNat) := by
  rw [Decimal.plainMagnitude, if_neg (not_lt.mpr he)]
  split_ifs with hc
  · rw [hc, Nat.zero_mul]
    rfl
  · exact Text.toDigits_append_zeros (Nat.pos_of_ne_zero hc) e.toNat

theorem isWritten_scaled (he : 0 ≤ e)
    (hshort : |(decimal (.finite neg c e)).toRat| < 10 ^ Text.maxDigits) :
    IsWritten h (.decimal (.finite neg c e)) (.ofNat neg (c * 10 ^ e.toNat)) := by
  have hcast : ((c * 10 ^ e.toNat : ℕ) : ℚ) = c * 10 ^ e := by
    rw [Nat.cast_mul, ← Decimal.cast_tenTo he]
    rfl
  have hnat : c * 10 ^ e.toNat < tenTo Text.maxDigits := by
    rw [toRat, Decimal.abs_value, ← hcast] at hshort
    exact lt_tenTo_of_cast hshort
  refine ⟨?_, PlainNumber.fits_ofNat _ hnat, ?_, fun hv => absurd hv (not_isInteger_decimal _), ?_⟩
  · rw [text_decimal, PlainNumber.text_ofNat, plainMagnitude_eq he]
  · rw [PlainNumber.value_ofNat, toRat, toRat, Decimal.value_eq_ite]
    cases neg <;> simp [Decimal.signed, ← hcast]
  · rintro neg c e' ⟨⟩ he'
    exact absurd he (not_le.mpr he')

/-- A negative exponent is the number of digits after the point. -/
theorem exists_isWritten_point (he : e < 0) (hrange : (Decimal.finite neg c e).InRange) :
    ∃ x, IsWritten h (.decimal (.finite neg c e)) x := by
  have hdigit : ∀ d ∈ Decimal.digits c, Text.isAsciiDigit d = true :=
    fun d => Text.isAsciiDigit_of_mem_toDigits
  obtain ⟨w, f, hne, -, hf, hlayout, hvalue, hlen, hfirst⟩ :=
    Decimal.withPoint_eq hdigit (show (-e).toNat ≠ 0 by omega)
  -- a zero in front is there only if nothing else stands before the point
  have hw : w ∈ Lexical.whole := by
    rcases hfirst with rfl | hprefix
    · exact mem_whole.mpr (.inl rfl)
    · exact PlainNumber.mem_whole_of_isPrefix hne hprefix
  have hf_ne : f ≠ [] := by
    rintro rfl
    rw [List.length_nil] at hlen
    omega
  let x : PlainNumber := ⟨neg, w, f, hw, fun d hd => Lexer.isAsciiDigit_iff.mp (hf d hd)⟩
  have hnumber : x.number = .finite neg c e := by
    rw [PlainNumber.number, hvalue, hlen, Decimal.digits, Text.digitsValue_toDigits]
    congr 1
    omega
  have hx : x.value = .decimal (.finite neg c e) := (if_neg hf_ne).trans (congrArg _ hnumber)
  refine ⟨x, ?_, ?_, by rw [hx], fun hv => absurd hv (not_isInteger_decimal _), ?_⟩
  · rw [text_decimal, Decimal.plainMagnitude, if_pos he, hlayout]
    rfl
  · rw [PlainNumber.Fits, if_neg hf_ne, hnumber]
    exact hrange
  · rintro neg c e ⟨⟩ -
    exact hx

/-- **Finite numbers are written as plain numbers.** -/
theorem exists_isWritten {v : Value} (hv : v.IsFinite)
    (hrange : ∀ d, v = .decimal d → d.InRange) (hshort : |v.toRat| < 10 ^ Text.maxDigits) :
    ∃ x, IsWritten h v x := by
  rcases hv.cases with ⟨n, rfl⟩ | ⟨neg, c, e, rfl⟩
  · exact ⟨_, isWritten_int hshort⟩
  · rcases Int.lt_or_le e 0 with he | he
    · exact exists_isWritten_point he (hrange _ rfl)
    · exact ⟨_, isWritten_scaled he hshort⟩

end Value

/-- **Printed numbers read back.** The text of a finite number has no exponent and is a single
token, and the expression that is read from it is a literal of an equal number: the same integer,
and the same sign, coefficient and exponent if there are digits after the point. Left out are
integer parts with more digits than are converted, and exponents that no decimal has. -/
theorem number_text_reads_back (h : Heap) {v : Value} (hv : v.IsFinite)
    (hrange : ∀ d, v = .decimal d → d.InRange) (hshort : |v.toRat| < 10 ^ Text.maxDigits) :
    ∃ s : String, ∃ j x k, h.text v = .ok s ∧
      'e' ∉ s.toList ∧ 'E' ∉ s.toList ∧
      tokenize s = .ok [⟨j, s, 0⟩] ∧ (j = .integer ∨ j = .decimal) ∧
      parseExpression [⟨j, s, 0⟩] = .ok (.literal x k none, []) ∧
      (Value.ofLiteral x k).IsFinite ∧ (Value.ofLiteral x k).toRat = v.toRat ∧
      (v.IsInteger → Value.ofLiteral x k = v) ∧
      ∀ neg c e, v = .decimal (.finite neg c e) → e < 0 → Value.ofLiteral x k = v := by
  obtain ⟨x, hx⟩ := Value.exists_isWritten (h := h) hv hrange hshort
  obtain ⟨l, htoken, hplain, hvalue⟩ := PlainNumber.exists_literal hx.fits
  have hread := parseExpression_literal hplain
  rw [htoken] at hread
  refine ⟨x.text, x.kind, l.value, l.kind, hx.text_eq, ?_, ?_, x.tokenize_text, x.kind_cases, hread,
    ?_⟩
  · exact fun h => x.not_isLetter_of_mem h (by decide)
  · exact fun h => x.not_isLetter_of_mem h (by decide)
  · rw [hvalue]
    exact ⟨x.isFinite_value, hx.toRat_eq, hx.eq_of_isInteger, hx.eq_of_point⟩

theorem number_text_reads_back_half :
    (Value.decimal (.finite true 5 (-1))).IsFinite ∧ (Decimal.finite true 5 (-1)).InRange ∧
    |(Value.decimal (.finite true 5 (-1))).toRat| < 10 ^ Text.maxDigits ∧
    Heap.text {} (.decimal (.finite true 5 (-1))) = .ok "-0.5" ∧
    ∃ x k, tokenize "-0.5" = .ok [⟨.decimal, "-0.5", 0⟩] ∧
      parseExpression [⟨.decimal, "-0.5", 0⟩] = .ok (.literal x k none, []) ∧
      Value.ofLiteral x k = .decimal (.finite true 5 (-1)) := by
  have hrange : (Decimal.finite true 5 (-1)).InRange := ⟨by decide, by decide⟩
  have hshort : |(Value.decimal (.finite true 5 (-1))).toRat| < 10 ^ Text.maxDigits := by
    have hpow : (1 : ℚ) ≤ 10 ^ Text.maxDigits := one_le_pow₀ (by norm_num)
    have hhalf : ((5 : ℕ) : ℚ) * 10 ^ (-1 : ℤ) < 1 := by norm_num
    rw [Value.toRat, Decimal.abs_value]
    exact hhalf.trans_le hpow
  have htext : Heap.text {} (.decimal (.finite true 5 (-1))) = .ok "-0.5" := rfl
  obtain ⟨s, j, x, k, hs, -, -, htokens, -, hread, -, -, -, hpoint⟩ :=
    number_text_reads_back {} (v := .decimal (.finite true 5 (-1))) rfl
      (by rintro d ⟨⟩; exact hrange) hshort
  obtain ⟨⟩ := Except.ok.inj (htext.symm.trans hs)
  have hdecimal : tokenize "-0.5" = .ok [⟨.decimal, "-0.5", 0⟩] := rfl
  obtain rfl : TokenKind.decimal = j := by
    have hsame := Except.ok.inj (hdecimal.symm.trans htokens)
    exact congrArg Token.kind (List.head_eq_of_cons_eq hsame)
  exact ⟨rfl, hrange, hshort, htext, x, k, htokens, hread, hpoint _ _ _ rfl (by decide)⟩

end Scriptlet
