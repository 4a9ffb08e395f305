import Mathlib.Data.List.TakeWhile
import Mathlib.Data.Nat.Digits.Defs
import Mathlib.Tactic.SplitIfs
import Scriptlet.Decimal.Printer
import Scriptlet.Decimal.Reader
import Scriptlet.Text.Integer

/-! # Reading back written decimals

The exact form of a decimal reads back as that decimal, with the same sign, coefficient and
exponent: the reader keeps coefficient and exponent as they are written, and the exact form writes
each of them once. The only texts it refuses are those whose exponent cannot be kept (`InRange`),
and no decimal comes from such a text.

* `ofText_exact`: a decimal in range reads back from its exact form;
* `inRange_of_ofText`, `inRange_of_kept`: whatever is read is in range. -/

namespace Scriptlet

namespace Text

/-! ### Digits -/

theorem digitsValue_eq (cs : List Char) : digitsValue cs = Nat.ofDigitChars 10 cs 0 :=
  (Nat.ofDigitChars_eq_foldl ..).symm

@[simp] theorem digitsValue_toDigits (n : Nat) : digitsValue (Nat.toDigits 10 n) = n := by
  rw [digitsValue_eq, Nat.ofDigitChars_ten_toDigits]

theorem digitsValue_zeros_append (k : Nat) (cs : List Char) :
    digitsValue (List.replicate k '0' ++ cs) = digitsValue cs := by
  simp [digitsValue_eq, Nat.ofDigitChars_append]

theorem isAsciiDigit_of_mem_toDigits {n : Nat} {c : Char} (h : c ∈ Nat.toDigits 10 n) :
    isAsciiDigit c = true := by
  have hdigit := Nat.isDigit_of_mem_toDigits (by omega) (by omega) h
  simpa [isAsciiDigit, Char.isDigit, Char.le_def] using hdigit

theorem length_toDigits_le {n : Nat} (hn : n < tenTo maxDigits) :
    (Nat.toDigits 10 n).length ≤ maxDigits := by
  have hpow (k : Nat) : tenTo k = 10 ^ k := rfl
  rw [hpow] at hn
  exact (Nat.length_toDigits_le_iff (by decide) (by decide)).mpr hn

/-- No zero stands in front of other digits. -/
theorem head_toDigits : ∀ {n : Nat}, 0 < n → (Nat.toDigits 10 n).head? ≠ some '0' := by
  intro n
  induction n using Nat.strongRecOn with
  | ind n ih =>
    intro hn
    rw [Nat.toDigits_eq_if (by decide)]
    split_ifs with hlt
    · have hdigit : ∀ k < 10, 0 < k → [Nat.digitChar k].head? ≠ some '0' := by decide
      exact hdigit n hlt hn
    · have hhead := ih (n / 10) (by omega) (by omega)
      obtain ⟨d, ds, hds⟩ :=
        List.exists_cons_of_ne_nil (Nat.toDigits_ne_nil (n := n / 10) (b := 10))
      rw [hds] at hhead ⊢
      exact hhead

/-- More zeros at the end multiply by a power of ten. -/
theorem toDigits_append_zeros {n : Nat} (hn : 0 < n) (k : Nat) :
    Nat.toDigits 10 n ++ List.replicate k '0' = Nat.toDigits 10 (n * 10 ^ k) := by
  induction k with
  | zero => simp
  | succ k ih =>
    have hpos : 0 < n * 10 ^ k := Nat.mul_pos hn (Nat.pow_pos (by decide))
    rw [List.replicate_succ', ← List.append_assoc, ih, Nat.pow_succ, ← Nat.mul_assoc,
      Nat.toDigits_eq_if (n := n * 10 ^ k * 10) (by decide), if_neg (by omega),
      Nat.mul_div_cancel _ (by decide), Nat.mul_mod_left]
    rfl

theorem toList_toString_int (n : Int) : (toString n).toList =
    if 0 ≤ n then Nat.toDigits 10 n.natAbs else '-' :: Nat.toDigits 10 n.natAbs := by
  rw [Int.toString_eq_repr, Int.repr_eq_if]
  split_ifs with hn
  · rw [Nat.toList_repr, show n.toNat = n.natAbs by omega]
  · rw [String.toList_append, Nat.toList_repr, show (-n).toNat = n.natAbs by omega]
    rfl

end Text

namespace Decimal

open Text

/-- Whether a number has an exponent that can be kept. -/
def InRange : Decimal → Prop
  | .finite _ c e => e + digitCount c - 1 ≤ maxWritten ∧ minWritten ≤ e
  | _ => True

theorem ofParts_eq_ok_iff {neg : Bool} {c : Nat} {e : Int} {d : Decimal} :
    ofParts neg c e = .ok d ↔ d = .finite neg c e ∧ d.InRange := by
  unfold ofParts
  split_ifs with h
  · refine ⟨nofun, ?_⟩
    rintro ⟨rfl, hle, hmin⟩
    simp only [Bool.or_eq_true, decide_eq_true_eq] at h
    omega
  · simp only [Bool.or_eq_true, decide_eq_true_eq, not_or] at h
    constructor
    · rintro h'
      cases h'
      exact ⟨rfl, by omega, by omega⟩
    · rintro ⟨rfl, -⟩
      rfl

theorem inRange_of_kept {d d' : Decimal} (h : d.kept = .ok d') : d'.InRange := by
  cases d with
  | finite neg c e => exact (ofParts_eq_ok_iff.mp h).2
  | infinite neg | nan neg s p =>
    cases h
    trivial

/-- Names never give a finite number. -/
theorem inRange_of_readName? {neg : Bool} {cs : List Char} {d : Decimal}
    (h : readName? neg cs = some d) : d.InRange := by
  unfold readName? at h
  dsimp only at h
  split at h
  · cases h
    trivial
  split at h
  · obtain ⟨p, -, rfl⟩ := Option.map_eq_some_iff.mp h
    trivial
  split at h
  · obtain ⟨p, -, rfl⟩ := Option.map_eq_some_iff.mp h
    trivial
  · cases h

theorem inRange_of_ofText {s : String} {d : Decimal} (h : ofText s = .ok d) : d.InRange := by
  unfold ofText at h
  dsimp only at h
  split at h
  · exact (ofParts_eq_ok_iff.mp h).2
  · split at h
    · next hname =>
      cases h
      exact inRange_of_readName? hname
    · cases h

/-! ### Texts without blanks -/

/-- Whether a character is read as it stands: an ASCII one, neither blank nor an underscore. -/
def isPlain (c : Char) : Bool :=
  decide (c.toNat < 128) && !isBlank c && c ≠ '_'

theorem isPlain_of_isAsciiDigit {c : Char} (h : isAsciiDigit c = true) : isPlain c = true := by
  simp only [isAsciiDigit, Bool.and_eq_true, decide_eq_true_eq, Char.le_def,
    UInt32.le_iff_toNat_le] at h
  have hlow : 48 ≤ c.toNat := h.1
  have hhigh : c.toNat ≤ 57 := h.2
  have hne : c ≠ '_' := by
    rintro rfl
    exact absurd hhigh (by decide)
  have hblank : isBlank c = false := by
    simp only [isBlank, inRanges, blankRanges, List.any_cons, List.any_nil, Bool.or_false,
      Bool.or_eq_false_iff, Bool.and_eq_false_iff, decide_eq_false_iff_not]
    omega
  simp [isPlain, hblank, hne]
  omega

theorem trimBlanks_of_plain {cs : List Char} (h : ∀ c ∈ cs, isPlain c = true) :
    trimBlanks cs = cs := by
  have hdrop {ds : List Char} (hds : ∀ c ∈ ds, isPlain c = true) : ds.dropWhile isBlank = ds := by
    cases ds with
    | nil => rfl
    | cons d ds =>
      have hd := hds d List.mem_cons_self
      simp only [isPlain, Bool.and_eq_true, Bool.not_eq_true'] at hd
      rw [List.dropWhile_cons_of_neg (by simp [hd.1.2])]
  unfold trimBlanks
  rw [hdrop h, hdrop (by simpa using h), List.reverse_reverse]

theorem significant_of_plain {cs : List Char} (h : ∀ c ∈ cs, isPlain c = true) :
    significant cs = cs := by
  have hfilter : cs.filter (· ≠ '_') = cs := by
    refine List.filter_eq_self.mpr fun c hc => ?_
    have hplain := h c hc
    simp only [isPlain, Bool.and_eq_true] at hplain
    exact hplain.2
  have hmap : cs.map plainChar = cs := by
    refine (List.map_congr_left fun c hc => ?_).trans (List.map_id cs)
    have hplain := h c hc
    simp only [isPlain, Bool.and_eq_true, decide_eq_true_eq] at hplain
    rw [plainChar, if_pos hplain.1.1, id]
  unfold significant
  rw [trimBlanks_of_plain h, hfilter, hmap]

/-- Reading a plain body after an optional minus sign. -/
theorem ofText_signed {neg : Bool} (body : List Char) {c : Char} {cs : List Char}
    (hbody : body = c :: cs) (hminus : c ≠ '-') (hplus : c ≠ '+')
    (h : ∀ x ∈ body, isPlain x = true) :
    ofText (String.ofList (if neg then '-' :: body else body)) =
      match readNumber? body with
      | some (c, e) => ofParts neg c e
      | none =>
        match readName? neg body with
        | some d => .ok d
        | none => .error .conversionSyntax := by
  have hsign : takeSign (if neg then '-' :: body else body) = (neg, body) := by
    cases neg with
    | true => rfl
    | false =>
      rw [if_neg Bool.false_ne_true, hbody, takeSign]
      · simpa using hminus
      · simpa using hplus
  have hplain : ∀ x ∈ (if neg then '-' :: body else body), isPlain x = true := by
    cases neg with
    | true => exact List.forall_mem_cons.mpr ⟨by decide, h⟩
    | false => exact h
  unfold ofText
  rewrite [String.toList_ofList, significant_of_plain hplain, hsign]
  rfl

/-! ### Numbers -/

/-- A run of digits before something else is split off as a whole. -/
theorem span_digits {w x : List Char} (hw : ∀ c ∈ w, isAsciiDigit c = true)
    (hx : ∀ c ∈ x.head?, isAsciiDigit c = false) :
    (w ++ x).takeWhile isAsciiDigit = w ∧ (w ++ x).dropWhile isAsciiDigit = x := by
  have hnone : x.takeWhile isAsciiDigit = [] ∧ x.dropWhile isAsciiDigit = x := by
    cases x with
    | nil => exact ⟨rfl, rfl⟩
    | cons c x =>
      have hc := hx c rfl
      exact ⟨List.takeWhile_cons_of_neg (by simp [hc]), List.dropWhile_cons_of_neg (by simp [hc])⟩
  rw [List.takeWhile_append_of_pos hw, List.dropWhile_append_of_pos hw, hnone.1, hnone.2]
  exact ⟨List.append_nil w, rfl⟩

theorem readNumber?_whole {w x : List Char} (hne : w ≠ []) (hw : ∀ c ∈ w, isAsciiDigit c = true)
    (hx : ∀ c ∈ x.head?, isAsciiDigit c = false) (hpoint : x.head? ≠ some '.') :
    readNumber? (w ++ x) = (readExponent? x).map fun e => (digitsValue w, e) := by
  obtain ⟨htake, hdrop⟩ := span_digits hw hx
  unfold readNumber?
  simp only [htake, hdrop]
  split
  · next more => exact (hpoint rfl).elim
  · simp [hne]

theorem readNumber?_point {w f x : List Char} (hne : w ≠ [])
    (hw : ∀ c ∈ w, isAsciiDigit c = true) (hf : ∀ c ∈ f, isAsciiDigit c = true)
    (hx : ∀ c ∈ x.head?, isAsciiDigit c = false) :
    readNumber? (w ++ '.' :: (f ++ x)) =
      (readExponent? x).map fun e => (digitsValue (w ++ f), e - (f.length : Int)) := by
  have hpoint : ∀ c ∈ ('.' :: (f ++ x)).head?, isAsciiDigit c = false := by
    simp [isAsciiDigit]
  obtain ⟨htake, hdrop⟩ := span_digits hw hpoint
  obtain ⟨htake', hdrop'⟩ := span_digits hf hx
  unfold readNumber?
  simp [htake, hdrop, htake', hdrop', hne]

/-- An exponent as it is written, if there is one. -/
def exponentText : Option Int → List Char
  | none => []
  | some x => 'E' :: (if x < 0 then '-' else '+') :: Nat.toDigits 10 x.natAbs

/-- Digits, a point with the digits after it if there are any, and an exponent. -/
def layout (w f : List Char) (x : Option Int) : List Char :=
  w ++ ((if f = [] then [] else '.' :: f) ++ exponentText x)

theorem readExponent?_exponentText (x : Option Int) :
    readExponent? (exponentText x) = some (x.getD 0) := by
  cases x with
  | none => rfl
  | some x =>
    have hdigits : (Nat.toDigits 10 x.natAbs).all isAsciiDigit = true :=
      List.all_eq_true.mpr fun c hc => isAsciiDigit_of_mem_toDigits hc
    have hne : (Nat.toDigits 10 x.natAbs).isEmpty = false := by simp
    by_cases hx : x < 0
    · simp [exponentText, readExponent?, takeSign, hx, hdigits, hne, abs_of_neg hx]
    · simp [exponentText, readExponent?, takeSign, hx, hdigits, hne, abs_of_nonneg (not_lt.mp hx)]

theorem head?_exponentText {x : Option Int} {c : Char} (h : c ∈ (exponentText x).head?) :
    c = 'E' := by
  cases x with
  | none => cases h
  | some x => exact (Option.some.inj h).symm

section Layout

variable {w f : List Char} (hne : w ≠ []) (hw : ∀ c ∈ w, isAsciiDigit c = true)
  (hf : ∀ c ∈ f, isAsciiDigit c = true)

include hne hw hf in
/-- The reader takes a layout apart. -/
theorem readNumber?_layout (x : Option Int) :
    readNumber? (layout w f x) = some (digitsValue (w ++ f), x.getD 0 - (f.length : Int)) := by
  have hx : ∀ c ∈ (exponentText x).head?, isAsciiDigit c = false := by
    intro c hc
    rw [head?_exponentText hc]
    rfl
  unfold layout
  by_cases hempty : f = []
  · have hpoint : (exponentText x).head? ≠ some '.' := fun h =>
      absurd (head?_exponentText h) (by decide)
    rw [if_pos hempty, List.nil_append, readNumber?_whole hne hw hx hpoint,
      readExponent?_exponentText, hempty]
    simp
  · rw [if_neg hempty, List.cons_append, readNumber?_point hne hw hf hx,
      readExponent?_exponentText]
    rfl

include hw hf in
theorem isPlain_of_mem_layout {x : Option Int} {c : Char} (h : c ∈ layout w f x) :
    isPlain c = true := by
  have hexp : ∀ c ∈ exponentText x, isPlain c = true := by
    cases x with
    | none => simp [exponentText]
    | some x =>
      have hsign : isPlain (if x < 0 then '-' else '+') = true := by split_ifs <;> decide
      refine List.forall_mem_cons.mpr ⟨by decide, List.forall_mem_cons.mpr ⟨hsign, ?_⟩⟩
      exact fun c hc => isPlain_of_isAsciiDigit (isAsciiDigit_of_mem_toDigits hc)
  have hfrac : ∀ c ∈ (if f = [] then [] else '.' :: f), isPlain c = true := by
    split_ifs
    · simp
    · exact List.forall_mem_cons.mpr ⟨by decide, fun c hc => isPlain_of_isAsciiDigit (hf c hc)⟩
  unfold layout at h
  rcases List.mem_append.mp h with h | h
  · exact isPlain_of_isAsciiDigit (hw c h)
  rcases List.mem_append.mp h with h | h
  · exact hfrac c h
  · exact hexp c h

include hne hw hf in
/-- **Reading a layout** keeps all digits in the coefficient and counts those after the point into
the exponent. -/
theorem ofText_layout (neg : Bool) (x : Option Int) :
    ofText (String.ofList (if neg then '-' :: layout w f x else layout w f x)) =
      ofParts neg (digitsValue (w ++ f)) (x.getD 0 - (f.length : Int)) := by
  obtain ⟨c, cs, rfl⟩ := List.exists_cons_of_ne_nil hne
  have hc := hw c List.mem_cons_self
  have hminus : c ≠ '-' := by
    rintro rfl
    exact absurd hc (by decide)
  have hplus : c ≠ '+' := by
    rintro rfl
    exact absurd hc (by decide)
  rw [ofText_signed (layout (c :: cs) f x) rfl hminus hplus
    fun _ => isPlain_of_mem_layout hw hf, readNumber?_layout hne hw hf]

end Layout

/-! ### The exact form -/

/-- Digits with a point are a layout: zeros in front of them make room for the point, so the integer
part is a zero or the digits start with it. -/
theorem withPoint_eq {ds : List Char} {places : Nat} (hdigit : ∀ d ∈ ds, isAsciiDigit d = true)
    (hplaces : places ≠ 0) :
    ∃ w f, w ≠ [] ∧ (∀ d ∈ w, isAsciiDigit d = true) ∧ (∀ d ∈ f, isAsciiDigit d = true) ∧
      withPoint ds places = layout w f none ∧ digitsValue (w ++ f) = digitsValue ds ∧
      f.length = places ∧ (w = ['0'] ∨ w <+: ds) := by
  have hvalue := digitsValue_zeros_append (places + 1 - ds.length) ds
  have hpad : ∀ d ∈ List.replicate (places + 1 - ds.length) '0' ++ ds, isAsciiDigit d = true := by
    intro d hd
    rcases List.mem_append.mp hd with hd | hd
    · rw [List.eq_of_mem_replicate hd]
      rfl
    · exact hdigit d hd
  have hlen : places + 1 ≤ (List.replicate (places + 1 - ds.length) '0' ++ ds).length := by
    rw [List.length_append, List.length_replicate]
    omega
  have hfront (padded : List Char)
      (h : padded = List.replicate (places + 1 - ds.length) '0' ++ ds) :
      padded.take (padded.length - places) = ['0'] ∨
        padded.take (padded.length - places) <+: ds := by
    rcases Nat.eq_zero_or_pos (places + 1 - ds.length) with hnone | hsome
    · rw [hnone, List.replicate_zero, List.nil_append] at h
      exact .inr (h ▸ List.take_prefix _ _)
    · have hone : padded.length - places = 1 := by
        rw [h, List.length_append, List.length_replicate]
        omega
      obtain ⟨k, hk⟩ := Nat.exists_eq_add_of_le' hsome
      rw [hone, h, hk, List.replicate_succ]
      exact .inl rfl
  unfold withPoint
  rw [if_neg hplaces]
  generalize hpadded : List.replicate (places + 1 - ds.length) '0' ++ ds = padded
    at hvalue hpad hlen ⊢
  have hwhole : (padded.take (padded.length - places)).length = padded.length - places := by
    rw [List.length_take]
    omega
  have hfrac : (padded.drop (padded.length - places)).length = places := by
    rw [List.length_drop]
    omega
  have hfrac_ne : padded.drop (padded.length - places) ≠ [] := by
    intro hnil
    rw [hnil] at hfrac
    exact hplaces hfrac.symm
  refine ⟨padded.take (padded.length - places), padded.drop (padded.length - places), ?_,
    fun d hd => hpad d (List.mem_of_mem_take hd), fun d hd => hpad d (List.mem_of_mem_drop hd),
    ?_, ?_, hfrac, hfront padded hpadded.symm⟩
  · intro hnil
    rw [hnil, List.length_nil] at hwhole
    omega
  · simp only [layout, if_neg hfrac_ne, exponentText, List.append_nil]
  · rw [List.take_append_drop, hvalue]

/-- The exact form of a magnitude is a layout of its coefficient and its exponent. -/
theorem exactMagnitude_eq (c : Nat) (e : Int) :
    ∃ w f x, w ≠ [] ∧ (∀ d ∈ w, isAsciiDigit d = true) ∧ (∀ d ∈ f, isAsciiDigit d = true) ∧
      exactMagnitude c e = layout w f x ∧ digitsValue (w ++ f) = c ∧
      x.getD 0 - (f.length : Int) = e := by
  have hdigit : ∀ d ∈ digits c, isAsciiDigit d = true := fun d => isAsciiDigit_of_mem_toDigits
  have hpos : 0 < (digits c).length := Nat.length_toDigits_pos
  have hvalue : digitsValue (digits c) = c := digitsValue_toDigits c
  unfold exactMagnitude
  split_ifs with hplain
  · simp only [Bool.and_eq_true, decide_eq_true_eq] at hplain
    by_cases hneg : e < 0
    · have hplaces : (-e).toNat ≠ 0 := by omega
      obtain ⟨w, f, hne, hw, hf, hlayout, hwf, hlen, -⟩ := withPoint_eq hdigit hplaces
      refine ⟨w, f, none, hne, hw, hf, ?_, hwf.trans hvalue, ?_⟩
      · rw [plainMagnitude, if_pos hneg, hlayout]
      · rw [hlen, Option.getD_none]
        omega
    · have he : e = 0 := by omega
      subst he
      refine ⟨digits c, [], none, Nat.toDigits_ne_nil, hdigit, by simp, ?_, ?_, rfl⟩
      · by_cases hzero : c = 0
        · subst hzero
          rfl
        · simp [plainMagnitude, hzero, layout, exponentText]
      · rw [List.append_nil, hvalue]
  · refine ⟨(digits c).take 1, (digits c).drop 1, some (e + (digits c).length - 1), ?_,
      fun d hd => hdigit d (List.mem_of_mem_take hd),
      fun d hd => hdigit d (List.mem_of_mem_drop hd), ?_, ?_, ?_⟩
    · intro hnil
      have hzero := congrArg List.length hnil
      rw [List.length_take, List.length_nil] at hzero
      omega
    · have hiff : (digits c).drop 1 = [] ↔ (digits c).length = 1 := by
        rw [List.drop_eq_nil_iff]
        omega
      simp only [scientificMagnitude, layout, hiff, exponentText, List.append_assoc]
    · rw [List.take_append_drop, hvalue]
    · rw [List.length_drop, Option.getD_some]
      omega

theorem ofText_exact_finite {neg : Bool} {c : Nat} {e : Int}
    (h : (Decimal.finite neg c e).InRange) :
    ofText (Decimal.finite neg c e).exact = .ok (.finite neg c e) := by
  obtain ⟨w, f, x, hne, hw, hf, hlayout, hvalue, hexp⟩ := exactMagnitude_eq c e
  have hread := ofText_layout hne hw hf neg x
  rw [hvalue, hexp, ← hlayout] at hread
  exact hread.trans (ofParts_eq_ok_iff.mpr ⟨rfl, h⟩)

theorem ofText_exact_infinite (neg : Bool) :
    ofText (Decimal.infinite neg).exact = .ok (.infinite neg) := by
  cases neg <;> rfl

/-- The digits after the name of a not-a-number; a payload of zero has none. -/
theorem payload_digits (p : Nat) :
    ∃ ds, (if p = 0 then [] else digits p) = ds ∧ (∀ d ∈ ds, isAsciiDigit d = true) ∧
      digitsValue ds = p := by
  refine ⟨_, rfl, ?_⟩
  split_ifs with hp
  · exact ⟨by simp, hp.symm⟩
  · exact ⟨fun d => isAsciiDigit_of_mem_toDigits, digitsValue_toDigits p⟩

/-- Reading a plain body that starts like the name of a not-a-number. -/
theorem ofText_named {neg : Bool} {c : Char} {cs : List Char} {d : Decimal}
    (hc : c = 'N' ∨ c = 's') (h : ∀ x ∈ c :: cs, isPlain x = true)
    (hd : readName? neg (c :: cs) = some d) :
    ofText (String.ofList (if neg then '-' :: c :: cs else c :: cs)) = .ok d := by
  have hminus : c ≠ '-' := by rcases hc with rfl | rfl <;> decide
  have hplus : c ≠ '+' := by rcases hc with rfl | rfl <;> decide
  have hnone : readNumber? (c :: cs) = none := by
    rcases hc with rfl | rfl <;> simp [readNumber?, isAsciiDigit]
  rw [ofText_signed (c :: cs) rfl hminus hplus h, hnone, hd]

theorem ofText_exact_nan (neg s : Bool) (p : Nat) :
    ofText (Decimal.nan neg s p).exact = .ok (.nan neg s p) := by
  obtain ⟨ds, hpayload, hds, rfl⟩ := payload_digits p
  have hall : ds.all isAsciiDigit = true := List.all_eq_true.mpr hds
  have hplain : ∀ d ∈ ds, isPlain d = true := fun d hd => isPlain_of_isAsciiDigit (hds d hd)
  unfold exact written specialText isNegative
  simp only [hpayload]
  cases s with
  | true =>
    have hname : readName? neg ('s' :: 'N' :: 'a' :: 'N' :: ds) =
        some (.nan neg true (digitsValue ds)) := by simp [readName?, hall]
    have hbody : ∀ d ∈ ['s', 'N', 'a', 'N'] ++ ds, isPlain d = true :=
      List.forall_mem_append.mpr ⟨List.all_eq_true.mp (by decide), hplain⟩
    exact ofText_named (Or.inr rfl) hbody hname
  | false =>
    have hname : readName? neg ('N' :: 'a' :: 'N' :: ds) =
        some (.nan neg false (digitsValue ds)) := by simp [readName?, hall]
    have hbody : ∀ d ∈ ['N', 'a', 'N'] ++ ds, isPlain d = true :=
      List.forall_mem_append.mpr ⟨List.all_eq_true.mp (by decide), hplain⟩
    exact ofText_named (Or.inl rfl) hbody hname

/-- **A decimal reads back from its exact form** with its sign, coefficient and exponent. -/
theorem ofText_exact {d : Decimal} (h : d.InRange) : ofText d.exact = .ok d := by
  cases d with
  | finite neg c e => exact ofText_exact_finite h
  | infinite neg => exact ofText_exact_infinite neg
  | nan neg s p => exact ofText_exact_nan neg s p

end Decimal

end Scriptlet
