import Mathlib.Computability.Language
import Mathlib.Data.List.TakeWhile
import Scriptlet.Token.Lexer

/-! # The lexical grammar

Every class of tokens has a regular language, built here from classes of characters by union,
concatenation and iteration. The first characters of a text select one of five forms; integers and
decimals share a form, and the fraction tells them apart. `Token.IsLexeme t cs` says that `t` is the
token at the front of `cs`: it is of the form that the front selects, its text belongs to the
language of its class, and no longer start of `cs` belongs to the language of the form.

* `Lexer.measures_of_measure`: what the lexer measures at the front is the lexeme there;
* `Lexer.measure_of_isLexeme`: it measures every lexeme, so it fails only where there is none. -/

namespace Scriptlet

open scoped Computability

/-! ### Classes of characters -/

namespace Lexical

/-- The letters from `A` to `Z`, small and capital. -/
def IsLetter (c : Char) : Prop :=
  ('a' ≤ c ∧ c ≤ 'z') ∨ ('A' ≤ c ∧ c ≤ 'Z')

/-- The digits from `0` to `9`. -/
def IsDigit (c : Char) : Prop :=
  '0' ≤ c ∧ c ≤ '9'

/-- Whether a digit comes first. -/
def DigitFirst : List Char → Prop
  | [] => False
  | c :: _ => IsDigit c

/-- What a name starts with. -/
def IsNameStart (c : Char) : Prop :=
  IsLetter c ∨ c = '@' ∨ c = '_'

/-- What a name goes on with. -/
def IsNamePart (c : Char) : Prop :=
  IsLetter c ∨ IsDigit c ∨ c = '_' ∨ c = '-'

/-- The letters that make an escape after a backslash. -/
def escapeLetters : List Char := ['b', 'n', 'r', 't', '\'', '"', '\\']

/-- What stands for itself between quotes: neither a backslash nor the end of a line. -/
def IsQuotable (c : Char) : Prop :=
  c ≠ '\\' ∧ c ≠ '\n' ∧ c ≠ '\r'

instance : DecidablePred IsLetter := fun _ => inferInstanceAs (Decidable (_ ∨ _))

instance : DecidablePred IsDigit := fun _ => inferInstanceAs (Decidable (_ ∧ _))

instance : DecidablePred DigitFirst
  | [] => inferInstanceAs (Decidable False)
  | c :: _ => inferInstanceAs (Decidable (IsDigit c))

instance : DecidablePred IsNameStart := fun _ => inferInstanceAs (Decidable (_ ∨ _))

/-! ### Languages -/

/-- The texts of one character out of a class. -/
def one (p : Char → Prop) : Language Char :=
  {w | ∃ c, p c ∧ w = [c]}

/-- The language of a single text. -/
def only (s : String) : Language Char :=
  {s.toList}

/-- An optional minus sign. -/
def sign : Language Char := 1 + only "-"

/-- An integer part: zero alone, or digits that do not start with zero. -/
def whole : Language Char := only "0" + one (fun c => IsDigit c ∧ c ≠ '0') * (one IsDigit)∗

/-- A fraction: a point and at least one digit. -/
def fraction : Language Char := only "." * (one IsDigit * (one IsDigit)∗)

/-- An escape. -/
def escape : Language Char := only "\\" * one (· ∈ escapeLetters)

end Lexical

open Lexical

/-- The language of a class of tokens. -/
def TokenKind.language : TokenKind → Language Char
  | .identifier => one IsNameStart * (one IsNamePart)∗
  | .integer => sign * whole
  | .decimal => sign * whole * fraction
  | .character => only "'" * (one IsQuotable + escape) * only "'"
  | .string => only "\"" * (one (fun c => IsQuotable c ∧ c ≠ '"') + escape)∗ * only "\""
  | .operator => only "!=" + only "==" + only "&&" + only "||" + one fun _ => True

/-- The forms of tokens. -/
inductive Form where
  | name | number | character | string | operator
  deriving DecidableEq, Repr

/-- The form of a class of tokens. -/
def TokenKind.form : TokenKind → Form
  | .identifier => .name
  | .integer => .number
  | .decimal => .number
  | .character => .character
  | .string => .string
  | .operator => .operator

/-- The language of a form: whatever a class of the form allows. -/
def Form.language (f : Form) : Language Char :=
  {w | ∃ k : TokenKind, k.form = f ∧ w ∈ k.language}

/-- The form that the first characters of a text select. -/
def Form.select : List Char → Form
  | [] => .operator
  | c :: cs =>
    if IsNameStart c then .name
    else if IsDigit c ∨ (c = '-' ∧ DigitFirst cs) then .number
    else if c = '\'' then .character
    else if c = '"' then .string
    else .operator

/-- Whether a token stands at the front of a text. -/
structure Token.IsLexeme (t : Token) (cs : List Char) : Prop where
  form : t.kind.form = Form.select cs
  mem : t.text.toList ∈ t.kind.language
  isPrefix : t.text.toList <+: cs
  longest : ∀ w ∈ (Form.select cs).language, w <+: cs → w.length ≤ t.text.toList.length

namespace Lexical

/-! ### Members of the languages -/

@[simp] theorem mem_one {p : Char → Prop} {w : List Char} : w ∈ one p ↔ ∃ c, p c ∧ w = [c] :=
  Iff.rfl

@[simp] theorem mem_only {s : String} {w : List Char} : w ∈ only s ↔ w = s.toList :=
  Iff.rfl

theorem mem_star_one {p : Char → Prop} {w : List Char} : w ∈ (one p)∗ ↔ ∀ c ∈ w, p c := by
  rw [Language.mem_kstar]
  constructor
  · rintro ⟨ls, rfl, hls⟩ c hc
    obtain ⟨l, hl, hc⟩ := List.mem_flatten.mp hc
    obtain ⟨d, hd, rfl⟩ := hls l hl
    rw [List.mem_singleton.mp hc]
    exact hd
  · intro h
    refine ⟨w.map fun c => [c], ?_, ?_⟩
    · induction w with
      | nil => rfl
      | cons c w ih => simpa using ih fun d hd => h d (List.mem_cons_of_mem c hd)
    · intro l hl
      obtain ⟨c, hc, rfl⟩ := List.mem_map.mp hl
      exact ⟨c, h c hc, rfl⟩

theorem mem_one_mul {p : Char → Prop} {l : Language Char} {w : List Char} :
    w ∈ one p * l ↔ ∃ c v, w = c :: v ∧ p c ∧ v ∈ l := by
  rw [Language.mem_mul]
  constructor
  · rintro ⟨_, ⟨c, hc, rfl⟩, v, hv, rfl⟩
    exact ⟨c, v, rfl, hc, hv⟩
  · rintro ⟨c, v, rfl, hc, hv⟩
    exact ⟨[c], ⟨c, hc, rfl⟩, v, hv, rfl⟩

theorem mem_only_mul {s : String} {l : Language Char} {w : List Char} :
    w ∈ only s * l ↔ ∃ v, w = s.toList ++ v ∧ v ∈ l := by
  rw [Language.mem_mul]
  constructor
  · rintro ⟨_, rfl, v, hv, rfl⟩
    exact ⟨v, rfl, hv⟩
  · rintro ⟨v, rfl, hv⟩
    exact ⟨_, rfl, v, hv, rfl⟩

theorem mem_mul_only {s : String} {l : Language Char} {w : List Char} :
    w ∈ l * only s ↔ ∃ v, w = v ++ s.toList ∧ v ∈ l := by
  rw [Language.mem_mul]
  constructor
  · rintro ⟨v, hv, _, rfl, rfl⟩
    exact ⟨v, rfl, hv⟩
  · rintro ⟨v, rfl, hv⟩
    exact ⟨v, hv, _, rfl, rfl⟩

theorem mem_sign {w : List Char} : w ∈ sign ↔ w = [] ∨ w = ['-'] :=
  Iff.rfl

theorem mem_whole {w : List Char} :
    w ∈ whole ↔ w = ['0'] ∨
      ∃ c v, w = c :: v ∧ (IsDigit c ∧ c ≠ '0') ∧ ∀ d ∈ v, IsDigit d := by
  rw [whole, Language.mem_add, mem_one_mul]
  simp only [mem_star_one]
  exact Iff.rfl

/-- An integer part starts with a digit. -/
theorem exists_digit_of_mem_whole {w : List Char} (h : w ∈ whole) :
    ∃ c v, w = c :: v ∧ IsDigit c := by
  rcases mem_whole.mp h with rfl | ⟨c, v, rfl, ⟨hc, -⟩, -⟩
  · exact ⟨'0', [], rfl, by decide⟩
  · exact ⟨c, v, rfl, hc⟩

theorem mem_fraction {w : List Char} :
    w ∈ fraction ↔ ∃ v, w = '.' :: v ∧ v ≠ [] ∧ ∀ d ∈ v, IsDigit d := by
  rw [fraction, mem_only_mul]
  constructor
  · rintro ⟨_, rfl, hv⟩
    obtain ⟨c, v, rfl, hc, hv⟩ := mem_one_mul.mp hv
    refine ⟨c :: v, rfl, List.cons_ne_nil c v, ?_⟩
    simpa using ⟨hc, mem_star_one.mp hv⟩
  · rintro ⟨v, rfl, hne, hv⟩
    obtain ⟨c, v, rfl⟩ := List.exists_cons_of_ne_nil hne
    have hcv := List.forall_mem_cons.mp hv
    exact ⟨c :: v, rfl, mem_one_mul.mpr ⟨c, v, rfl, hcv.1, mem_star_one.mpr hcv.2⟩⟩

theorem mem_escape {w : List Char} : w ∈ escape ↔ ∃ c ∈ escapeLetters, w = ['\\', c] := by
  rw [escape, mem_only_mul]
  constructor
  · rintro ⟨_, rfl, c, hc, rfl⟩
    exact ⟨c, hc, rfl⟩
  · rintro ⟨c, hc, rfl⟩
    exact ⟨[c], rfl, c, hc, rfl⟩

/-- What is quoted stands between two quotes. -/
theorem mem_quoted {q : String} {c : Char} {body : Language Char} {w : List Char}
    (hq : q.toList = [c]) : w ∈ only q * body * only q ↔ ∃ x ∈ body, w = c :: x ++ [c] := by
  rw [mem_mul_only, hq]
  constructor
  · rintro ⟨v, rfl, hv⟩
    obtain ⟨x, rfl, hx⟩ := mem_only_mul.mp hv
    exact ⟨x, hx, by rw [hq]; rfl⟩
  · rintro ⟨x, hx, rfl⟩
    exact ⟨c :: x, rfl, mem_only_mul.mpr ⟨x, by rw [hq]; rfl, hx⟩⟩

/-- A form of one class has the language of the class. -/
theorem mem_language_form {k : TokenKind} (hk : k.form ≠ .number) {w : List Char} :
    w ∈ k.form.language ↔ w ∈ k.language := by
  constructor
  · rintro ⟨k', hform, hw⟩
    have hkind : k' = k := by
      cases k <;> cases k' <;> first | rfl | exact absurd rfl hk | cases hform
    exact hkind ▸ hw
  · exact fun hw => ⟨k, rfl, hw⟩

theorem mem_language_number {w : List Char} :
    w ∈ Form.number.language ↔
      ∃ s u f, w = s ++ (u ++ f) ∧ s ∈ sign ∧ u ∈ whole ∧ (f = [] ∨ f ∈ fraction) := by
  constructor
  · rintro ⟨k, hform, hw⟩
    cases k with
    | integer =>
      obtain ⟨s, hs, u, hu, rfl⟩ := Language.mem_mul.mp hw
      exact ⟨s, u, [], by simp, hs, hu, Or.inl rfl⟩
    | decimal =>
      obtain ⟨_, hsu, f, hf, rfl⟩ := Language.mem_mul.mp hw
      obtain ⟨s, hs, u, hu, rfl⟩ := Language.mem_mul.mp hsu
      exact ⟨s, u, f, by simp, hs, hu, Or.inr hf⟩
    | _ => cases hform
  · rintro ⟨s, u, f, rfl, hs, hu, rfl | hf⟩
    · refine ⟨.integer, rfl, ?_⟩
      rw [List.append_nil]
      exact Language.append_mem_mul hs hu
    · refine ⟨.decimal, rfl, ?_⟩
      rw [← List.append_assoc]
      exact Language.append_mem_mul (Language.append_mem_mul hs hu) hf

end Lexical

namespace Lexer

/-! ### The classes of the lexer -/

theorem isAsciiDigit_iff {c : Char} : Text.isAsciiDigit c = true ↔ IsDigit c := by
  simp [Text.isAsciiDigit, IsDigit]

theorem isLetter_iff {c : Char} : isLetter c = true ↔ IsLetter c := by
  simp [isLetter, IsLetter]

theorem startsName_iff {c : Char} : startsName c = true ↔ IsNameStart c := by
  simp [startsName, IsNameStart, isLetter_iff, or_assoc]

theorem continuesName_iff {c : Char} : continuesName c = true ↔ IsNamePart c := by
  simp [continuesName, IsNamePart, isLetter_iff, isAsciiDigit_iff, or_assoc]

theorem isQuotable_iff {c : Char} : isQuotable c = true ↔ IsQuotable c := by
  simp [isQuotable, IsQuotable, and_assoc]

theorem endsEscape_iff {c : Char} : endsEscape c = true ↔ c ∈ escapeLetters :=
  List.contains_iff_mem

theorem startsNumber_iff {c : Char} {cs : List Char} :
    startsNumber (c :: cs) = true ↔ IsDigit c ∨ (c = '-' ∧ DigitFirst cs) := by
  have hminus : ¬ IsDigit '-' := by decide
  by_cases hc : c = '-'
  · subst hc
    cases cs with
    | nil => simp [startsNumber, isAsciiDigit_iff, hminus, DigitFirst]
    | cons d ds => simp [startsNumber, isAsciiDigit_iff, hminus, DigitFirst]
  · simp [startsNumber, isAsciiDigit_iff, hc]

/-! ### Runs of characters -/

/-- A start made of characters of a class is no longer than the run of such characters. -/
theorem length_le_run {p : Char → Bool} {v cs : List Char} (hv : v <+: cs)
    (hp : ∀ c ∈ v, p c = true) : v.length ≤ (cs.takeWhile p).length := by
  obtain ⟨rest, rfl⟩ := hv
  rw [List.takeWhile_append_of_pos hp]
  simp

theorem take_run (p : Char → Bool) (cs : List Char) :
    cs.take (cs.takeWhile p).length = cs.takeWhile p :=
  (List.prefix_iff_eq_take.mp (List.takeWhile_prefix p)).symm

/-! ### Numbers -/

theorem take_wholeLength {d : Char} (hd : IsDigit d) (ds : List Char) :
    (d :: ds).take (wholeLength (d :: ds)) ∈ whole := by
  rw [mem_whole]
  unfold wholeLength
  by_cases h0 : d = '0'
  · simp [h0]
  · rw [if_neg (by simpa using h0), take_run,
      List.takeWhile_cons_of_pos (isAsciiDigit_iff.mpr hd)]
    refine Or.inr ⟨d, _, rfl, ⟨hd, h0⟩, ?_⟩
    exact fun c hc => isAsciiDigit_iff.mp (List.mem_takeWhile_imp hc)

theorem wholeLength_le (d : Char) (ds : List Char) :
    wholeLength (d :: ds) ≤ (d :: ds).length := by
  unfold wholeLength
  split_ifs
  · simp
  · exact (List.takeWhile_prefix _).length_le

theorem fractionLength_le : ∀ cs : List Char, fractionLength cs ≤ cs.length
  | [] => Nat.le_refl 0
  | c :: cs => by
    have hrun := (List.takeWhile_prefix (l := cs) Text.isAsciiDigit).length_le
    unfold fractionLength
    split
    · next rest heq =>
      obtain ⟨-, rfl⟩ := List.cons.inj heq
      rw [List.length_cons]
      dsimp only
      split_ifs <;> omega
    · exact Nat.zero_le _

theorem take_fractionLength {cs : List Char} (h : fractionLength cs ≠ 0) :
    cs.take (fractionLength cs) ∈ fraction := by
  rw [mem_fraction]
  unfold fractionLength at h ⊢
  split at h
  · next rest =>
    by_cases hn : (rest.takeWhile Text.isAsciiDigit).length = 0
    · exact (h (by simp [hn])).elim
    · refine ⟨rest.takeWhile Text.isAsciiDigit, ?_, ?_, ?_⟩
      · simp [hn, take_run]
      · exact fun hnil => hn (by simp [hnil])
      · exact fun c hc => isAsciiDigit_iff.mp (List.mem_takeWhile_imp hc)
  · exact (h rfl).elim

/-- No fraction at the front is longer than the measured one. -/
theorem length_le_fractionLength {f cs : List Char} (hf : f = [] ∨ f ∈ fraction)
    (hpre : f <+: cs) : f.length ≤ fractionLength cs := by
  rcases hf with rfl | hf
  · exact Nat.zero_le _
  · obtain ⟨v, rfl, hne, hv⟩ := mem_fraction.mp hf
    obtain ⟨rest, rfl⟩ := hpre
    have hrun : v.length ≤ ((v ++ rest).takeWhile Text.isAsciiDigit).length :=
      length_le_run (List.prefix_append v rest) fun c hc => isAsciiDigit_iff.mpr (hv c hc)
    have hpos : 0 < v.length := List.length_pos_iff.mpr hne
    simp only [List.cons_append, fractionLength, List.length_cons]
    rw [if_neg (by omega)]
    omega

/-- No number without a sign at the front is longer than the measured one. -/
theorem length_le_measured {u f ds : List Char} (hu : u ∈ whole) (hf : f = [] ∨ f ∈ fraction)
    (hpre : u ++ f <+: ds) :
    (u ++ f).length ≤ wholeLength ds + fractionLength (ds.drop (wholeLength ds)) := by
  obtain ⟨rest, rfl⟩ := hpre
  have hfrac : f.length ≤ fractionLength (f ++ rest) :=
    length_le_fractionLength hf (List.prefix_append f rest)
  rw [List.length_append]
  rcases mem_whole.mp hu with rfl | ⟨c, v, rfl, ⟨hc, hc0⟩, hv⟩
  · have hwhole : wholeLength (['0'] ++ f ++ rest) = 1 := by simp [wholeLength]
    rw [hwhole]
    simpa using hfrac
  · have hdigits : ∀ d ∈ c :: v, Text.isAsciiDigit d = true := by
      intro d hd
      rcases List.mem_cons.mp hd with rfl | hd
      · exact isAsciiDigit_iff.mpr hc
      · exact isAsciiDigit_iff.mpr (hv d hd)
    have hwhole : wholeLength (c :: v ++ f ++ rest) =
        (c :: v).length + ((f ++ rest).takeWhile Text.isAsciiDigit).length := by
      unfold wholeLength
      rw [if_neg (by simpa using hc0), List.append_assoc, List.takeWhile_append_of_pos hdigits,
        List.length_append]
    -- a fraction starts with a point, so the run of digits ends where the fraction starts
    rcases hf with rfl | hf
    · rw [hwhole]
      simp only [List.length_nil]
      omega
    · obtain ⟨w, rfl, -, -⟩ := mem_fraction.mp hf
      have hrun : (('.' :: w) ++ rest).takeWhile Text.isAsciiDigit = [] := rfl
      rw [hrun, List.length_nil, Nat.add_zero] at hwhole
      rw [hwhole, List.append_assoc, List.drop_left]
      omega

/-- A text that starts a number is a sign and what starts with a digit. -/
theorem sign_of_startsNumber {cs : List Char} (h : startsNumber cs = true) :
    ∃ s d ds, s ∈ sign ∧ IsDigit d ∧ cs = s ++ d :: ds ∧
      (if cs.head? = some '-' then 1 else 0) = s.length := by
  cases cs with
  | nil => cases h
  | cons c cs =>
    rcases startsNumber_iff.mp h with hc | ⟨rfl, hfirst⟩
    · have hne : c ≠ '-' := by
        rintro rfl
        exact absurd hc (by decide)
      exact ⟨[], c, cs, Or.inl rfl, hc, rfl, by simp [hne]⟩
    · cases cs with
      | nil => cases hfirst
      | cons d ds => exact ⟨['-'], d, ds, Or.inr rfl, hfirst, rfl, rfl⟩

/-- The sign of a number at the front is the sign that stands there. -/
theorem sign_of_prefix {s s' u f ds : List Char} {d : Char} (hs : s ∈ sign) (hs' : s' ∈ sign)
    (hd : IsDigit d) (hu : u ∈ whole) (hpre : s' ++ (u ++ f) <+: s ++ d :: ds) :
    s' = s ∧ u ++ f <+: d :: ds := by
  obtain ⟨c, v, rfl, hc⟩ := exists_digit_of_mem_whole hu
  have hminus : ¬ IsDigit '-' := by decide
  rcases mem_sign.mp hs with rfl | rfl <;> rcases mem_sign.mp hs' with rfl | rfl
  · exact ⟨rfl, hpre⟩
  · have heq : '-' = d := (List.cons_prefix_cons.mp hpre).1
    exact (hminus (heq ▸ hd)).elim
  · have heq : c = '-' := (List.cons_prefix_cons.mp hpre).1
    exact (hminus (heq ▸ hc)).elim
  · exact ⟨rfl, (List.cons_prefix_cons.mp hpre).2⟩

/-! ### Measured starts -/

/-- Whether a class and a length are those of the lexeme at the front of a text. -/
structure Measures (cs : List Char) (k : TokenKind) (n : Nat) : Prop where
  form : k.form = Form.select cs
  mem : cs.take n ∈ k.language
  le : n ≤ cs.length
  longest : ∀ w ∈ (Form.select cs).language, w <+: cs → w.length ≤ n

theorem Measures.isLexeme {cs : List Char} {k : TokenKind} {n o : Nat} (h : Measures cs k n) :
    Token.IsLexeme ⟨k, String.ofList (cs.take n), o⟩ cs where
  form := h.form
  mem := by simpa using h.mem
  isPrefix := by simpa using List.take_prefix n cs
  longest := by simpa [Nat.min_eq_left h.le] using h.longest

theorem measures_name {c : Char} {rest : List Char} (hc : IsNameStart c) :
    Measures (c :: rest) .identifier (1 + (rest.takeWhile continuesName).length) := by
  have hselect : Form.select (c :: rest) = .name := by rw [Form.select, if_pos hc]
  have hrun := (List.takeWhile_prefix (l := rest) continuesName).length_le
  refine ⟨hselect.symm, ?_, ?_, ?_⟩
  · rw [Nat.add_comm, List.take_succ_cons, take_run]
    refine mem_one_mul.mpr ⟨c, _, rfl, hc, mem_star_one.mpr ?_⟩
    exact fun d hd => continuesName_iff.mp (List.mem_takeWhile_imp hd)
  · rw [List.length_cons]
    omega
  · intro w hw hpre
    rw [hselect] at hw
    obtain ⟨d, v, rfl, -, hv⟩ := mem_one_mul.mp ((mem_language_form (k := .identifier) nofun).mp hw)
    have hv : ∀ e ∈ v, continuesName e = true :=
      fun e he => continuesName_iff.mpr (mem_star_one.mp hv e he)
    have hle := length_le_run (List.cons_prefix_cons.mp hpre).2 hv
    rw [List.length_cons]
    omega

theorem select_number {c : Char} {rest : List Char} (hname : ¬ IsNameStart c)
    (h : startsNumber (c :: rest) = true) : Form.select (c :: rest) = .number := by
  rw [Form.select, if_neg hname, if_pos (startsNumber_iff.mp h)]

theorem measures_number {cs : List Char} (hselect : Form.select cs = .number)
    (h : startsNumber cs = true) : Measures cs (number cs).1 (number cs).2 := by
  obtain ⟨s, d, ds, hs, hd, rfl, hsign⟩ := sign_of_startsNumber h
  have hu := take_wholeLength hd ds
  have hule := wholeLength_le d ds
  unfold number
  simp only [hsign, List.drop_left]
  generalize hn : wholeLength (d :: ds) = n at *
  have hdrop : (s ++ d :: ds).drop (s.length + n) = (d :: ds).drop n := by
    rw [← List.drop_drop, List.drop_left]
  have htake (m : Nat) : (s ++ d :: ds).take (s.length + n + m) =
      s ++ ((d :: ds).take n ++ ((d :: ds).drop n).take m) := by
    rw [Nat.add_assoc, List.take_length_add_append, List.take_add]
  have hfle := fractionLength_le ((d :: ds).drop n)
  rw [hdrop]
  have hlong : ∀ w ∈ (Form.select (s ++ d :: ds)).language, w <+: s ++ d :: ds →
      w.length ≤ s.length + n + fractionLength ((d :: ds).drop n) := by
    intro w hw hpre
    rw [hselect] at hw
    obtain ⟨s', u, f, rfl, hs', hu', hf⟩ := mem_language_number.mp hw
    obtain ⟨rfl, hbare⟩ := sign_of_prefix hs hs' hd hu' hpre
    have hle := length_le_measured hu' hf hbare
    rw [hn] at hle
    rw [List.length_append]
    omega
  have hlen : s.length + n + fractionLength ((d :: ds).drop n) ≤ (s ++ d :: ds).length := by
    rw [List.length_drop] at hfle
    rw [List.length_append]
    omega
  by_cases hf : fractionLength ((d :: ds).drop n) = 0
  · rw [hf] at hlong hlen ⊢
    rw [if_pos rfl]
    refine ⟨hselect.symm, ?_, hlen, hlong⟩
    rw [htake, List.take_zero, List.append_nil]
    exact Language.append_mem_mul hs hu
  · rw [if_neg hf]
    refine ⟨hselect.symm, ?_, hlen, hlong⟩
    rw [htake, ← List.append_assoc]
    exact Language.append_mem_mul (Language.append_mem_mul hs hu) (take_fractionLength hf)

/-! ### Quoted tokens -/

/-- What a quoted token holds between its quotes, one after the other. -/
def item (p : Char → Prop) : Language Char := one p + escape

theorem characterLength_of_mem {x rest : List Char} (hx : x ∈ item IsQuotable) :
    characterLength (x ++ '\'' :: rest) = .ok (x.length + 2) := by
  rcases hx with ⟨c, hc, rfl⟩ | hx
  · have hne : c ≠ '\\' := hc.1
    simp [characterLength, hne, isQuotable_iff.mpr hc]
  · obtain ⟨c, hc, rfl⟩ := mem_escape.mp hx
    simp [characterLength, endsEscape_iff.mpr hc]

theorem mem_of_characterLength {cs : List Char} {n : Nat} (h : characterLength cs = .ok n) :
    ∃ x rest, x ∈ item IsQuotable ∧ cs = x ++ '\'' :: rest ∧ n = x.length + 2 := by
  unfold characterLength at h
  split at h
  · next c rest =>
    split_ifs at h with hc hq
    cases h
    obtain ⟨rest, rfl⟩ := List.head?_eq_some_iff.mp hq
    have hmem : c ∈ escapeLetters := endsEscape_iff.mp (by simpa using hc)
    exact ⟨['\\', c], rest, Or.inr (mem_escape.mpr ⟨c, hmem, rfl⟩), rfl, rfl⟩
  · cases h
  · next c rest _ _ =>
    split_ifs at h with hc hq
    cases h
    obtain ⟨rest, rfl⟩ := List.head?_eq_some_iff.mp hq
    exact ⟨[c], rest, Or.inl ⟨c, isQuotable_iff.mp (by simpa using hc), rfl⟩, rfl, rfl⟩
  · cases h

theorem stringLength_of_mem {x rest : List Char} {n : Nat}
    (hx : x ∈ (item fun c => IsQuotable c ∧ c ≠ '"')∗) :
    stringLength n (x ++ '"' :: rest) = .ok (n + x.length + 1) := by
  obtain ⟨xs, rfl, hxs⟩ := Language.mem_kstar.mp hx
  clear hx
  induction xs generalizing n with
  | nil => simp [stringLength]
  | cons y ys ih =>
    have hys {m : Nat} := ih (n := m) fun z hz => hxs z (List.mem_cons_of_mem y hz)
    rw [List.flatten_cons, List.append_assoc]
    rcases hxs y List.mem_cons_self with ⟨c, ⟨hc, hquote⟩, rfl⟩ | hy
    · have hne : c ≠ '\\' := hc.1
      rw [List.singleton_append, stringLength, if_pos (isQuotable_iff.mpr hc), hys]
      · simp only [List.length_append, List.length_singleton]
        congr 1
        omega
      all_goals simp [hne, hquote]
    · obtain ⟨c, hc, rfl⟩ := mem_escape.mp hy
      simp only [List.cons_append, List.nil_append, stringLength, endsEscape_iff.mpr hc,
        Bool.not_true, Bool.false_eq_true, if_false, hys]
      simp only [List.length_cons]
      congr 1
      omega

theorem mem_of_stringLength {cs : List Char} {n m : Nat} (h : stringLength n cs = .ok m) :
    ∃ x rest, x ∈ (item fun c => IsQuotable c ∧ c ≠ '"')∗ ∧ cs = x ++ '"' :: rest ∧
      m = n + x.length + 1 := by
  fun_induction stringLength n cs with
  | case1 n => cases h
  | case2 n rest =>
    cases h
    exact ⟨[], rest, Language.nil_mem_kstar _, rfl, rfl⟩
  | case3 n => cases h
  | case4 n c rest hc => cases h
  | case5 n c rest hc ih =>
    obtain ⟨x, rest, hx, rfl, rfl⟩ := ih h
    obtain ⟨xs, rfl, hxs⟩ := Language.mem_kstar.mp hx
    have hmem : c ∈ escapeLetters := endsEscape_iff.mp (by simpa using hc)
    refine ⟨'\\' :: c :: xs.flatten, rest, ?_, rfl, ?_⟩
    · refine Language.mem_kstar.mpr ⟨['\\', c] :: xs, rfl, ?_⟩
      exact List.forall_mem_cons.mpr ⟨Or.inr (mem_escape.mpr ⟨c, hmem, rfl⟩), hxs⟩
    · simp only [List.length_cons]
      omega
  | case6 n c rest hquote _ _ hc ih =>
    obtain ⟨x, rest, hx, rfl, rfl⟩ := ih h
    obtain ⟨xs, rfl, hxs⟩ := Language.mem_kstar.mp hx
    refine ⟨c :: xs.flatten, rest, ?_, rfl, ?_⟩
    · refine Language.mem_kstar.mpr ⟨[c] :: xs, rfl, ?_⟩
      exact List.forall_mem_cons.mpr ⟨Or.inl ⟨c, ⟨isQuotable_iff.mp hc, hquote⟩, rfl⟩, hxs⟩
    · simp only [List.length_cons]
      omega
  | case7 n c rest => cases h

/-- A class of quoted tokens, from what is measured after the opening quote: the measure is right if
it finds every body with a quote after it, and nothing else. -/
theorem measures_quoted {k : TokenKind} {q : String} {c : Char} {body : Language Char}
    {rest : List Char} {n : Nat} (hq : q.toList = [c]) (hk : k.form ≠ .number)
    (hlang : k.language = only q * body * only q) (hselect : Form.select (c :: rest) = k.form)
    (hmem : ∃ x more, x ∈ body ∧ rest = x ++ c :: more ∧ n = x.length + 2)
    (hall : ∀ x ∈ body, ∀ more, rest = x ++ c :: more → x.length + 2 = n) :
    Measures (c :: rest) k n := by
  have hmem_iff {w : List Char} : w ∈ k.language ↔ ∃ x ∈ body, w = c :: x ++ [c] := by
    rw [hlang, mem_quoted hq]
  obtain ⟨x, more, hx, rfl, rfl⟩ := hmem
  refine ⟨hselect.symm, ?_, ?_, ?_⟩
  · refine hmem_iff.mpr ⟨x, hx, ?_⟩
    rw [List.take_succ_cons, List.take_length_add_append]
    rfl
  · simp only [List.length_cons, List.length_append]
    omega
  · intro w hw hpre
    rw [hselect] at hw
    obtain ⟨y, hy, rfl⟩ := hmem_iff.mp ((mem_language_form hk).mp hw)
    obtain ⟨more', hmore⟩ := hpre
    have heq : x ++ c :: more = y ++ c :: more' := by simpa using hmore.symm
    have hlen := hall y hy more' heq
    simp only [List.length_cons, List.length_append, List.length_nil]
    omega

theorem select_character (rest : List Char) : Form.select ('\'' :: rest) = .character := by
  simp [Form.select, IsNameStart, IsLetter, IsDigit]

theorem select_string (rest : List Char) : Form.select ('"' :: rest) = .string := by
  simp [Form.select, IsNameStart, IsLetter, IsDigit]

theorem measures_character {rest : List Char} {n : Nat} (h : characterLength rest = .ok n) :
    Measures ('\'' :: rest) .character n := by
  refine measures_quoted (q := "'") rfl nofun rfl (select_character rest)
    (mem_of_characterLength h) ?_
  rintro x hx more rfl
  rw [characterLength_of_mem hx] at h
  exact Except.ok.inj h

theorem measures_string {rest : List Char} {n : Nat} (h : stringLength 1 rest = .ok n) :
    Measures ('"' :: rest) .string n := by
  obtain ⟨x, more, hx, hrest, hn⟩ := mem_of_stringLength h
  refine measures_quoted (q := "\"") rfl nofun rfl (select_string rest)
    ⟨x, more, hx, hrest, by omega⟩ ?_
  rintro y hy more' rfl
  rw [stringLength_of_mem hy] at h
  have hlen := Except.ok.inj h
  omega

/-! ### Operators -/

/-- The operators of two characters. -/
def doubles : List (List Char) := [['!', '='], ['=', '='], ['&', '&'], ['|', '|']]

theorem mem_operator {w : List Char} :
    w ∈ TokenKind.operator.language ↔ w ∈ doubles ∨ ∃ c, w = [c] := by
  unfold TokenKind.language doubles
  simp only [Language.mem_add, mem_only, mem_one, true_and, List.mem_cons, List.not_mem_nil,
    or_false, or_assoc]
  exact Iff.rfl

theorem operatorLength_cases (c : Char) (rest : List Char) :
    operatorLength (c :: rest) = 1 ∨
      operatorLength (c :: rest) = 2 ∧ ∃ d more, rest = d :: more ∧ [c, d] ∈ doubles := by
  unfold operatorLength
  split
  case h_5 => exact Or.inl rfl
  all_goals
    next heq =>
      cases heq
      exact Or.inr ⟨rfl, _, _, rfl, by decide⟩

theorem operatorLength_of_mem {w more : List Char} (hw : w ∈ doubles) :
    operatorLength (w ++ more) = 2 := by
  simp only [doubles, List.mem_cons, List.not_mem_nil, or_false] at hw
  rcases hw with rfl | rfl | rfl | rfl <;> rfl

theorem length_of_mem_doubles {w : List Char} (hw : w ∈ doubles) : w.length = 2 := by
  simp only [doubles, List.mem_cons, List.not_mem_nil, or_false] at hw
  rcases hw with rfl | rfl | rfl | rfl <;> rfl

theorem measures_operator {c : Char} {rest : List Char}
    (hselect : Form.select (c :: rest) = .operator) :
    Measures (c :: rest) .operator (operatorLength (c :: rest)) := by
  have hcases := operatorLength_cases c rest
  refine ⟨hselect.symm, ?_, ?_, ?_⟩
  · rw [mem_operator]
    rcases hcases with h | ⟨h, d, more, rfl, hmem⟩
    · exact Or.inr ⟨c, by rw [h]; rfl⟩
    · exact Or.inl (by rw [h]; exact hmem)
  · rcases hcases with h | ⟨h, d, more, rfl, -⟩
    · simp [h]
    · simp [h]
  · intro w hw hpre
    rw [hselect] at hw
    rcases mem_operator.mp ((mem_language_form (k := .operator) nofun).mp hw) with hw | ⟨d, rfl⟩
    · obtain ⟨more, hmore⟩ := hpre
      rw [← hmore, operatorLength_of_mem hw, length_of_mem_doubles hw]
    · rcases hcases with h | ⟨h, -⟩ <;> simp [h]

/-! ### What is measured -/

/-- **What is measured at the front is the lexeme there.** -/
theorem measures_of_measure {c : Char} {rest : List Char} {k : TokenKind} {n : Nat}
    (h : measure (c :: rest) = .ok (k, n)) : Measures (c :: rest) k n := by
  rw [measure] at h
  split_ifs at h with hname hnumber hchar hstring
  · cases h
    exact measures_name (startsName_iff.mp hname)
  · rw [startsName_iff] at hname
    cases h
    exact measures_number (select_number hname hnumber) hnumber
  · subst hchar
    cases hlen : characterLength rest with
    | error e => simp [hlen, Except.map] at h
    | ok m =>
      simp only [hlen, Except.map, Except.ok.injEq, Prod.mk.injEq] at h
      obtain ⟨rfl, rfl⟩ := h
      exact measures_character hlen
  · subst hstring
    cases hlen : stringLength 1 rest with
    | error e => simp [hlen, Except.map] at h
    | ok m =>
      simp only [hlen, Except.map, Except.ok.injEq, Prod.mk.injEq] at h
      obtain ⟨rfl, rfl⟩ := h
      exact measures_string hlen
  · rw [startsName_iff] at hname
    rw [startsNumber_iff] at hnumber
    cases h
    refine measures_operator ?_
    rw [Form.select, if_neg hname, if_neg hnumber, if_neg hchar, if_neg hstring]

/-- Where some start belongs to the language that the front selects, measuring succeeds. -/
theorem exists_measure {c : Char} {rest w : List Char}
    (hw : w ∈ (Form.select (c :: rest)).language) (hpre : w <+: c :: rest) :
    ∃ k n, measure (c :: rest) = .ok (k, n) := by
  rw [measure]
  split_ifs with hname hnumber hchar hstring
  · exact ⟨_, _, rfl⟩
  · exact ⟨_, _, rfl⟩
  · subst hchar
    rw [select_character] at hw
    obtain ⟨x, hx, rfl⟩ :=
      (mem_quoted (c := '\'') rfl).mp ((mem_language_form (k := .character) nofun).mp hw)
    obtain ⟨more, hmore⟩ := hpre
    have hrest : rest = x ++ '\'' :: more := by simpa using hmore.symm
    exact ⟨_, _, by rw [hrest, characterLength_of_mem hx]; rfl⟩
  · subst hstring
    rw [select_string] at hw
    obtain ⟨x, hx, rfl⟩ :=
      (mem_quoted (c := '"') rfl).mp ((mem_language_form (k := .string) nofun).mp hw)
    obtain ⟨more, hmore⟩ := hpre
    have hrest : rest = x ++ '"' :: more := by simpa using hmore.symm
    exact ⟨_, _, by rw [hrest, stringLength_of_mem hx]; rfl⟩
  · exact ⟨_, _, rfl⟩

end Lexer

/-! ### One lexeme at a front -/

/-- An integer has no point. -/
theorem Lexical.point_notMem {w : List Char} (h : w ∈ TokenKind.integer.language) : '.' ∉ w := by
  have hpoint : ¬ IsDigit '.' := by decide
  obtain ⟨s, hs, u, hu, rfl⟩ := Language.mem_mul.mp h
  have hsign : '.' ∉ s := by
    rcases mem_sign.mp hs with rfl | rfl <;> decide
  have hwhole : '.' ∉ u := by
    rcases mem_whole.mp hu with rfl | ⟨c, v, rfl, ⟨hc, -⟩, hv⟩
    · decide
    · intro hmem
      rcases List.mem_cons.mp hmem with rfl | hmem
      · exact hpoint hc
      · exact hpoint (hv _ hmem)
  simp [hsign, hwhole]

/-- A decimal has one. -/
theorem Lexical.point_mem {w : List Char} (h : w ∈ TokenKind.decimal.language) : '.' ∈ w := by
  obtain ⟨_, -, f, hf, rfl⟩ := Language.mem_mul.mp h
  obtain ⟨v, rfl, -⟩ := mem_fraction.mp hf
  simp

/-- The text at a front has one class at most. -/
theorem TokenKind.eq_of_mem {k k' : TokenKind} {w : List Char} (hform : k.form = k'.form)
    (h : w ∈ k.language) (h' : w ∈ k'.language) : k = k' := by
  cases k <;> cases k'
  case integer.decimal => exact (point_notMem h (point_mem h')).elim
  case decimal.integer => exact (point_notMem h' (point_mem h)).elim
  all_goals first | rfl | cases hform

theorem Token.IsLexeme.unique {t u : Token} {cs : List Char} (ht : t.IsLexeme cs)
    (hu : u.IsLexeme cs) : t.kind = u.kind ∧ t.text = u.text := by
  have hform : t.kind.form = u.kind.form := ht.form.trans hu.form.symm
  have htu := hu.longest _ ⟨t.kind, ht.form, ht.mem⟩ ht.isPrefix
  have hut := ht.longest _ ⟨u.kind, hu.form, hu.mem⟩ hu.isPrefix
  have hlist : t.text.toList = u.text.toList :=
    (List.prefix_of_prefix_length_le ht.isPrefix hu.isPrefix htu).eq_of_length
      (Nat.le_antisymm htu hut)
  have htext : t.text = u.text := String.toList_inj.mp hlist
  exact ⟨TokenKind.eq_of_mem hform ht.mem (htext ▸ hu.mem), htext⟩

/-- No token is empty. -/
theorem TokenKind.ne_nil_of_mem {k : TokenKind} {w : List Char} (h : w ∈ k.language) : w ≠ [] := by
  have hnumber {v : List Char} (hv : v ∈ sign * whole) : v ≠ [] := by
    obtain ⟨s, -, u, hu, rfl⟩ := Language.mem_mul.mp hv
    rcases mem_whole.mp hu with rfl | ⟨c, v, rfl, -⟩ <;> simp
  cases k with
  | identifier =>
    obtain ⟨c, v, rfl, -⟩ := mem_one_mul.mp h
    exact List.cons_ne_nil c v
  | integer => exact hnumber h
  | decimal =>
    obtain ⟨v, hv, f, -, rfl⟩ := Language.mem_mul.mp h
    simp [hnumber hv]
  | character | string =>
    obtain ⟨v, rfl, -⟩ := mem_mul_only.mp h
    simp
  | operator =>
    rcases Lexer.mem_operator.mp h with hw | ⟨c, rfl⟩
    · rintro rfl
      exact absurd hw (by decide)
    · exact List.cons_ne_nil c []

/-- **Every lexeme is measured.** -/
theorem Lexer.measure_of_isLexeme {t : Token} {c : Char} {rest : List Char}
    (h : t.IsLexeme (c :: rest)) : measure (c :: rest) = .ok (t.kind, t.text.toList.length) := by
  obtain ⟨k, n, hmeasure⟩ := exists_measure ⟨t.kind, h.form, h.mem⟩ h.isPrefix
  have hk := measures_of_measure hmeasure
  obtain ⟨hkind, htext⟩ := h.unique (hk.isLexeme (o := 0))
  have hlen : t.text.toList.length = n := by
    simpa [htext] using hk.le
  rw [hmeasure, hkind, hlen]

end Scriptlet
