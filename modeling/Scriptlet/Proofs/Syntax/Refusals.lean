import Scriptlet.Proofs.Decimal.Rounding
import Scriptlet.Proofs.Syntax.Literals
import Scriptlet.Proofs.Syntax.Written
import Scriptlet.Proofs.Token.Segmentation

/-! # Refused texts

The one failure of reading a program that is not about the text alone is a decimal that cannot be
kept. Its token has more than `Decimal.maxWritten` characters (`isKept_of_length_le`), and a reader
of the grammar fails for no such reason if no token does (`Reports`).

* `lt_length_of_badDecimal`: a text that is refused for a decimal is longer than any that is. -/

namespace Scriptlet

/-! ### Decimals that are kept -/

theorem Text.digitsValue_lt {w : List Char} (hw : ∀ c ∈ w, Lexical.IsDigit c) :
    Text.digitsValue w < tenTo w.length := by
  have hdigit : ∀ d ∈ w.map fun c => c.toNat - 48, d < 10 := by
    intro d hd
    obtain ⟨c, hc, rfl⟩ := List.mem_map.mp hd
    have hle : c.toNat ≤ '9'.toNat := (hw c hc).2
    change c.toNat ≤ 57 at hle
    omega
  have hlt := Text.foldl_digits_lt hdigit 0
  rwa [Nat.zero_add, Nat.one_mul, List.length_map, List.foldl_map] at hlt

/-- Whether a token is no decimal that cannot be kept. -/
def Token.IsKept (t : Token) : Prop :=
  t.kind = .decimal → ∃ d, Decimal.ofText t.text = .ok d

theorem isKept_of_length_le {t : Token} (ht : Grammar.IsLexical t)
    (hlength : t.text.length ≤ Decimal.maxWritten) : t.IsKept := by
  intro hkind
  unfold Grammar.IsLexical at ht
  rw [hkind] at ht
  obtain ⟨neg, w, f, htext, hw, hf⟩ := Grammar.decimal_parts ht
  have hpos : 0 < w.length := List.length_pos_iff.mpr hw.1
  have hsum : w.length + f.length < t.text.length := by
    rw [← String.length_toList, htext]
    simp only [List.length_append, List.length_cons]
    omega
  have hdigits : ∀ c ∈ w ++ f, Lexical.IsDigit c := by
    intro c hc
    rcases List.mem_append.mp hc with hc | hc
    · exact hw.2 c hc
    · exact hf.2 c hc
  have hcount : Decimal.digitCount (Text.digitsValue (w ++ f)) ≤ (w ++ f).length :=
    Decimal.digitCount_le (by rw [List.length_append]; omega) (Text.digitsValue_lt hdigits)
  rw [List.length_append] at hcount
  refine ⟨_, (Grammar.ofText_decimal hw hf htext).trans (Decimal.ofParts_eq_ok_iff.mpr ⟨rfl, ?_⟩)⟩
  simp only [Decimal.InRange, Decimal.maxWritten, Decimal.minWritten] at hlength ⊢
  omega

/-! ### Readers -/

namespace Parser

variable {α β : Type} {stop : Nat} {left : α → List Token} {left' : β → List Token}

/-- Whether a reader that succeeds leaves tokens that are kept, and one that fails does not fail for
a decimal. -/
def Reports (left : α → List Token) : Except ParseError α → Prop
  | .ok a => ∀ t ∈ left a, t.IsKept
  | .error e => ∀ s, e ≠ .badDecimal s

theorem Reports.bind {x : Except ParseError α} {f : α → Except ParseError β}
    (hx : Reports left x) (hf : ∀ a, (∀ t ∈ left a, t.IsKept) → Reports left' (f a)) :
    Reports left' (x >>= f) := by
  cases x with
  | error e => exact hx
  | ok a => exact hf a hx

theorem reports_fail {w : Wanted} {ts : List Token} : Reports left (fail stop w ts) := by
  cases ts with
  | nil => nofun
  | cons t ts => nofun

section Leaves

variable {ts : List Token} (hts : ∀ t ∈ ts, t.IsKept)

include hts

theorem isKept_drop (k : Nat) : ∀ t ∈ ts.drop k, t.IsKept :=
  fun t ht => hts t (List.mem_of_mem_drop ht)

theorem isKept_of_take? {ws : List String} {s : String} {rest : List Token}
    (h : take? ws ts = some (s, rest)) : ∀ t ∈ rest, t.IsKept := by
  cases ts with
  | nil => cases h
  | cons t ts =>
    rw [take?] at h
    split_ifs at h
    cases h
    exact (List.forall_mem_cons.mp hts).2

theorem reports_word (w : String) : Reports id (word stop w ts) := by
  cases ts with
  | nil =>
    rw [word]
    exact reports_fail
  | cons t ts =>
    rw [word]
    split_ifs
    · exact (List.forall_mem_cons.mp hts).2
    · exact reports_fail

theorem reports_identifier (w : Wanted) : Reports Prod.snd (identifier stop w ts) := by
  cases ts with
  | nil =>
    rw [identifier]
    exact reports_fail
  | cons t ts =>
    rw [identifier]
    split_ifs
    · exact (List.forall_mem_cons.mp hts).2
    · exact reports_fail

theorem reports_typeNote (w : Wanted) : Reports Prod.snd ( typeAnnotation stop w ts) := by
  rw [ typeAnnotation]
  split
  · next htake =>
    exact (reports_identifier (isKept_of_take? hts htake) w).bind fun _ h => h
  · exact hts

end Leaves

theorem reports_literal {t : Token} (ht : t.IsKept) {ts : List Token} (hts : ∀ t ∈ ts, t.IsKept)
    {r : Except ParseError Expr} (h : literal? t = some r) :
    Reports Prod.snd (r.map (·, ts)) := by
  have hquoted (k : LiteralKind) : Reports Prod.snd ((quoted t k).map (·, ts)) := by
    unfold quoted
    split
    · exact hts
    · nofun
  unfold literal? at h
  split_ifs at h
  · cases h
    exact hts
  · cases h
    exact hts
  · cases h
    exact hts
  · split at h
    · cases h
      split
      · exact hts
      · nofun
    · next hkind =>
      cases h
      obtain ⟨d, hd⟩ := ht hkind
      rw [hd]
      exact hts
    · cases h
      exact hquoted _
    · cases h
      exact hquoted _
    · cases h

mutual

theorem reports_tier : ∀ {fuel : Nat} {l : Tier} {ts : List Token}, (∀ t ∈ ts, t.IsKept) →
    Reports Prod.snd (tier stop fuel l ts)
  | 0, _, _, _ => by
    rw [tier]
    exact reports_fail
  | _ + 1, _, _, hts => by
    rw [tier]
    exact (reports_operand hts).bind fun _ h => reports_chain h

theorem reports_operand : ∀ {fuel : Nat} {l : Tier} {ts : List Token}, (∀ t ∈ ts, t.IsKept) →
    Reports Prod.snd (operand stop fuel l ts)
  | 0, _, _, _ => by
    rw [operand]
    exact reports_fail
  | _ + 1, _, _, hts => by
    rw [operand]
    split
    · exact reports_tier hts
    · exact reports_primary hts

theorem reports_chain : ∀ {fuel : Nat} {l : Tier} {e : Expr} {ts : List Token},
    (∀ t ∈ ts, t.IsKept) → Reports Prod.snd (chain stop fuel l e ts)
  | 0, _, _, _, _ => by
    rw [chain]
    exact reports_fail
  | _ + 1, _, _, _, hts => by
    rw [chain]
    split
    · next htake =>
      exact (reports_operand (isKept_of_take? hts htake)).bind fun _ h => reports_chain h
    · exact hts

theorem reports_primary : ∀ {fuel : Nat} {ts : List Token}, (∀ t ∈ ts, t.IsKept) →
    Reports Prod.snd (primary stop fuel ts)
  | 0, _, _ => by
    rw [primary]
    exact reports_fail
  | _ + 1, [], _ => by
    rw [primary]
    · exact reports_fail
    · exact Nat.succ_ne_zero _
  | _ + 1, t :: ts, hts => by
    obtain ⟨ht, htail⟩ := List.forall_mem_cons.mp hts
    rw [primary]
    split
    · next hliteral => exact reports_literal ht htail hliteral
    split_ifs
    · exact (reports_tier htail).bind fun _ h => (reports_word h ")").bind fun _ h => h
    · exact reports_reference htail
    · exact reports_fail

theorem reports_reference : ∀ {fuel : Nat} {x : Name} {ts : List Token}, (∀ t ∈ ts, t.IsKept) →
    Reports Prod.snd (reference stop fuel x ts)
  | 0, _, _, _ => by
    rw [reference]
    exact reports_fail
  | _ + 1, _, _, hts => by
    have hdrop := isKept_drop hts 1
    rw [reference]
    simp only
    split_ifs
    · exact isKept_drop hdrop 1
    · exact (reports_expressions hdrop).bind fun _ h => (reports_word h ")").bind fun _ h => h
    · exact (reports_tier hdrop).bind fun _ h => (reports_word h "]").bind fun _ h => h
    · exact hts

theorem reports_expressions : ∀ {fuel : Nat} {ts : List Token}, (∀ t ∈ ts, t.IsKept) →
    Reports Prod.snd (expressions stop fuel ts)
  | 0, _, _ => by
    rw [expressions]
    exact reports_fail
  | _ + 1, _, hts => by
    rw [expressions]
    refine (reports_tier hts).bind fun _ h => ?_
    simp only
    split_ifs
    · exact (reports_expressions (isKept_drop h 1)).bind fun _ h => h
    · exact h

end

section Parts

variable {ts : List Token} (hts : ∀ t ∈ ts, t.IsKept)

include hts

theorem reports_expression : Reports Prod.snd (expression stop ts) :=
  reports_tier hts

theorem reports_listLiteral : Reports Prod.snd (listLiteral stop ts) :=
  (reports_word hts "[").bind fun _ h => (reports_expressions h).bind fun _ h =>
    (reports_word h "]").bind fun _ h => h

theorem reports_initializer : Reports Prod.snd (initializer stop ts) := by
  rw [initializer]
  split_ifs
  · exact (reports_expression (isKept_drop hts 1)).bind fun _ h => h
  · exact hts

theorem reports_localDeclaration : Reports Prod.snd (localDeclaration stop ts) :=
  (reports_identifier hts _).bind fun _ h => (reports_typeNote h _).bind fun _ h =>
    (reports_initializer h).bind fun _ h => (reports_word h ";").bind fun _ h => h

theorem reports_simpleStatement : Reports Prod.snd (simpleStatement stop ts) := by
  refine (reports_expression hts).bind fun _ h => ?_
  simp only
  split_ifs
  · exact (reports_expression (isKept_drop h 1)).bind fun _ h =>
      (reports_word h ";").bind fun _ h => h
  · exact (reports_word h ";").bind fun _ h => h

end Parts

mutual

theorem reports_block : ∀ {fuel : Nat} {ts : List Token}, (∀ t ∈ ts, t.IsKept) →
    Reports Prod.snd (block stop fuel ts)
  | 0, _, _ => by
    rw [block]
    exact reports_fail
  | _ + 1, _, hts => by
    rw [block]
    split_ifs
    · exact hts
    · exact (reports_statement hts).bind fun _ h => (reports_block h).bind fun _ h => h

theorem reports_statement : ∀ {fuel : Nat} {ts : List Token}, (∀ t ∈ ts, t.IsKept) →
    Reports Prod.snd (statement stop fuel ts)
  | 0, _, _ => by
    rw [statement]
    exact reports_fail
  | _ + 1, _, hts => by
    have hdrop := isKept_drop hts 1
    rw [statement]
    split_ifs
    · exact reports_localDeclaration hdrop
    · refine (reports_expression hdrop).bind fun _ h => (reports_word h "DO").bind fun _ h =>
        (reports_block h).bind fun _ h => ?_
      simp only
      split_ifs
      · exact (reports_block (isKept_drop h 1)).bind fun _ h =>
          (reports_word h "END").bind fun _ h => h
      · exact (reports_word h "END").bind fun _ h => h
    · exact (reports_expression hdrop).bind fun _ h => (reports_cases h).bind fun _ h =>
        (reports_word h "END").bind fun _ h => h
    · exact (reports_expression hdrop).bind fun _ h => (reports_word h "DO").bind fun _ h =>
        (reports_block h).bind fun _ h => (reports_word h "END").bind fun _ h => h
    · exact (reports_expression hdrop).bind fun _ h => (reports_word h ";").bind fun _ h => h
    · exact reports_simpleStatement hts

theorem reports_cases : ∀ {fuel : Nat} {ts : List Token}, (∀ t ∈ ts, t.IsKept) →
    Reports Prod.snd (cases stop fuel ts)
  | 0, _, _ => by
    rw [Parser.cases]
    exact reports_fail
  | _ + 1, _, hts => by
    rw [Parser.cases]
    split_ifs
    · exact (reports_expression (isKept_drop hts 1)).bind fun _ h =>
        (reports_word h ":").bind fun _ h => (reports_block h).bind fun _ h =>
          (reports_cases h).bind fun _ h => h
    · exact (reports_word hts "DEFAULT").bind fun _ h => (reports_block h).bind fun _ h => h

end

theorem reports_global {keyword : String} {ts : List Token} (hts : ∀ t ∈ ts, t.IsKept) :
    Reports Prod.snd (global stop keyword ts) := by
  refine (reports_identifier hts _).bind fun _ h => (reports_typeNote h _).bind fun _ h => ?_
  simp only
  split_ifs
  · exact (reports_listLiteral (isKept_drop h 1)).bind fun _ h =>
      (reports_word h ";").bind fun _ h => h
  · exact (reports_initializer h).bind fun _ h => (reports_word h ";").bind fun _ h => h

theorem reports_parameters : ∀ {fuel : Nat} {ts : List Token}, (∀ t ∈ ts, t.IsKept) →
    Reports Prod.snd (parameters stop fuel ts)
  | 0, _, _ => by
    rw [parameters]
    exact reports_fail
  | _ + 1, _, hts => by
    have hparameter : Reports Prod.snd (parameter stop _) :=
      (reports_identifier hts _).bind fun _ h => (reports_typeNote h _).bind fun _ h => h
    rw [parameters]
    refine hparameter.bind fun _ h => ?_
    simp only
    split_ifs
    · exact (reports_parameters (isKept_drop h 1)).bind fun _ h => h
    · exact h

theorem reports_function {ts : List Token} (hts : ∀ t ∈ ts, t.IsKept) :
    Reports Prod.snd (function stop ts) := by
  refine (reports_identifier hts _).bind fun _ h => (reports_word h "(").bind fun _ h => ?_
  have hrest {name : Name} {params : List Param} {ts : List Token} (hts : ∀ t ∈ ts, t.IsKept) :
      Reports Prod.snd (do
        let ts ← word stop ")" ts
        let r ← typeAnnotation stop .returnTypeName ts
        let ts ← word stop "DO" r.2
        let b ← block stop (fuelFor ts) ts
        let ts ← word stop "END" b.2
        return ((⟨name, params, r.1, b.1, none⟩ : FuncDecl), ts)) :=
    (reports_word hts ")").bind fun _ h => (reports_typeNote h _).bind fun _ h =>
      (reports_word h "DO").bind fun _ h => (reports_block h).bind fun _ h =>
        (reports_word h "END").bind fun _ h => h
  simp only
  split_ifs
  · exact hrest h
  · exact (reports_parameters h).bind fun _ h => hrest h

theorem reports_globals : ∀ {fuel : Nat} {ts : List Token}, (∀ t ∈ ts, t.IsKept) →
    Reports Prod.snd (globals stop fuel ts)
  | 0, _, hts => hts
  | _ + 1, _, hts => by
    rw [globals]
    split
    · next htake =>
      exact (reports_global (isKept_of_take? hts htake)).bind fun _ h =>
        (reports_globals h).bind fun _ h => h
    · exact hts

theorem reports_functions : ∀ {fuel : Nat} {ts : List Token}, (∀ t ∈ ts, t.IsKept) →
    Reports Prod.snd (functions stop fuel ts)
  | 0, _, hts => hts
  | _ + 1, _, hts => by
    rw [functions]
    split_ifs
    · exact (reports_function (isKept_drop hts 1)).bind fun _ h =>
        (reports_functions h).bind fun _ h => h
    · exact hts

theorem reports_program {ts : List Token} (hts : ∀ t ∈ ts, t.IsKept) :
    Reports Prod.snd (program stop ts) := by
  refine (reports_globals hts).bind fun _ h => (reports_functions h).bind fun a h => ?_
  obtain ⟨fs, rest⟩ := a
  cases rest with
  | nil => exact h
  | cons t rest => exact reports_fail

end Parser

/-! ### Programs -/

theorem length_le_of_mem_tokenize {text : String} {ts : List Token} (h : tokenize text = .ok ts)
    {t : Token} (ht : t ∈ ts) : t.text.length ≤ text.length := by
  have htext := congrArg List.length ((tokenize_eq_ok_iff.mp h).text_eq t ht)
  simp only [List.length_take, List.length_drop, String.length_toList] at htext
  omega

/-- **A text that is refused for a decimal is longer than any decimal that is kept.** -/
theorem lt_length_of_badDecimal {text : String} {s : Decimal.Signal}
    (h : readProgram text = .error (.parse (.badDecimal s))) :
    Decimal.maxWritten < text.length := by
  by_contra hlength
  have hlength : text.length ≤ Decimal.maxWritten := Int.not_lt.mp hlength
  unfold readProgram at h
  cases htokens : tokenize text with
  | error e =>
    rw [htokens] at h
    cases h
  | ok ts =>
    have hkept : ∀ t ∈ ts, t.IsKept := by
      intro t ht
      have hle := length_le_of_mem_tokenize htokens ht
      exact isKept_of_length_le ((tokenize_eq_ok_iff.mp htokens).lexeme t ht).mem (by omega)
    have hreports : Parser.Reports Prod.snd (parseProgram ts) := Parser.reports_program hkept
    rw [htokens] at h
    cases hparse : parseProgram ts with
    | ok r =>
      simp only [Except.mapError, ok_bind, hparse] at h
      cases h
    | error e =>
      simp only [Except.mapError, ok_bind, hparse] at h
      cases h
      rw [hparse] at hreports
      exact hreports s rfl

end Scriptlet
