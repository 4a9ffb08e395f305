import Scriptlet.Proofs.Syntax.Recognition
import Scriptlet.Proofs.Token.Spacing

/-! # Quotations

The lexer lets an escape pass by its letter, and the parser resolves it by a table of letters. The
two agree: whatever the lexer takes for a quoted token is resolved, a character token to a single
character. Every text and every character can be quoted: it is enough to escape line ends,
backslashes and double quotes.

* `unescapes_body`: what is escaped is resolved to what it was.
* `quotations_agree`: quoted tokens stand for texts, and all texts are quoted by some token. -/

namespace Scriptlet

open Lexical
open scoped Computability

namespace Quotation

/-- A character as it stands between quotes. -/
def escaped (c : Char) : List Char :=
  if c = '\n' then ['\\', 'n']
  else if c = '\r' then ['\\', 'r']
  else if c = '\\' ∨ c = '"' then ['\\', c]
  else [c]

/-- Characters as they stand between quotes. -/
def body (cs : List Char) : List Char :=
  cs.flatMap escaped

/-- A text between double quotes. -/
def string (v : String) : String :=
  String.ofList ('"' :: body v.toList ++ ['"'])

/-- A character between single quotes. -/
def character (c : Char) : String :=
  String.ofList ('\'' :: escaped c ++ ['\''])

/-- What is escaped is an escape, or a character that may stand between quotes as it is. -/
theorem escaped_mem (c : Char) : escaped c ∈ Lexer.item fun d => IsQuotable d ∧ d ≠ '"' := by
  have hescape {d : Char} (hd : d ∈ escapeLetters) :
      ['\\', d] ∈ Lexer.item fun d => IsQuotable d ∧ d ≠ '"' := Or.inr (mem_escape.mpr ⟨d, hd, rfl⟩)
  unfold escaped
  split_ifs with hline hreturn hmark
  · exact hescape (by decide)
  · exact hescape (by decide)
  · rcases hmark with rfl | rfl <;> exact hescape (by decide)
  · obtain ⟨hslash, hquote⟩ := not_or.mp hmark
    exact Or.inl ⟨c, ⟨⟨hslash, hline, hreturn⟩, hquote⟩, rfl⟩

theorem unescapes_escaped (c : Char) {cs ds : List Char} (h : Grammar.Unescapes cs ds) :
    Grammar.Unescapes (escaped c ++ cs) (c :: ds) := by
  unfold escaped
  split_ifs with hline hreturn hmark
  · exact hline ▸ .escape (by decide) h
  · exact hreturn ▸ .escape (by decide) h
  · rcases hmark with rfl | rfl <;> exact .escape (by decide) h
  · exact .plain (not_or.mp hmark).1 h

/-- What is escaped is resolved to what it was. -/
theorem unescapes_body (cs : List Char) : Grammar.Unescapes (body cs) cs := by
  induction cs with
  | nil => exact .nil
  | cons c cs ih => exact unescapes_escaped c ih

/-- **Every text is quoted.** -/
theorem tokenize_string (v : String) : tokenize (string v) = .ok [⟨.string, string v, 0⟩] := by
  refine tokenize_of_mem nofun ?_
  rw [string, String.toList_ofList]
  refine (mem_quoted (c := '"') rfl).mpr ⟨body v.toList, Language.mem_kstar.mpr ?_, rfl⟩
  refine ⟨v.toList.map escaped, List.flatMap_def, ?_⟩
  rintro x hx
  obtain ⟨c, -, rfl⟩ := List.mem_map.mp hx
  exact escaped_mem c

theorem unquoted?_string (v : String) (offset : ℕ) :
    Token.unquoted? ⟨.string, string v, offset⟩ = some v := by
  have htext : (string v).toList = '"' :: body v.toList ++ ['"'] := String.toList_ofList
  rw [Grammar.unquoted?_eq (t := ⟨.string, string v, offset⟩) htext,
    (unescapes_body v.toList).unescape?_eq, Option.map_some, String.ofList_toList]

/-- **Every character is quoted.** -/
theorem tokenize_character (c : Char) :
    tokenize (character c) = .ok [⟨.character, character c, 0⟩] := by
  refine tokenize_of_mem nofun ?_
  rw [character, String.toList_ofList]
  refine (mem_quoted (c := '\'') rfl).mpr ⟨escaped c, ?_, rfl⟩
  rcases escaped_mem c with ⟨d, hd, heq⟩ | hescape
  · exact Or.inl ⟨d, hd.1, heq⟩
  · exact Or.inr hescape

theorem unquoted?_character (c : Char) (offset : ℕ) :
    Token.unquoted? ⟨.character, character c, offset⟩ = some (String.ofList [c]) := by
  have htext : (character c).toList = '\'' :: escaped c ++ ['\''] := String.toList_ofList
  have hone := (unescapes_escaped c .nil).unescape?_eq
  rw [List.append_nil] at hone
  rw [Grammar.unquoted?_eq (t := ⟨.character, character c, offset⟩) htext, hone, Option.map_some]

end Quotation

/-- The lexer lets those escapes pass that are resolved. -/
theorem endsEscape_eq (c : Char) : Lexer.endsEscape c = (escape? c).isSome := by
  rw [Bool.eq_iff_iff, Lexer.endsEscape_iff, Grammar.isSome_escape?_iff]

/-- **The quoted forms of the lexer are those that are resolved.** They have the same escapes. Every
string token stands for a text and every character token for one character; conversely, every text
and every character is what a single token stands for, which escapes line ends, backslashes and
double quotes only. -/
theorem quotations_agree :
    (∀ c, Lexer.endsEscape c = (escape? c).isSome) ∧
    (∀ s ts, tokenize s = .ok ts → ∀ t ∈ ts,
      (t.kind = .string → ∃ v, t.unquoted? = some v) ∧
      (t.kind = .character → ∃ c, t.unquoted? = some (String.ofList [c]))) ∧
    (∀ v, tokenize (Quotation.string v) = .ok [⟨.string, Quotation.string v, 0⟩] ∧
      Token.unquoted? ⟨.string, Quotation.string v, 0⟩ = some v) ∧
    ∀ c, tokenize (Quotation.character c) = .ok [⟨.character, Quotation.character c, 0⟩] ∧
      Token.unquoted? ⟨.character, Quotation.character c, 0⟩ = some (String.ofList [c]) := by
  refine ⟨endsEscape_eq, fun s ts h t ht => ?_, fun v => ?_, fun c => ?_⟩
  · have hlexical := lexed_of_tokenize h t ht
    exact ⟨Grammar.unquoted?_string hlexical, Grammar.unquoted?_character hlexical⟩
  · exact ⟨Quotation.tokenize_string v, Quotation.unquoted?_string v 0⟩
  · exact ⟨Quotation.tokenize_character c, Quotation.unquoted?_character c 0⟩

/-- A quote between single quotes, and an escaped backslash before a closing quote. -/
theorem quotations_agree_marks :
    tokenize "''' \"\\\\\"" = .ok [⟨.character, "'''", 0⟩, ⟨.string, "\"\\\\\"", 4⟩] ∧
    (∃ c, Token.unquoted? ⟨.character, "'''", 0⟩ = some (String.ofList [c])) ∧
    ∃ v, Token.unquoted? ⟨.string, "\"\\\\\"", 4⟩ = some v ∧ v = "\\" := by
  have htokens : tokenize "''' \"\\\\\"" =
      .ok [⟨.character, "'''", 0⟩, ⟨.string, "\"\\\\\"", 4⟩] := rfl
  have hstands := quotations_agree.2.1 _ _ htokens
  obtain ⟨v, hv⟩ := (hstands ⟨.string, "\"\\\\\"", 4⟩ (by simp)).1 rfl
  refine ⟨htokens, (hstands ⟨.character, "'''", 0⟩ (by simp)).2 rfl, v, hv, ?_⟩
  have hslash : Token.unquoted? ⟨.string, "\"\\\\\"", 4⟩ = some "\\" := rfl
  exact Option.some.inj (hv.symm.trans hslash)

end Scriptlet
