import Scriptlet.Proofs.Syntax.Completeness
import Scriptlet.Proofs.Syntax.Soundness
import Scriptlet.Proofs.Syntax.Unambiguity
import Scriptlet.Proofs.Token.Segmentation

/-! # Readers recognize the grammar

`Recognizes` puts together what the previous files say about a nonterminal: what its reader takes
off the front of tokens is derived, every plain derivation is read where it ends, and the plain
derivations have different yields. Where a derivation ends is a matter of the tokens alone: a
program ends with the tokens, a block before a word that ends blocks or with the tokens, a statement
with its last token, an expression before a token that does not go on with it.

* `readers_recognize`: the readers of programs, blocks, statements and expressions recognize the
  grammar on the tokens of every text. -/

namespace Scriptlet

open Grammar

/-- Whether a reader recognizes the derivations of a nonterminal at the front of tokens, where
`ends` says of two lists of tokens that a derivation of the first ends before the second. -/
structure Recognizes {D α : Type} (yield : D → List Token) (tree : D → α) (IsPlain : D → Prop)
    (ends : List Token → List Token → Prop)
    (parse : List Token → Except ParseError (α × List Token)) (ts : List Token) : Prop where
  /-- What is read is derived, with the tree that is given back, and ends there. -/
  sound : ∀ a rest, parse ts = .ok (a, rest) →
    ∃ d, ts = yield d ++ rest ∧ tree d = a ∧ ends (yield d) rest
  /-- A plain derivation is read if it ends, and only then. -/
  complete : ∀ d rest, IsPlain d → ts = yield d ++ rest →
    (parse ts = .ok (tree d, rest) ↔ ends (yield d) rest)
  /-- A plain derivation of what is read has the tree that is given back. -/
  determined : ∀ a rest, parse ts = .ok (a, rest) →
    ∀ d, IsPlain d → ts = yield d ++ rest → tree d = a
  /-- There are no two plain derivations of the same tokens. -/
  unique : ∀ d d', IsPlain d → IsPlain d' → yield d = yield d' → d = d'

namespace Recognizes

variable {D α : Type} {yield : D → List Token} {tree : D → α} {IsPlain : D → Prop}
  {ends : List Token → List Token → Prop}
  {parse : List Token → Except ParseError (α × List Token)} {ts : List Token}

theorem of_read
    (sound : ∀ a rest, parse ts = .ok (a, rest) →
      ∃ d, ts = yield d ++ rest ∧ tree d = a ∧ ends (yield d) rest)
    (read : ∀ d rest, IsPlain d → ends (yield d) rest → ts = yield d ++ rest →
      parse ts = .ok (tree d, rest))
    (unique : ∀ d d', IsPlain d → IsPlain d' → yield d = yield d' → d = d') :
    Recognizes yield tree IsPlain ends parse ts := by
  -- two derivations of what is read have the same yield, so they end at the same place
  have ends_of {a : α} {d : D} {rest : List Token} (h : parse ts = .ok (a, rest))
      (hts : ts = yield d ++ rest) : ends (yield d) rest := by
    obtain ⟨d', hts', -, hends⟩ := sound a rest h
    rwa [List.append_cancel_right (hts'.symm.trans hts)] at hends
  refine ⟨sound, fun d rest hp hts => ⟨fun h => ends_of h hts, fun h => read d rest hp h hts⟩, ?_,
    unique⟩
  intro a rest h d hp hts
  have hread := read d rest hp (ends_of h hts) hts
  rw [h] at hread
  cases hread
  rfl

end Recognizes

theorem lexed_of_tokenize {s : String} {ts : List Token} (h : tokenize s = .ok ts) : Lexed ts :=
  fun t ht => ((tokenize_eq_ok_iff.mp h).lexeme t ht).mem

section Readers

variable {ts : List Token} (hts : Lexed ts)

include hts

theorem recognizes_program :
    Recognizes Source.tokens Source.tree Source.IsPlain (fun _ rest => rest = []) parseProgram
      ts := by
  refine .of_read (fun a rest h => exists_source hts h) ?_ ?_
  · rintro d rest hp rfl rfl
    rw [List.append_nil]
    exact Source.read hp
  · exact fun d d' hp hp' h => Source.unique hp hp' h

theorem recognizes_block :
    Recognizes Block.tokens Block.trees Block.IsPlain (fun _ rest => EndsBlock rest) parseBlock
      ts := by
  refine .of_read ?_ ?_ ?_
  · intro a rest h
    obtain ⟨d, hd, htrees, hend⟩ := exists_block hts h
    exact ⟨d, hd, htrees, endsBlock_iff.mp hend⟩
  · rintro d rest hp hend rfl
    refine Block.read hp ?_ (endsBlock_iff.mpr hend)
    simp only [Parser.fuelFor, List.length_append]
    omega
  · intro d d' hp hp' h
    have happend : d.tokens ++ [] = d'.tokens ++ [] := by rw [h]
    exact (Block.unique hp hp' rfl rfl happend).1

theorem recognizes_statement :
    Recognizes Statement.tokens Statement.tree Statement.IsPlain (fun _ _ => True) parseStatement
      ts := by
  refine .of_read ?_ ?_ ?_
  · intro a rest h
    obtain ⟨d, hd, htree⟩ := exists_statement hts h
    exact ⟨d, hd, htree, trivial⟩
  · rintro d rest hp - rfl
    refine Statement.read hp ?_
    simp only [Parser.fuelFor, List.length_append]
    omega
  · intro d d' hp hp' h
    have happend : d.tokens ++ [] = d'.tokens ++ [] := by rw [h]
    exact (Statement.unique hp hp' happend).1

theorem recognizes_expression :
    Recognizes (fun d : Expression => d.tokens) (fun d => d.tree) (fun d => d.IsPlain)
      (Ends (reach .logical)) parseExpression ts := by
  refine .of_read (fun a rest h => exists_expression hts h) ?_ ?_
  · rintro d rest hp hends rfl
    exact Tiered.read_expression hp hends
  · intro d d' hp hp' h
    have happend : Tiered.tokens d ++ [] = Tiered.tokens d' ++ [] := congrArg (· ++ []) h
    exact (Tiered.unique hp hp' .of_nil .of_nil happend).1

end Readers

/-- A literal alone is read as an expression. -/
theorem parseExpression_literal {l : Literal} (hp : l.IsPlain) :
    parseExpression [l.token] = .ok (.literal l.value l.kind none, []) := by
  let factor : Tiered .multiplicative := .mk (.primary (.literal l)) .nil
  let d : Expression := .mk (.tiered .comparison (.mk (.tiered .additive
    (.mk (.tiered .multiplicative factor) .nil)) .nil)) .nil
  have htokens : d.tokens = [l.token] := rfl
  have hplain : d.IsPlain := ⟨⟨⟨⟨hp, trivial⟩, trivial⟩, trivial⟩, trivial⟩
  have hlexed : Lexed [l.token] := List.forall_mem_singleton.mpr l.isLexical
  have hread := (recognizes_expression hlexed).complete d [] hplain (by rw [htokens]; rfl)
  exact hread.mpr .of_nil

/-- **Readers recognize the grammar.** On the tokens of a text, the four readers take off exactly
what is derived: each result is the tree of a derivation, and a plain derivation is the only plain
one of its tokens and is read where it ends. -/
theorem readers_recognize {s : String} {ts : List Token} (h : tokenize s = .ok ts) :
    Recognizes Source.tokens Source.tree Source.IsPlain (fun _ rest => rest = []) parseProgram ts ∧
      Recognizes Block.tokens Block.trees Block.IsPlain (fun _ rest => EndsBlock rest) parseBlock
        ts ∧
      Recognizes Statement.tokens Statement.tree Statement.IsPlain (fun _ _ => True)
        parseStatement ts ∧
      Recognizes (fun d : Expression => d.tokens) (fun d => d.tree) (fun d => d.IsPlain)
        (Ends (reach .logical)) parseExpression ts := by
  have hts := lexed_of_tokenize h
  exact ⟨recognizes_program hts, recognizes_block hts, recognizes_statement hts,
    recognizes_expression hts⟩

/-- The declaration of a constant without a value has one plain derivation. -/
theorem readers_recognize_constant :
    ∃ d : Source, d.IsPlain ∧
      d.tokens = [⟨.identifier, "VAL", 0⟩, ⟨.identifier, "x", 4⟩, ⟨.operator, ";", 5⟩] ∧
      parseProgram d.tokens = .ok (⟨[.decl ⟨.text "x", false, none, none, false, none⟩], []⟩, []) ∧
      ∀ d' : Source, d'.IsPlain → d'.tokens = d.tokens → d' = d := by
  have hread : tokenize "VAL x;" =
      .ok [⟨.identifier, "VAL", 0⟩, ⟨.identifier, "x", 4⟩, ⟨.operator, ";", 5⟩] := rfl
  have hlex := lexed_of_tokenize hread
  have hrecognize := (readers_recognize hread).1
  obtain ⟨g, hplain, htokens, htree⟩ : ∃ g : GlobalItem, g.IsPlain ∧
      g.tokens = [⟨.identifier, "VAL", 0⟩, ⟨.identifier, "x", 4⟩, ⟨.operator, ";", 5⟩] ∧
      g.tree = ⟨.text "x", false, none, none, false, none⟩ :=
    ⟨⟨⟨_, hlex ⟨.identifier, "VAL", 0⟩ (by simp), by simp⟩,
      ⟨_, hlex ⟨.identifier, "x", 4⟩ (by simp), rfl⟩, .none, .none,
      ⟨_, hlex ⟨.operator, ";", 5⟩ (by simp), by simp⟩⟩, trivial, rfl, rfl⟩
  have hd : Source.IsPlain ⟨[g], []⟩ := ⟨by simpa using hplain, by simp⟩
  have hyield : Source.tokens ⟨[g], []⟩ = g.tokens := by simp [Source.tokens]
  refine ⟨⟨[g], []⟩, hd, hyield.trans htokens, ?_, fun d' hd' h => hrecognize.unique _ _ hd' hd h⟩
  have hparse := (hrecognize.complete ⟨[g], []⟩ [] hd (by simp [hyield, htokens])).mpr rfl
  rw [hyield, htokens, hparse, Source.tree, List.map_singleton, htree, List.map_nil]

end Scriptlet
