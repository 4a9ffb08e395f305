import Scriptlet.Proofs.Json.Printed
import Scriptlet.Proofs.Node.RoundTrip
import Scriptlet.Proofs.Syntax.Soundness
import Scriptlet.Proofs.Text.Lines
import Scriptlet.Proofs.Token.Segmentation

/-! # Programs of texts as trees

A program that was read off a text is a tree in every part, and nothing has been written into its
slots. So it is loaded from the data that is written for it, as it is. Both facts are read off the
derivations of the grammar, one production after the other.

* `loadProgram_of_readProgram`: a program of a text loads back from its data. -/

namespace Scriptlet

namespace Grammar

open Scriptlet.Parser (Tier)

theorem Denotes.fills {t : Token} {v : Datum} {k : LiteralKind} (h : Denotes t v k) :
    v.Fills k := by
  cases h with
  | nil _ => exact .null ⟨nofun, nofun⟩
  | yes _ => exact .bool true ⟨nofun, nofun⟩
  | no _ => exact .bool false ⟨nofun, nofun⟩
  | integer _ _ _ => exact .int _ ⟨nofun, nofun⟩
  | decimal _ _ _ _ hrange => exact .decimal hrange
  | character _ _ _ => exact .str _ ⟨nofun, nofun⟩
  | string _ _ _ => exact .str _ ⟨nofun, nofun⟩

/-! ### Names -/

/-- **The name of an identifier is one line.** -/
theorem Ident.isLine (x : Ident) : x.name.IsLine := by
  refine ⟨x.token.text, rfl, fun hfeed => ?_⟩
  have hmem := x.isLexical
  rw [IsLexical, x.kind_eq] at hmem
  obtain ⟨v, ⟨c, hc, rfl⟩, w, hw, htext⟩ := hmem
  have hstart : ¬ Lexical.IsNameStart '\n' := by decide
  have hpart : ¬ Lexical.IsNamePart '\n' := by
    rintro (h | h | h | h)
    · exact absurd h (by decide)
    · exact absurd h (by decide)
    · cases h
    · cases h
  rw [← htext] at hfeed
  rcases List.mem_append.mp hfeed with h | h
  · obtain rfl := List.mem_singleton.mp h
    exact hstart hc
  · exact hpart (Lexical.mem_star_one.mp hw _ h)

section

variable {P : Name → Prop}

/-! ### Expressions -/

mutual

theorem Tiered.isTreeOf (hP : ∀ x : Ident, P x.name) {l : Tier} : ∀ d : Tiered l, d.tree.IsTreeOf P
  | .mk first more => more.isTreeOf hP (first.isTreeOf hP)

theorem Operand.isTreeOf (hP : ∀ x : Ident, P x.name) {l : Tier} :
    ∀ d : Operand l, d.tree.IsTreeOf P
  | .tiered _ e => e.isTreeOf hP
  | .primary e => e.isTreeOf hP

theorem Chain.isTreeOf (hP : ∀ x : Ident, P x.name) {l : Tier} :
    ∀ (d : Chain l) {left : Expr}, left.IsTreeOf P → (d.tree left).IsTreeOf P
  | .nil, _, hleft => hleft
  | .cons _ right more, _, hleft => more.isTreeOf hP ⟨hleft, right.isTreeOf hP⟩

theorem Primary.isTreeOf (hP : ∀ x : Ident, P x.name) : ∀ d : Primary, d.tree.IsTreeOf P
  | .literal l => l.denotes.fills
  | .group _ e _ => by
    have he : e.tree.IsTreeOf P := e.isTreeOf hP
    exact he
  | .reference x tail => tail.isTreeOf hP (hP x)

theorem Tail.isTreeOf (hP : ∀ x : Ident, P x.name) :
    ∀ (d : Tail) {x : Name}, P x → (d.tree x).IsTreeOf P
  | .none, _, hx => hx
  | .emptyCall _ _, _, hx => ⟨hx, trivial⟩
  | .call _ args _, _, hx => ⟨hx, args.areTreesOf hP⟩
  | .index _ place _, _, hx => ⟨hx, place.isTreeOf hP⟩

theorem Expressions.areTreesOf (hP : ∀ x : Ident, P x.name) :
    ∀ d : Expressions, Expr.AreTreesOf P d.trees
  | .one e => ⟨e.isTreeOf hP, trivial⟩
  | .cons e _ es => ⟨e.isTreeOf hP, es.areTreesOf hP⟩

end

/-! ### Optional parts -/

theorem TypeNote.names (hP : ∀ x : Ident, P x.name) (d : TypeNote) : ∀ y ∈ d.tree, P y := by
  intro y hy
  cases d with
  | none => cases hy
  | some _ type =>
    cases hy
    exact hP type

theorem Init.isTreeOf (hP : ∀ x : Ident, P x.name) (d : Init) : ∀ e ∈ d.tree, e.IsTreeOf P := by
  intro e he
  cases d with
  | none => cases he
  | some _ d =>
    cases he
    exact Tiered.isTreeOf hP d

/-! ### Statements -/

mutual

theorem Block.areTreesOf (hP : ∀ x : Ident, P x.name) : ∀ d : Block, Stmt.AreTreesOf P d.trees
  | .nil => trivial
  | .cons s b => ⟨s.isTreeOf hP, b.areTreesOf hP⟩

theorem Statement.isTreeOf (hP : ∀ x : Ident, P x.name) : ∀ d : Statement, d.tree.IsTreeOf P
  | .declare _ x type value _ => ⟨hP x, type.names hP, value.isTreeOf hP⟩
  | .branch _ c _ t e _ => ⟨Tiered.isTreeOf hP c, t.areTreesOf hP, e.areTreesOf hP⟩
  | .switch _ c cs _ => ⟨Tiered.isTreeOf hP c, cs.areTreesOf hP⟩
  | .loop _ c _ b _ => ⟨Tiered.isTreeOf hP c, b.areTreesOf hP⟩
  | .ret _ e _ => by
    have he : (Tiered.tree e).IsTreeOf P := Tiered.isTreeOf hP e
    exact he
  | .simple e .none _ => by
    have he : (Tiered.tree e).IsTreeOf P := Tiered.isTreeOf hP e
    exact he
  | .simple e (.some _ v) _ => ⟨Tiered.isTreeOf hP e, Tiered.isTreeOf hP v⟩

theorem Else.areTreesOf (hP : ∀ x : Ident, P x.name) : ∀ d : Else, Stmt.AreTreesOf P d.trees
  | .none => trivial
  | .some _ b => b.areTreesOf hP

theorem Cases.areTreesOf (hP : ∀ x : Ident, P x.name) : ∀ d : Cases, Case.AreTreesOf P d.trees
  | .default _ b => by
    have hb : Stmt.AreTreesOf P b.trees := b.areTreesOf hP
    exact ⟨hb, trivial⟩
  | .cons _ e _ b more => ⟨⟨Tiered.isTreeOf hP e, b.areTreesOf hP⟩, more.areTreesOf hP⟩

end

/-! ### Declarations -/

theorem GlobalItem.isTreeOf (hP : ∀ x : Ident, P x.name) (d : GlobalItem) :
    (Global.decl d.tree).IsTreeOf P := by
  refine ⟨hP d.x, d.type.names hP, ?_⟩
  intro e he
  change e ∈ d.value.tree at he
  cases hvalue : d.value with
  | none =>
    rw [hvalue] at he
    cases he
  | expr _ v =>
    rw [hvalue] at he
    cases he
    exact Tiered.isTreeOf hP v
  | list _ _ es _ =>
    rw [hvalue] at he
    cases he
    exact es.areTreesOf hP

theorem Parameters.isTreeOf (hP : ∀ x : Ident, P x.name) :
    ∀ (d : Parameters), ∀ p ∈ d.trees, p.IsTreeOf P
  | .one p => by
    intro q hq
    obtain rfl := List.mem_singleton.mp hq
    exact ⟨hP p.x, p.type.names hP⟩
  | .cons p _ ps => by
    intro q hq
    rcases List.mem_cons.mp hq with rfl | hq
    · exact ⟨hP p.x, p.type.names hP⟩
    · exact ps.isTreeOf hP q hq

theorem FunctionItem.isTreeOf (hP : ∀ x : Ident, P x.name) (d : FunctionItem) :
    (Func.decl d.tree).IsTreeOf P := by
  refine ⟨hP d.x, ?_, d.type.names hP, d.body.areTreesOf hP⟩
  intro p hp
  change p ∈ d.params.elim [] Parameters.trees at hp
  cases hparams : d.params with
  | none =>
    rw [hparams] at hp
    cases hp
  | some ps =>
    rw [hparams] at hp
    exact ps.isTreeOf hP p hp

theorem Source.isTreeOf (hP : ∀ x : Ident, P x.name) (d : Source) : d.tree.IsTreeOf P := by
  constructor
  · intro g hg
    obtain ⟨x, -, rfl⟩ := List.mem_map.mp hg
    exact x.isTreeOf hP
  · intro f hf
    obtain ⟨x, -, rfl⟩ := List.mem_map.mp hf
    exact x.isTreeOf hP

end

/-! ### Slots -/

mutual

theorem Tiered.erase_tree {l : Tier} : ∀ d : Tiered l, d.tree.erase = d.tree
  | .mk first more => more.erase_tree first.erase_tree

theorem Operand.erase_tree {l : Tier} : ∀ d : Operand l, d.tree.erase = d.tree
  | .tiered _ e => e.erase_tree
  | .primary e => e.erase_tree

theorem Chain.erase_tree {l : Tier} : ∀ (d : Chain l) {left : Expr}, left.erase = left →
    (d.tree left).erase = d.tree left
  | .nil, _, hleft => hleft
  | .cons _ right more, _, hleft => more.erase_tree (by rw [Expr.erase, hleft, right.erase_tree])

theorem Primary.erase_tree : ∀ d : Primary, d.tree.erase = d.tree
  | .literal _ => rfl
  | .group _ e _ => by rw [Primary.tree, Expr.erase, e.erase_tree]
  | .reference _ tail => tail.erase_tree

theorem Tail.erase_tree : ∀ (d : Tail) {x : Name}, (d.tree x).erase = d.tree x
  | .none, _ => rfl
  | .emptyCall _ _, _ => rfl
  | .call _ args _, _ => by rw [Tail.tree, Expr.erase, args.eraseAll_trees]
  | .index _ place _, _ => by rw [Tail.tree, Expr.erase, place.erase_tree]

theorem Expressions.eraseAll_trees : ∀ d : Expressions, Expr.eraseAll d.trees = d.trees
  | .one e => by rw [Expressions.trees, Expr.eraseAll, e.erase_tree, Expr.eraseAll]
  | .cons e _ es => by rw [Expressions.trees, Expr.eraseAll, e.erase_tree, es.eraseAll_trees]

end

theorem Init.erase_tree (d : Init) : d.tree.map Expr.erase = d.tree := by
  cases d with
  | none => rfl
  | some _ d => exact congrArg Option.some (Tiered.erase_tree d)

mutual

theorem Block.erase_trees : ∀ d : Block, Stmt.eraseBlock d.trees = d.trees
  | .nil => rfl
  | .cons s b => by rw [Block.trees, Stmt.eraseBlock, s.erase_tree, b.erase_trees]

theorem Statement.erase_tree : ∀ d : Statement, d.tree.erase = d.tree
  | .declare _ _ _ value _ => by rw [Statement.tree, Stmt.erase, value.erase_tree]
  | .branch _ c _ t e _ => by
    rw [Statement.tree, Stmt.erase, Tiered.erase_tree c, t.erase_trees, e.erase_trees]
  | .switch _ c cs _ => by rw [Statement.tree, Stmt.erase, Tiered.erase_tree c, cs.eraseAll_trees]
  | .loop _ c _ b _ => by rw [Statement.tree, Stmt.erase, Tiered.erase_tree c, b.erase_trees]
  | .ret _ e _ => by rw [Statement.tree, Stmt.erase, Tiered.erase_tree e]
  | .simple e .none _ => by rw [Statement.tree, Stmt.erase, Tiered.erase_tree e]
  | .simple e (.some _ v) _ => by
    rw [Statement.tree, Stmt.erase, Tiered.erase_tree e, Tiered.erase_tree v]

theorem Else.erase_trees : ∀ d : Else, Stmt.eraseBlock d.trees = d.trees
  | .none => rfl
  | .some _ b => b.erase_trees

theorem Cases.eraseAll_trees : ∀ d : Cases, Case.eraseAll d.trees = d.trees
  | .default _ b => by
    rw [Cases.trees, Case.eraseAll, Case.erase, b.erase_trees, Case.eraseAll]
  | .cons _ e _ b more => by
    rw [Cases.trees, Case.eraseAll, Case.erase, Tiered.erase_tree e, b.erase_trees,
      more.eraseAll_trees]

end

theorem GlobalItem.erase_tree (d : GlobalItem) :
    (Global.decl d.tree).erase = .decl d.tree := by
  have hvalue : d.value.tree.map Expr.erase = d.value.tree := by
    cases d.value with
    | none => rfl
    | expr _ v => exact congrArg some (Tiered.erase_tree v)
    | list _ _ es _ =>
      rw [GlobalInit.tree, Option.map_some, Expr.erase, es.eraseAll_trees]
  rw [Global.erase, GlobalDecl.erase, GlobalItem.tree, hvalue]

theorem FunctionItem.erase_tree (d : FunctionItem) :
    (Func.decl d.tree).erase = .decl d.tree := by
  rw [Func.erase, FuncDecl.erase, FunctionItem.tree, d.body.erase_trees]

theorem Source.erase_tree (d : Source) : d.tree.erase = d.tree := by
  rw [Program.erase, Source.tree, List.map_map, List.map_map]
  congr 1
  · exact List.map_congr_left fun g _ => g.erase_tree
  · exact List.map_congr_left fun f _ => f.erase_tree

end Grammar

/-! ### Data -/

theorem isPlain_taggedObject {tag : Tag} {fields : List (Text × Json)}
    (hkeys : (Text.plain "type" :: fields.map (·.1)).Nodup) (hfields : Json.FieldsArePlain fields) :
    (taggedObject tag fields).IsPlain :=
  ⟨hkeys, trivial, hfields⟩

theorem Name.IsLine.isPlain {x : Name} (h : x.IsLine) : x.toJson.IsPlain := by
  obtain ⟨s, rfl, -⟩ := h
  trivial

theorem isPlain_nameToJson {t : Option Name} (h : ∀ y ∈ t, y.IsLine) :
    (nameToJson t).IsPlain := by
  cases t with
  | none => trivial
  | some x => exact (h x rfl).isPlain

theorem Datum.IsOf.isPlain {v : Datum} {k : LiteralKind} (h : v.IsOf k) :
    v.toJson.IsPlain ∧ k.toJson.IsPlain := by
  cases h with
  | integer hn => exact ⟨hn, trivial⟩
  | nil | boolean _ | decimal _ | character _ | string _ => exact ⟨trivial, trivial⟩

mutual

theorem Expr.IsTreeOf.isPlain :
    ∀ {e : Expr}, e.IsTreeOf Name.IsLine → e.IsWritten → e.toNode.toJson.IsPlain
  | .literal _ _ _, _, hw =>
    isPlain_taggedObject (by simp) ⟨(Datum.IsOf.isPlain hw).1, (Datum.IsOf.isPlain hw).2, trivial⟩
  | .group e _, ht, hw => by
    have he : e.toNode.toJson.IsPlain := Expr.IsTreeOf.isPlain (e := e) ht hw
    exact isPlain_taggedObject (by simp) ⟨he, trivial⟩
  | .binary _ _ _ _, ⟨htl, htr⟩, ⟨hwl, hwr⟩ =>
    isPlain_taggedObject (by simp) ⟨trivial, htl.isPlain hwl, htr.isPlain hwr, trivial⟩
  | .name _ _ _, ht, _ => isPlain_taggedObject (by simp) ⟨Name.IsLine.isPlain ht, trivial, trivial⟩
  | .index _ _ _ _, ⟨hx, ho⟩, hw =>
    isPlain_taggedObject (by simp) ⟨hx.isPlain, ho.isPlain hw, trivial⟩
  | .call _ _ _ _, ⟨hx, hargs⟩, hw =>
    isPlain_taggedObject (by simp) ⟨hx.isPlain, Expr.AreTreesOf.arePlain hargs hw, trivial⟩
  | .list vs _, ht, hw =>
    isPlain_taggedObject (by simp) ⟨@Expr.AreTreesOf.arePlain vs ht hw, trivial⟩
  | .hole _, ht, _ => ht.elim

theorem Expr.AreTreesOf.arePlain :
    ∀ {es : List Expr}, Expr.AreTreesOf Name.IsLine es → Expr.AreWritten es →
      Json.ArePlain (Node.listToJson (Expr.listToNodes es))
  | [], _, _ => trivial
  | _ :: _, ⟨ht, hts⟩, ⟨hw, hws⟩ => ⟨ht.isPlain hw, Expr.AreTreesOf.arePlain hts hws⟩

end

theorem Expr.isPlain_optionToNode {v : Option Expr} (ht : ∀ e ∈ v, e.IsTreeOf Name.IsLine)
    (hw : Expr.MayBeWritten v) : (Expr.optionToNode v).toJson.IsPlain := by
  cases v with
  | none => trivial
  | some e => exact (ht e rfl).isPlain hw

mutual

theorem Stmt.IsTreeOf.isPlain :
    ∀ {x : Stmt}, x.IsTreeOf Name.IsLine → x.IsWritten → x.toNode.toJson.IsPlain
  | .expr e, ht, hw => by
    have he : e.toNode.toJson.IsPlain := Expr.IsTreeOf.isPlain (e := e) ht hw
    exact isPlain_taggedObject (by simp) ⟨he, trivial⟩
  | .declare _ _ _ _, ⟨hx, hn, hv⟩, hw =>
    isPlain_taggedObject (by simp)
      ⟨hx.isPlain, isPlain_nameToJson hn, Expr.isPlain_optionToNode hv hw, trivial⟩
  | .assign _ _, ⟨htr, htv⟩, ⟨hwr, hwv⟩ =>
    isPlain_taggedObject (by simp) ⟨htr.isPlain hwr, htv.isPlain hwv, trivial⟩
  | .branch _ _ _, ⟨htc, htt, hte⟩, ⟨hwc, hwt, hwe⟩ =>
    isPlain_taggedObject (by simp)
      ⟨htc.isPlain hwc, Stmt.AreTreesOf.arePlain htt hwt, Stmt.AreTreesOf.arePlain hte hwe, trivial⟩
  | .switch _ _, ⟨htc, htcs⟩, ⟨hwc, hwcs⟩ =>
    isPlain_taggedObject (by simp) ⟨htc.isPlain hwc, Case.AreTreesOf.arePlain htcs hwcs, trivial⟩
  | .loop _ _, ⟨htc, htb⟩, ⟨hwc, hwb⟩ =>
    isPlain_taggedObject (by simp) ⟨htc.isPlain hwc, Stmt.AreTreesOf.arePlain htb hwb, trivial⟩
  | .ret v, ht, hw => by
    have hv : v.toNode.toJson.IsPlain := Expr.IsTreeOf.isPlain (e := v) ht hw
    exact isPlain_taggedObject (by simp) ⟨hv, trivial⟩
  | .hole _, ht, _ => ht.elim

theorem Stmt.AreTreesOf.arePlain :
    ∀ {xs : List Stmt}, Stmt.AreTreesOf Name.IsLine xs → Stmt.AreWritten xs →
      Json.ArePlain (Node.listToJson (Stmt.listToNodes xs))
  | [], _, _ => trivial
  | _ :: _, ⟨ht, hts⟩, ⟨hw, hws⟩ => ⟨ht.isPlain hw, Stmt.AreTreesOf.arePlain hts hws⟩

theorem Case.IsTreeOf.isPlain :
    ∀ {c : Case}, c.IsTreeOf Name.IsLine → c.IsWritten → c.toNode.toJson.IsPlain
  | .equals _ _, ⟨htv, htb⟩, ⟨hwv, hwb⟩ =>
    isPlain_taggedObject (by simp) ⟨htv.isPlain hwv, Stmt.AreTreesOf.arePlain htb hwb, trivial⟩
  | .otherwise b, ht, hw =>
    isPlain_taggedObject (by simp) ⟨trivial, @Stmt.AreTreesOf.arePlain b ht hw, trivial⟩
  | .blockless _, ht, _ => ht.elim
  | .hole _, ht, _ => ht.elim

theorem Case.AreTreesOf.arePlain :
    ∀ {cs : List Case}, Case.AreTreesOf Name.IsLine cs → Case.AreWritten cs →
      Json.ArePlain (Node.listToJson (Case.listToNodes cs))
  | [], _, _ => trivial
  | _ :: _, ⟨ht, hts⟩, ⟨hw, hws⟩ => ⟨ht.isPlain hw, Case.AreTreesOf.arePlain hts hws⟩

end

theorem Json.arePlain_map {α : Type} {xs : List α} {f : α → Node}
    (h : ∀ x ∈ xs, (f x).toJson.IsPlain) : Json.ArePlain (Node.listToJson (xs.map f)) := by
  induction xs with
  | nil => trivial
  | cons x xs ih =>
    have h := List.forall_mem_cons.mp h
    exact ⟨h.1, ih h.2⟩

theorem Param.IsTreeOf.isPlain {x : Param} (h : x.IsTreeOf Name.IsLine) :
    x.toNode.toJson.IsPlain := by
  cases x with
  | typed y t => exact isPlain_taggedObject (by simp) ⟨h.1.isPlain, isPlain_nameToJson h.2, trivial⟩
  | _ => cases h

theorem Global.IsTreeOf.isPlain {g : Global} (ht : g.IsTreeOf Name.IsLine) (hw : g.IsWritten) :
    g.toNode.toJson.IsPlain := by
  cases g with
  | decl d =>
    obtain ⟨hx, hn, hv⟩ := ht
    exact isPlain_taggedObject (by simp) ⟨hx.isPlain, trivial, isPlain_nameToJson hn,
      Expr.isPlain_optionToNode hv hw, trivial, trivial⟩
  | _ => cases ht

theorem Func.IsTreeOf.isPlain {f : Func} (ht : f.IsTreeOf Name.IsLine) (hw : f.IsWritten) :
    f.toNode.toJson.IsPlain := by
  cases f with
  | decl d =>
    obtain ⟨hx, hparams, hn, hbody⟩ := ht
    exact isPlain_taggedObject (by simp) ⟨hx.isPlain,
      Json.arePlain_map fun x hx => (hparams x hx).isPlain, isPlain_nameToJson hn,
      Stmt.AreTreesOf.arePlain hbody hw, trivial⟩
  | hole _ => cases ht

theorem Program.IsTreeOf.isPlain {p : Program} (ht : p.IsTreeOf Name.IsLine) (hw : p.IsWritten) :
    p.toNode.toJson.IsPlain :=
  isPlain_taggedObject (by simp)
    ⟨Json.arePlain_map fun g hg => (ht.1 g hg).isPlain (hw.globals g hg),
      Json.arePlain_map fun f hf => (ht.2 f hf).isPlain (hw.functions f hf), trivial⟩

/-! ### Programs -/

/-- The tokens of the text of a program are the yield of a derivation of its tree. -/
theorem exists_yield_of_readProgram {text : String} {p : Program}
    (h : readProgram text = .ok p) :
    ∃ d : Grammar.Source, tokenize text = .ok d.tokens ∧ d.tree = p := by
  obtain ⟨ts, hts, h⟩ := ok_of_bind h
  obtain ⟨⟨q, rest⟩, hq, h⟩ := ok_of_bind h
  cases h
  unfold Except.mapError at hts hq
  split at hts
  · cases hts
  · next htokens =>
    cases hts
    split at hq
    · cases hq
    · next hparse =>
      cases hq
      have hlexed : Grammar.Lexed ts :=
        fun t ht => ((tokenize_eq_ok_iff.mp htokens).lexeme t ht).mem
      obtain ⟨d, rfl, htree, rfl⟩ := Grammar.exists_source hlexed hparse
      exact ⟨d, by rw [htokens, List.append_nil], htree⟩

theorem exists_source_of_readProgram {text : String} {p : Program}
    (h : readProgram text = .ok p) : ∃ d : Grammar.Source, d.tree = p := by
  obtain ⟨d, -, htree⟩ := exists_yield_of_readProgram h
  exact ⟨d, htree⟩

/-- **The names in a program of a text are lines.** -/
theorem isTreeOf_of_readProgram {text : String} {p : Program} (h : readProgram text = .ok p) :
    p.IsTreeOf Name.IsLine := by
  obtain ⟨d, rfl⟩ := exists_source_of_readProgram h
  exact d.isTreeOf fun x => x.isLine

theorem isTree_of_readProgram {text : String} {p : Program} (h : readProgram text = .ok p) :
    p.IsTree := by
  obtain ⟨d, rfl⟩ := exists_source_of_readProgram h
  exact d.isTreeOf fun _ => trivial

theorem erase_of_readProgram {text : String} {p : Program} (h : readProgram text = .ok p) :
    p.erase = p := by
  obtain ⟨d, rfl⟩ := exists_source_of_readProgram h
  exact d.erase_tree

/-- **A program of a text loads back from its data.** -/
theorem loadProgram_of_readProgram {text : String} {p : Program} (h : readProgram text = .ok p) :
    loadProgram p.toNode.toJson = .ok p := by
  have htree := isTree_of_readProgram h
  rw [loadProgram, Node.ofJson_toJson htree.holdsData]
  simp only [Except.mapError, Except.map, htree.ofNode_toNode, erase_of_readProgram h]

/-- **The data of a program of a text is read from what is printed for it.** -/
theorem isPlain_of_readProgram {text : String} {p : Program} (h : readProgram text = .ok p) :
    p.toNode.toJson.IsPlain :=
  (isTreeOf_of_readProgram h).isPlain (isWritten_of_readProgram h)

end Scriptlet
