import Scriptlet.Node.Program
import Scriptlet.Proofs.Node.Exchange
import Scriptlet.Proofs.Typing.Rules

/-! # Programs as exchanged data

A program that is written as data and loaded again is the same program with empty slots: names,
flags, the order of lists, parts that are there or missing, and literals are kept, a decimal with
its sign, coefficient and exponent. This holds of every kind of trees that make up a program
(`written_loads`). Whatever else can be loaded comes to rest in one step: the tree that was loaded
is written as data from which the same tree is loaded (`loaded_rests`).

`IsTree` is what programs, their declarations, statements and expressions have in common: names are
texts, nothing is missing or out of place, decimal literals hold decimals and all other literals
nothing, a boolean, an integer or a text. More may be known of the names (`IsTreeOf`). -/

namespace Scriptlet

/-! ### Trees -/

/-- Whether a name is a text. -/
def Name.IsText : Name → Prop
  | .text _ => True
  | _ => False

/-- Whether a kind of literals is one of the five that hold no decimals. -/
def LiteralKind.IsPlain (k : LiteralKind) : Prop :=
  k ≠ .decimal ∧ ∀ j, k ≠ .unknown j

/-- Whether a datum is what a literal of a kind can hold. -/
inductive Datum.Fills : Datum → LiteralKind → Prop where
  | decimal {d : Decimal} : d.InRange → Datum.Fills (.decimal d) .decimal
  | null {k : LiteralKind} : k.IsPlain → Datum.Fills (.plain .null) k
  | bool {k : LiteralKind} (b : Bool) : k.IsPlain → Datum.Fills (.plain (.bool b)) k
  | int {k : LiteralKind} (n : Int) : k.IsPlain → Datum.Fills (.plain (.int n)) k
  | str {k : LiteralKind} (s : Text) : k.IsPlain → Datum.Fills (.plain (.str s)) k

section

variable (P : Name → Prop)

mutual

/-- Whether an expression is a tree, with names that have a property. -/
def Expr.IsTreeOf : Expr → Prop
  | .literal v k _ => v.Fills k
  | .group e _ => e.IsTreeOf
  | .binary _ l r _ => l.IsTreeOf ∧ r.IsTreeOf
  | .name x _ _ => P x
  | .index x o _ _ => P x ∧ o.IsTreeOf
  | .call x args _ _ => P x ∧ Expr.AreTreesOf args
  | .list vs _ => Expr.AreTreesOf vs
  | .hole _ => False
termination_by structural e => e

/-- Whether expressions are trees. -/
def Expr.AreTreesOf : List Expr → Prop
  | [] => True
  | e :: es => e.IsTreeOf ∧ Expr.AreTreesOf es
termination_by structural es => es

end

mutual

/-- Whether a statement is a tree, with names that have a property. -/
def Stmt.IsTreeOf : Stmt → Prop
  | .expr e => e.IsTreeOf P
  | .declare x t v _ => P x ∧ (∀ y ∈ t, P y) ∧ ∀ e ∈ v, e.IsTreeOf P
  | .assign r v => r.IsTreeOf P ∧ v.IsTreeOf P
  | .branch c t e => c.IsTreeOf P ∧ Stmt.AreTreesOf t ∧ Stmt.AreTreesOf e
  | .switch c cs => c.IsTreeOf P ∧ Case.AreTreesOf cs
  | .loop c b => c.IsTreeOf P ∧ Stmt.AreTreesOf b
  | .ret v => v.IsTreeOf P
  | .hole _ => False
termination_by structural x => x

/-- Whether statements are trees. -/
def Stmt.AreTreesOf : List Stmt → Prop
  | [] => True
  | x :: xs => x.IsTreeOf ∧ Stmt.AreTreesOf xs
termination_by structural xs => xs

/-- Whether a case is a tree. -/
def Case.IsTreeOf : Case → Prop
  | .equals v b => v.IsTreeOf P ∧ Stmt.AreTreesOf b
  | .otherwise b => Stmt.AreTreesOf b
  | .blockless _ => False
  | .hole _ => False
termination_by structural c => c

/-- Whether cases are trees. -/
def Case.AreTreesOf : List Case → Prop
  | [] => True
  | c :: cs => c.IsTreeOf ∧ Case.AreTreesOf cs
termination_by structural cs => cs

end

/-- Whether a parameter is a tree. -/
def Param.IsTreeOf : Param → Prop
  | .typed x t => P x ∧ ∀ y ∈ t, P y
  | _ => False

/-- Whether a member of the globals is a tree. -/
def Global.IsTreeOf : Global → Prop
  | .decl d => P d.name ∧ (∀ y ∈ d.typeName, P y) ∧ ∀ e ∈ d.value, e.IsTreeOf P
  | _ => False

/-- Whether a member of the functions is a tree. -/
def Func.IsTreeOf : Func → Prop
  | .decl d => P d.name ∧ (∀ x ∈ d.params, x.IsTreeOf P) ∧ (∀ y ∈ d.returnTypeName, P y) ∧
      Stmt.AreTreesOf P d.body
  | .hole _ => False

/-- Whether a program is a tree. -/
def Program.IsTreeOf (p : Program) : Prop :=
  (∀ g ∈ p.globals, g.IsTreeOf P) ∧ ∀ f ∈ p.functions, f.IsTreeOf P

end

/-- Whether an expression is a tree. -/
abbrev Expr.IsTree : Expr → Prop := Expr.IsTreeOf Name.IsText

/-- Whether expressions are trees. -/
abbrev Expr.AreTrees : List Expr → Prop := Expr.AreTreesOf Name.IsText

/-- Whether a statement is a tree. -/
abbrev Stmt.IsTree : Stmt → Prop := Stmt.IsTreeOf Name.IsText

/-- Whether statements are trees. -/
abbrev Stmt.AreTrees : List Stmt → Prop := Stmt.AreTreesOf Name.IsText

/-- Whether a case is a tree. -/
abbrev Case.IsTree : Case → Prop := Case.IsTreeOf Name.IsText

/-- Whether cases are trees. -/
abbrev Case.AreTrees : List Case → Prop := Case.AreTreesOf Name.IsText

/-- Whether a parameter is a tree. -/
abbrev Param.IsTree : Param → Prop := Param.IsTreeOf Name.IsText

/-- Whether a member of the globals is a tree. -/
abbrev Global.IsTree : Global → Prop := Global.IsTreeOf Name.IsText

/-- Whether a member of the functions is a tree. -/
abbrev Func.IsTree : Func → Prop := Func.IsTreeOf Name.IsText

/-- Whether a program is a tree. -/
abbrev Program.IsTree : Program → Prop := Program.IsTreeOf Name.IsText

/-! ### Names and literals -/

theorem Name.ofJson_toJson {x : Name} (h : x.IsText) : Name.ofJson x.toJson = x := by
  cases x with
  | text s => rfl
  | _ => cases h

theorem nameOfJson_nameToJson {t : Option Name} (h : ∀ y ∈ t, y.IsText) :
    nameOfJson (nameToJson t) = t := by
  cases t with
  | none => rfl
  | some x =>
    cases x with
    | text s => rfl
    | _ => cases h _ rfl

theorem LiteralKind.IsPlain.ne_decimal {k : LiteralKind} (h : k.IsPlain) :
    k.toJson ≠ .str "Decimal" := by
  cases k with
  | decimal => exact (h.1 rfl).elim
  | unknown j => exact (h.2 j rfl).elim
  | _ => simp [LiteralKind.toJson]

theorem LiteralKind.IsPlain.ofJson_toJson {k : LiteralKind} (h : k.IsPlain) :
    LiteralKind.ofJson k.toJson = k := by
  cases k with
  | unknown j => exact (h.2 j rfl).elim
  | _ => rfl

theorem Datum.Fills.suits {v : Datum} {k : LiteralKind} (h : v.Fills k) : v.Suits k.toJson := by
  cases h with
  | decimal hd => exact .decimal hd
  | null hk | bool _ hk | int _ hk | str _ hk => exact .plain hk.ne_decimal

theorem Datum.Fills.kind_eq {v : Datum} {k : LiteralKind} (h : v.Fills k) :
    LiteralKind.ofJson k.toJson = k := by
  cases h with
  | decimal _ => rfl
  | null hk | bool _ hk | int _ hk | str _ hk => exact hk.ofJson_toJson

/-! ### Expressions -/

theorem Expr.IsTreeOf.toNode_ne_null {e : Expr} (h : e.IsTree) : e.toNode ≠ .null := by
  cases e with
  | hole h' => cases h
  | _ => nofun

mutual

theorem Expr.IsTreeOf.holdsData : ∀ {e : Expr}, e.IsTree → e.toNode.HoldsData
  | .literal _ _ _, h => Datum.Fills.suits h
  | .group e _, h => by
    have he : e.IsTree := h
    exact he.holdsData
  | .binary _ _ _ _, ⟨hl, hr⟩ => ⟨hl.holdsData, hr.holdsData⟩
  | .name _ _ _, _ => trivial
  | .index _ o _ _, ⟨_, ho⟩ => by
    have ho : o.toNode.HoldsData := ho.holdsData
    exact ho
  | .call _ args _ _, ⟨_, hargs⟩ => by
    have hargs : Node.AllHoldData (Expr.listToNodes args) := Expr.AreTreesOf.allHoldData hargs
    exact hargs
  | .list vs _, h => by
    have hvs : Node.AllHoldData (Expr.listToNodes vs) := Expr.AreTreesOf.allHoldData h
    exact hvs
  | .hole _, h => h.elim

theorem Expr.AreTreesOf.allHoldData :
    ∀ {es : List Expr}, Expr.AreTrees es → Node.AllHoldData (Expr.listToNodes es)
  | [], _ => trivial
  | _ :: _, ⟨he, hes⟩ => ⟨Expr.IsTreeOf.holdsData he, Expr.AreTreesOf.allHoldData hes⟩

end

mutual

theorem Expr.IsTreeOf.ofNode_toNode : ∀ {e : Expr}, e.IsTree → Expr.ofNode e.toNode = e.erase
  | .literal v k _, h => by
    rw [Expr.toNode, Expr.ofNode, Expr.erase, Datum.Fills.kind_eq h]
  | .group e _, h => by
    have he : e.IsTree := h
    rw [Expr.toNode, Expr.ofNode, Expr.erase, he.ofNode_toNode]
  | .binary op l r _, ⟨hl, hr⟩ => by
    rw [Expr.toNode, Expr.ofNode, Expr.erase, hl.ofNode_toNode, hr.ofNode_toNode]
    rfl
  | .name x _ _, h => by
    rw [Expr.toNode, Expr.ofNode, Expr.erase, Name.ofJson_toJson h]
  | .index x o _ _, ⟨hx, ho⟩ => by
    rw [Expr.toNode, Expr.ofNode, Expr.erase, Name.ofJson_toJson hx, ho.ofNode_toNode]
    exact ho.toNode_ne_null
  | .call x args _ _, ⟨hx, hargs⟩ => by
    rw [Expr.toNode, Expr.ofNode, Expr.erase, Name.ofJson_toJson hx, Expr.listOfNode,
      Expr.AreTreesOf.ofNodes_listToNodes hargs]
  | .list vs _, h => by
    rw [Expr.toNode, Expr.ofNode, Expr.erase, Expr.listOfNode,
      Expr.AreTreesOf.ofNodes_listToNodes h]
  | .hole _, h => h.elim

theorem Expr.AreTreesOf.ofNodes_listToNodes :
    ∀ {es : List Expr}, Expr.AreTrees es → Expr.ofNodes (Expr.listToNodes es) = Expr.eraseAll es
  | [], _ => rfl
  | _ :: _, ⟨he, hes⟩ => by
    rw [Expr.listToNodes, Expr.ofNodes, Expr.eraseAll, he.ofNode_toNode,
      Expr.AreTreesOf.ofNodes_listToNodes hes]

end

theorem Expr.holdsData_optionToNode {v : Option Expr} (h : ∀ e ∈ v, e.IsTree) :
    (Expr.optionToNode v).HoldsData := by
  cases v with
  | none => trivial
  | some e => exact (h e rfl).holdsData

theorem Expr.ofNode?_optionToNode {v : Option Expr} (h : ∀ e ∈ v, e.IsTree) :
    Expr.ofNode? (Expr.optionToNode v) = v.map Expr.erase := by
  cases v with
  | none => rfl
  | some e =>
    have he := h e rfl
    rw [Expr.optionToNode, Expr.ofNode?, he.ofNode_toNode]
    · rfl
    · exact he.toNode_ne_null

/-! ### Statements -/

mutual

theorem Stmt.IsTreeOf.holdsData : ∀ {x : Stmt}, x.IsTree → x.toNode.HoldsData
  | .expr e, h => by
    have he : e.IsTree := h
    exact he.holdsData
  | .declare _ _ v _, ⟨_, _, hv⟩ => by
    have hv : (Expr.optionToNode v).HoldsData := Expr.holdsData_optionToNode hv
    exact hv
  | .assign _ _, ⟨hr, hv⟩ => ⟨hr.holdsData, hv.holdsData⟩
  | .branch _ _ _, ⟨hc, ht, he⟩ =>
    ⟨hc.holdsData, Stmt.AreTreesOf.allHoldData ht, Stmt.AreTreesOf.allHoldData he⟩
  | .switch _ _, ⟨hc, hcs⟩ => ⟨hc.holdsData, Case.AreTreesOf.allHoldData hcs⟩
  | .loop _ _, ⟨hc, hb⟩ => ⟨hc.holdsData, Stmt.AreTreesOf.allHoldData hb⟩
  | .ret v, h => by
    have hv : v.IsTree := h
    exact hv.holdsData
  | .hole _, h => h.elim

theorem Stmt.AreTreesOf.allHoldData :
    ∀ {xs : List Stmt}, Stmt.AreTrees xs → Node.AllHoldData (Stmt.listToNodes xs)
  | [], _ => trivial
  | _ :: _, ⟨hx, hxs⟩ => ⟨hx.holdsData, Stmt.AreTreesOf.allHoldData hxs⟩

theorem Case.IsTreeOf.holdsData : ∀ {c : Case}, c.IsTree → c.toNode.HoldsData
  | .equals _ _, ⟨hv, hb⟩ => ⟨hv.holdsData, Stmt.AreTreesOf.allHoldData hb⟩
  | .otherwise _, h => ⟨trivial, Stmt.AreTreesOf.allHoldData h⟩
  | .blockless _, h => h.elim
  | .hole _, h => h.elim

theorem Case.AreTreesOf.allHoldData :
    ∀ {cs : List Case}, Case.AreTrees cs → Node.AllHoldData (Case.listToNodes cs)
  | [], _ => trivial
  | _ :: _, ⟨hc, hcs⟩ => ⟨hc.holdsData, Case.AreTreesOf.allHoldData hcs⟩

end

mutual

theorem Stmt.IsTreeOf.ofNode_toNode : ∀ {x : Stmt}, x.IsTree → Stmt.ofNode x.toNode = x.erase
  | .expr e, h => by
    have he : e.IsTree := h
    rw [Stmt.toNode, Stmt.ofNode, Stmt.erase, he.ofNode_toNode]
  | .declare x t v _, ⟨hx, ht, hv⟩ => by
    rw [Stmt.toNode, Stmt.ofNode, Stmt.erase, Name.ofJson_toJson hx, nameOfJson_nameToJson ht,
      Expr.ofNode?_optionToNode hv]
  | .assign r v, ⟨hr, hv⟩ => by
    rw [Stmt.toNode, Stmt.ofNode, Stmt.erase, hr.ofNode_toNode, hv.ofNode_toNode]
  | .branch c t e, ⟨hc, ht, he⟩ => by
    rw [Stmt.toNode, Stmt.ofNode, Stmt.erase, hc.ofNode_toNode, Stmt.blockOfNode,
      Stmt.blockOfNode, Stmt.AreTreesOf.ofNodes_listToNodes ht,
      Stmt.AreTreesOf.ofNodes_listToNodes he]
  | .switch c cs, ⟨hc, hcs⟩ => by
    rw [Stmt.toNode, Stmt.ofNode, Stmt.erase, hc.ofNode_toNode, Case.listOfNode,
      Case.AreTreesOf.ofNodes_listToNodes hcs]
  | .loop c b, ⟨hc, hb⟩ => by
    rw [Stmt.toNode, Stmt.ofNode, Stmt.erase, hc.ofNode_toNode, Stmt.blockOfNode,
      Stmt.AreTreesOf.ofNodes_listToNodes hb]
  | .ret v, h => by
    have hv : v.IsTree := h
    rw [Stmt.toNode, Stmt.ofNode, Stmt.erase, hv.ofNode_toNode]
  | .hole _, h => h.elim

theorem Stmt.AreTreesOf.ofNodes_listToNodes :
    ∀ {xs : List Stmt}, Stmt.AreTrees xs → Stmt.ofNodes (Stmt.listToNodes xs) = Stmt.eraseBlock xs
  | [], _ => rfl
  | _ :: _, ⟨hx, hxs⟩ => by
    rw [Stmt.listToNodes, Stmt.ofNodes, Stmt.eraseBlock, hx.ofNode_toNode,
      Stmt.AreTreesOf.ofNodes_listToNodes hxs]

theorem Case.IsTreeOf.ofNode_toNode : ∀ {c : Case}, c.IsTree → Case.ofNode c.toNode = c.erase
  | .equals v b, ⟨hv, hb⟩ => by
    rw [Case.toNode, Case.ofNode, Case.erase, hv.ofNode_toNode, Stmt.blockOfNode,
      Stmt.AreTreesOf.ofNodes_listToNodes hb]
    exact hv.toNode_ne_null
  | .otherwise b, h => by
    rw [Case.toNode, Case.ofNode, Case.erase, Stmt.blockOfNode,
      Stmt.AreTreesOf.ofNodes_listToNodes h]
  | .blockless _, h => h.elim
  | .hole _, h => h.elim

theorem Case.AreTreesOf.ofNodes_listToNodes :
    ∀ {cs : List Case}, Case.AreTrees cs → Case.ofNodes (Case.listToNodes cs) = Case.eraseAll cs
  | [], _ => rfl
  | _ :: _, ⟨hc, hcs⟩ => by
    rw [Case.listToNodes, Case.ofNodes, Case.eraseAll, hc.ofNode_toNode,
      Case.AreTreesOf.ofNodes_listToNodes hcs]

end

/-! ### Declarations -/

theorem Node.allHoldData_map {α : Type} {xs : List α} {f : α → Node}
    (h : ∀ x ∈ xs, (f x).HoldsData) : Node.AllHoldData (xs.map f) := by
  induction xs with
  | nil => trivial
  | cons x xs ih =>
    have h := List.forall_mem_cons.mp h
    exact ⟨h.1, ih h.2⟩

theorem Param.IsTreeOf.holdsData {x : Param} (h : x.IsTree) : x.toNode.HoldsData := by
  cases x with
  | typed y t => trivial
  | _ => cases h

theorem Param.IsTreeOf.ofNode_toNode {x : Param} (h : x.IsTree) : Param.ofNode x.toNode = x := by
  cases x with
  | typed y t => rw [Param.toNode, Param.ofNode, Name.ofJson_toJson h.1, nameOfJson_nameToJson h.2]
  | _ => cases h

theorem Global.IsTreeOf.holdsData {g : Global} (h : g.IsTree) : g.toNode.HoldsData := by
  cases g with
  | decl d =>
    have hv : (Expr.optionToNode d.value).HoldsData := Expr.holdsData_optionToNode h.2.2
    exact hv
  | _ => cases h

theorem Global.IsTreeOf.ofNode_toNode {g : Global} (h : g.IsTree) :
    Global.ofNode g.toNode = g.erase := by
  cases g with
  | decl d =>
    obtain ⟨hx, ht, hv⟩ := h
    rw [Global.toNode, Global.ofNode, Name.ofJson_toJson hx, nameOfJson_nameToJson ht,
      Expr.ofNode?_optionToNode hv]
    rfl
  | _ => cases h

theorem Func.IsTreeOf.holdsData {f : Func} (h : f.IsTree) : f.toNode.HoldsData := by
  cases f with
  | decl d =>
    obtain ⟨-, hparams, -, hbody⟩ := h
    exact ⟨Node.allHoldData_map fun x hx => (hparams x hx).holdsData,
      Stmt.AreTreesOf.allHoldData hbody⟩
  | hole _ => cases h

theorem Func.IsTreeOf.ofNode_toNode {f : Func} (h : f.IsTree) : Func.ofNode f.toNode = f.erase := by
  cases f with
  | decl d =>
    obtain ⟨hx, hparams, ht, hbody⟩ := h
    have hparams : (d.params.map Param.toNode).map Param.ofNode = d.params := by
      rw [List.map_map]
      exact (List.map_congr_left fun x hx => (hparams x hx).ofNode_toNode).trans (List.map_id _)
    rw [Func.toNode, Func.ofNode, Func.ofNode.members, hparams, Name.ofJson_toJson hx,
      nameOfJson_nameToJson ht, Stmt.blockOfNode, Stmt.AreTreesOf.ofNodes_listToNodes hbody]
    rfl
  | hole _ => cases h

theorem Program.IsTreeOf.holdsData {p : Program} (h : p.IsTree) : p.toNode.HoldsData :=
  ⟨Node.allHoldData_map fun g hg => (h.1 g hg).holdsData,
    Node.allHoldData_map fun f hf => (h.2 f hf).holdsData⟩

theorem Program.IsTreeOf.ofNode_toNode {p : Program} (h : p.IsTree) :
    Program.ofNode p.toNode = p.erase := by
  have hglobals : (p.globals.map Global.toNode).map Global.ofNode = p.globals.map Global.erase := by
    rw [List.map_map]
    exact List.map_congr_left fun g hg => (h.1 g hg).ofNode_toNode
  have hfunctions : (p.functions.map Func.toNode).map Func.ofNode = p.functions.map Func.erase := by
    rw [List.map_map]
    exact List.map_congr_left fun f hf => (h.2 f hf).ofNode_toNode
  rw [Program.toNode, Program.ofNode, Program.ofNode.globals, Program.ofNode.functions, hglobals,
    hfunctions, Program.erase]

/-! ### Writing, then loading -/

/-- Whether writing trees of a kind and loading them gives them back with empty slots. -/
def GivesBack {α : Type} (isTree : α → Prop) (toNode : α → Node) (ofNode : Node → α)
    (erase : α → α) : Prop :=
  ∀ a, isTree a → (Node.ofJson (toNode a).toJson).map ofNode = .ok (erase a)

theorem givesBack {α : Type} {isTree : α → Prop} {toNode : α → Node} {ofNode : Node → α}
    {erase : α → α} (hdata : ∀ {a}, isTree a → (toNode a).HoldsData)
    (hnode : ∀ {a}, isTree a → ofNode (toNode a) = erase a) :
    GivesBack isTree toNode ofNode erase := by
  intro a ha
  rw [Node.ofJson_toJson (hdata ha), Except.map, hnode ha]

/-- **Loading undoes writing.** A program, a declaration, a parameter, a statement, a case or an
expression that is written and loaded is what it was, with empty slots; and so is any exchanged tree
whose literals hold data that suit their kinds. -/
theorem written_loads :
    GivesBack Program.IsTree Program.toNode Program.ofNode Program.erase ∧
      GivesBack Global.IsTree Global.toNode Global.ofNode Global.erase ∧
      GivesBack Func.IsTree Func.toNode Func.ofNode Func.erase ∧
      GivesBack Param.IsTree Param.toNode Param.ofNode id ∧
      GivesBack Stmt.IsTree Stmt.toNode Stmt.ofNode Stmt.erase ∧
      GivesBack Case.IsTree Case.toNode Case.ofNode Case.erase ∧
      GivesBack Expr.IsTree Expr.toNode Expr.ofNode Expr.erase ∧
      GivesBack Node.HoldsData id id id :=
  ⟨givesBack Program.IsTreeOf.holdsData Program.IsTreeOf.ofNode_toNode,
    givesBack Global.IsTreeOf.holdsData Global.IsTreeOf.ofNode_toNode,
    givesBack Func.IsTreeOf.holdsData Func.IsTreeOf.ofNode_toNode,
    givesBack Param.IsTreeOf.holdsData Param.IsTreeOf.ofNode_toNode,
    givesBack Stmt.IsTreeOf.holdsData Stmt.IsTreeOf.ofNode_toNode,
    givesBack Case.IsTreeOf.holdsData Case.IsTreeOf.ofNode_toNode,
    givesBack Expr.IsTreeOf.holdsData Expr.IsTreeOf.ofNode_toNode,
    givesBack id fun _ => rfl⟩

/-- A negative zero with two places, in a declaration whose slots are filled. -/
theorem written_loads_zero :
    (Node.ofJson (Global.decl ⟨.text "x", true, none,
        some (.literal (.decimal (.finite true 0 (-2))) .decimal (some .decimal)), false,
        none⟩).toNode.toJson).map Global.ofNode =
      .ok (.decl ⟨.text "x", true, none,
        some (.literal (.decimal (.finite true 0 (-2))) .decimal none), false, none⟩) := by
  refine written_loads.2.1 _ ⟨trivial, nofun, ?_⟩
  intro e he
  cases he
  exact .decimal ⟨by decide, by decide⟩

/-! ### Loading, then writing -/

/-- Data that is loaded as a tree and written again. -/
def normalized (j : Json) : Except Failure Json :=
  (Node.ofJson j).map Node.toJson

/-- **Loaded trees are at rest.** Whatever loads is written as data from which the same tree loads;
so loading and writing a second time changes nothing. -/
theorem loaded_rests (j : Json) :
    (∀ n, Node.ofJson j = .ok n → normalized j = .ok n.toJson ∧ Node.ofJson n.toJson = .ok n) ∧
      normalized j >>= normalized = normalized j := by
  have hrest {n : Node} (h : Node.ofJson j = .ok n) : Node.ofJson n.toJson = .ok n :=
    Node.ofJson_toJson (Node.holdsData_of_ofJson h)
  constructor
  · intro n h
    refine ⟨?_, hrest h⟩
    rw [normalized, h, Except.map]
  · unfold normalized
    cases h : Node.ofJson j with
    | error e => rfl
    | ok n => rw [Except.map, ok_bind, hrest h, Except.map]

/-- A padded decimal with an underscore, in an object with a field too many. -/
theorem loaded_rests_padded :
    Node.ofJson (.obj [("value", .str " +1_0.50 "), ("type", .str "Literal"), ("extra", .null),
        ("literal_type", .str "Decimal")]) =
      .ok (.literal (.decimal (.finite false 1050 (-2))) (.str "Decimal")) ∧
    Node.ofJson (.obj [("type", .str "Literal"), ("value", .str "10.50"),
        ("literal_type", .str "Decimal")]) =
      .ok (.literal (.decimal (.finite false 1050 (-2))) (.str "Decimal")) := by
  have h : Node.ofJson (.obj [("value", .str " +1_0.50 "), ("type", .str "Literal"),
      ("extra", .null), ("literal_type", .str "Decimal")]) =
      .ok (.literal (.decimal (.finite false 1050 (-2))) (.str "Decimal")) := rfl
  exact ⟨h, ((loaded_rests _).1 _ h).2⟩

end Scriptlet
