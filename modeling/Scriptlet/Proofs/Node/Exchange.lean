import Scriptlet.Node.Loader
import Scriptlet.Proofs.Decimal.Written
import Scriptlet.Proofs.Syntax.Written

/-! # Writing and loading exchanged trees

A tree is written as data with one object for each node, and the loader looks each part up by its
key. Loading undoes writing for every tree whose literals hold what the loader would make of them,
whatever else stands in it; and the loader makes nothing else.

* `Node.ofJson_toJson`: a tree that holds data loads back from what is written for it;
* `Node.holdsData_of_ofJson`: every tree that was loaded holds data. -/

namespace Scriptlet

/-- Whether the datum of a literal is what loading gives for its kind: decimals for decimal
literals, data for all others. -/
inductive Datum.Suits : Datum → Json → Prop where
  | decimal {d : Decimal} : d.InRange → Datum.Suits (.decimal d) (.str "Decimal")
  | plain {v t : Json} : t ≠ .str "Decimal" → Datum.Suits (.plain v) t

mutual

/-- Whether every literal of a tree holds a datum that suits its kind. -/
def Node.HoldsData : Node → Prop
  | .null => True
  | .list items => Node.AllHoldData items
  | .source g f => g.HoldsData ∧ f.HoldsData
  | .globalDecl _ _ _ v _ => v.HoldsData
  | .funcParam _ _ => True
  | .funcDecl _ p _ b => p.HoldsData ∧ b.HoldsData
  | .exprStmt e => e.HoldsData
  | .varDecl _ _ v => v.HoldsData
  | .assign r v => r.HoldsData ∧ v.HoldsData
  | .ifStmt c t e => c.HoldsData ∧ t.HoldsData ∧ e.HoldsData
  | .switchStmt c cs => c.HoldsData ∧ cs.HoldsData
  | .case v b => v.HoldsData ∧ b.HoldsData
  | .whileStmt c b => c.HoldsData ∧ b.HoldsData
  | .returnStmt v => v.HoldsData
  | .literal v t => v.Suits t
  | .group e => e.HoldsData
  | .binaryOp _ l r => l.HoldsData ∧ r.HoldsData
  | .access _ o => o.HoldsData
  | .call _ as => as.HoldsData
  | .listLit vs => vs.HoldsData
termination_by structural n => n

/-- Whether every literal of every tree of a sequence holds a datum that suits its kind. -/
def Node.AllHoldData : List Node → Prop
  | [] => True
  | n :: ns => n.HoldsData ∧ Node.AllHoldData ns
termination_by structural ns => ns

end

theorem loadLiteral_toJson {v : Datum} {t : Json} (h : v.Suits t) :
    loadLiteral [("type", .str "Literal"), ("value", v.toJson), ("literal_type", t)] =
      .ok (.literal v t) := by
  have hkind : dataField [("type", .str "Literal"), ("value", v.toJson), ("literal_type", t)]
      "literal_type" = .ok t := rfl
  have hvalue : dataField [("type", .str "Literal"), ("value", v.toJson), ("literal_type", t)]
      "value" = .ok v.toJson := rfl
  rw [loadLiteral, hkind, ok_bind, hvalue, ok_bind]
  cases h with
  | @decimal d hd =>
    have hread : decimalOfJson (Datum.decimal d).toJson = .ok d := by
      rw [Datum.toJson, decimalOfJson, Decimal.ofText_exact hd]
      rfl
    simp only [hread]
    rfl
  | plain ht =>
    split
    · exact (ht rfl).elim
    · rfl

mutual

/-- **Loading undoes writing** on trees whose literals hold data that suit their kinds. -/
theorem Node.ofJson_toJson : ∀ {n : Node}, n.HoldsData → Node.ofJson n.toJson = .ok n
  | .null, _ => rfl
  | .list items, h => by
    rw [Node.toJson, Node.ofJson, Node.listOfJson_listToJson h]
    rfl
  | .source g f, ⟨hg, hf⟩ => by
    simp only [Node.toJson, taggedObject, Node.ofJson, Node.fieldsOfJson, Node.ofJson_toJson hg,
      Node.ofJson_toJson hf]
    rfl
  | .globalDecl n m t v l, h => by
    have hv : v.HoldsData := h
    simp only [Node.toJson, taggedObject, Node.ofJson, Node.fieldsOfJson, Node.ofJson_toJson hv]
    rfl
  | .funcParam n t, _ => by
    rfl
  | .funcDecl n p r b, ⟨hp, hb⟩ => by
    simp only [Node.toJson, taggedObject, Node.ofJson, Node.fieldsOfJson, Node.ofJson_toJson hp,
      Node.ofJson_toJson hb]
    rfl
  | .exprStmt e, h => by
    have he : e.HoldsData := h
    simp only [Node.toJson, taggedObject, Node.ofJson, Node.fieldsOfJson, Node.ofJson_toJson he]
    rfl
  | .varDecl n t v, h => by
    have hv : v.HoldsData := h
    simp only [Node.toJson, taggedObject, Node.ofJson, Node.fieldsOfJson, Node.ofJson_toJson hv]
    rfl
  | .assign r v, ⟨hr, hv⟩ => by
    simp only [Node.toJson, taggedObject, Node.ofJson, Node.fieldsOfJson, Node.ofJson_toJson hr,
      Node.ofJson_toJson hv]
    rfl
  | .ifStmt c t e, ⟨hc, ht, he⟩ => by
    simp only [Node.toJson, taggedObject, Node.ofJson, Node.fieldsOfJson, Node.ofJson_toJson hc,
      Node.ofJson_toJson ht, Node.ofJson_toJson he]
    rfl
  | .switchStmt c cs, ⟨hc, hcs⟩ => by
    simp only [Node.toJson, taggedObject, Node.ofJson, Node.fieldsOfJson, Node.ofJson_toJson hc,
      Node.ofJson_toJson hcs]
    rfl
  | .case v b, ⟨hv, hb⟩ => by
    simp only [Node.toJson, taggedObject, Node.ofJson, Node.fieldsOfJson, Node.ofJson_toJson hv,
      Node.ofJson_toJson hb]
    rfl
  | .whileStmt c b, ⟨hc, hb⟩ => by
    simp only [Node.toJson, taggedObject, Node.ofJson, Node.fieldsOfJson, Node.ofJson_toJson hc,
      Node.ofJson_toJson hb]
    rfl
  | .returnStmt v, h => by
    have hv : v.HoldsData := h
    simp only [Node.toJson, taggedObject, Node.ofJson, Node.fieldsOfJson, Node.ofJson_toJson hv]
    rfl
  | .literal v t, h => loadLiteral_toJson h
  | .group e, h => by
    have he : e.HoldsData := h
    simp only [Node.toJson, taggedObject, Node.ofJson, Node.fieldsOfJson, Node.ofJson_toJson he]
    rfl
  | .binaryOp op l r, ⟨hl, hr⟩ => by
    simp only [Node.toJson, taggedObject, Node.ofJson, Node.fieldsOfJson, Node.ofJson_toJson hl,
      Node.ofJson_toJson hr]
    rfl
  | .access n o, h => by
    have ho : o.HoldsData := h
    simp only [Node.toJson, taggedObject, Node.ofJson, Node.fieldsOfJson, Node.ofJson_toJson ho]
    rfl
  | .call n as, h => by
    have has : as.HoldsData := h
    simp only [Node.toJson, taggedObject, Node.ofJson, Node.fieldsOfJson, Node.ofJson_toJson has]
    rfl
  | .listLit vs, h => by
    have hvs : vs.HoldsData := h
    simp only [Node.toJson, taggedObject, Node.ofJson, Node.fieldsOfJson, Node.ofJson_toJson hvs]
    rfl

theorem Node.listOfJson_listToJson :
    ∀ {ns : List Node}, Node.AllHoldData ns → Node.listOfJson (Node.listToJson ns) = .ok ns
  | [], _ => rfl
  | n :: ns, ⟨hn, hns⟩ => by
    rw [Node.listToJson, Node.listOfJson, Node.ofJson_toJson hn, Node.listOfJson_listToJson hns]
    rfl

end

/-! ### What loading gives -/

theorem ok_of_orSignal {α : Type} {r : Except Decimal.Signal α} {a : α}
    (h : orSignal r = .ok a) : r = .ok a := by
  cases r with
  | error s => cases h
  | ok b =>
    cases h
    rfl

theorem inRange_of_exponentOfJson {neg : Bool} {e : Json} {build : Nat → Except Failure Decimal}
    {c : Nat} {d : Decimal} (hbuild : exponentOfJson neg e = .ok build) (h : build c = .ok d) :
    d.InRange := by
  unfold exponentOfJson at hbuild
  split at hbuild
  · cases hbuild
    cases h
    trivial
  · cases hbuild
    cases h
    trivial
  · cases hbuild
    cases h
    trivial
  · cases hbuild
  · obtain ⟨n, -, hbuild⟩ := ok_of_bind hbuild
    cases hbuild
    exact (Decimal.ofParts_eq_ok_iff.mp (ok_of_orSignal h)).2

theorem inRange_of_decimalOfParts {s ds e : Json} {d : Decimal}
    (h : decimalOfParts s ds e = .ok d) : d.InRange := by
  obtain ⟨neg, -, h⟩ := ok_of_bind h
  obtain ⟨build, hbuild, h⟩ := ok_of_bind h
  obtain ⟨c, -, h⟩ := ok_of_bind h
  exact inRange_of_exponentOfJson hbuild h

theorem inRange_of_decimalOfJson {j : Json} {d : Decimal} (h : decimalOfJson j = .ok d) :
    d.InRange := by
  unfold decimalOfJson at h
  split at h
  · exact Decimal.inRange_of_ofText (ok_of_orSignal h)
  · cases h
  · exact Decimal.inRange_of_kept (ok_of_orSignal h)
  · exact Decimal.inRange_of_kept (ok_of_orSignal h)
  · exact Decimal.inRange_of_kept (ok_of_orSignal h)
  · exact inRange_of_decimalOfParts h
  · cases h
  · cases h

/-- Whether every field that loads as a tree holds data that suit the kinds of their literals. -/
def FieldsHoldData (trees : List (Text × Except Failure Node)) : Prop :=
  ∀ key n, trees.lookup key = some (.ok n) → n.HoldsData

theorem FieldsHoldData.treeField {trees : List (Text × Except Failure Node)} {key : Text}
    {n : Node} (ht : FieldsHoldData trees) (h : treeField trees key = .ok n) : n.HoldsData := by
  unfold Scriptlet.treeField at h
  split at h
  · next r hr =>
    subst h
    exact ht key n hr
  · cases h

theorem FieldsHoldData.optionalTree {trees : List (Text × Except Failure Node)} {key : Text}
    {n absent : Node} (ht : FieldsHoldData trees) (ha : absent.HoldsData)
    (h : optionalTree trees key absent = .ok n) : n.HoldsData := by
  unfold Scriptlet.optionalTree at h
  cases hl : trees.lookup key with
  | none =>
    rw [hl] at h
    cases h
    exact ha
  | some r =>
    rw [hl] at h
    exact ht key n (hl.trans (congrArg some h))

theorem holdsData_of_loadLiteral {fields : List (Text × Json)} {n : Node}
    (h : loadLiteral fields = .ok n) : n.HoldsData := by
  obtain ⟨t, -, h⟩ := ok_of_bind h
  obtain ⟨v, -, h⟩ := ok_of_bind h
  split at h
  · obtain ⟨d, hd, h⟩ := ok_of_bind h
    cases h
    exact .decimal (inRange_of_decimalOfJson hd)
  · next hne =>
    cases h
    exact .plain hne

theorem holdsData_of_loadItem {fields : List (Text × Json)}
    {trees : List (Text × Except Failure Node)} {n : Node} (ht : FieldsHoldData trees)
    (h : loadItem fields trees = .ok n) : n.HoldsData := by
  have hnull : Node.null.HoldsData := trivial
  have hempty : (Node.list []).HoldsData := trivial
  unfold loadItem at h
  split at h
  · obtain ⟨g, hg, h⟩ := ok_of_bind h
    obtain ⟨f, hf, h⟩ := ok_of_bind h
    cases h
    exact ⟨ht.treeField hg, ht.treeField hf⟩
  · obtain ⟨_, -, h⟩ := ok_of_bind h
    obtain ⟨_, -, h⟩ := ok_of_bind h
    obtain ⟨v, hv, h⟩ := ok_of_bind h
    cases h
    have hv : v.HoldsData := ht.optionalTree hnull hv
    exact hv
  · obtain ⟨_, -, h⟩ := ok_of_bind h
    cases h
    trivial
  · obtain ⟨_, -, h⟩ := ok_of_bind h
    obtain ⟨p, hp, h⟩ := ok_of_bind h
    obtain ⟨b, hb, h⟩ := ok_of_bind h
    cases h
    exact ⟨ht.treeField hp, ht.treeField hb⟩
  · obtain ⟨e, he, h⟩ := ok_of_bind h
    cases h
    have he : e.HoldsData := ht.treeField he
    exact he
  · obtain ⟨_, -, h⟩ := ok_of_bind h
    obtain ⟨v, hv, h⟩ := ok_of_bind h
    cases h
    have hv : v.HoldsData := ht.optionalTree hnull hv
    exact hv
  · obtain ⟨r, hr, h⟩ := ok_of_bind h
    obtain ⟨v, hv, h⟩ := ok_of_bind h
    cases h
    exact ⟨ht.treeField hr, ht.treeField hv⟩
  · obtain ⟨c, hc, h⟩ := ok_of_bind h
    obtain ⟨t, ht', h⟩ := ok_of_bind h
    obtain ⟨e, he, h⟩ := ok_of_bind h
    cases h
    exact ⟨ht.treeField hc, ht.treeField ht', ht.optionalTree hempty he⟩
  · obtain ⟨c, hc, h⟩ := ok_of_bind h
    obtain ⟨cs, hcs, h⟩ := ok_of_bind h
    cases h
    exact ⟨ht.treeField hc, ht.treeField hcs⟩
  · obtain ⟨v, hv, h⟩ := ok_of_bind h
    obtain ⟨b, hb, h⟩ := ok_of_bind h
    cases h
    exact ⟨ht.optionalTree hnull hv, ht.treeField hb⟩
  · obtain ⟨c, hc, h⟩ := ok_of_bind h
    obtain ⟨b, hb, h⟩ := ok_of_bind h
    cases h
    exact ⟨ht.treeField hc, ht.treeField hb⟩
  · obtain ⟨v, hv, h⟩ := ok_of_bind h
    cases h
    have hv : v.HoldsData := ht.treeField hv
    exact hv
  · exact holdsData_of_loadLiteral h
  · obtain ⟨e, he, h⟩ := ok_of_bind h
    cases h
    have he : e.HoldsData := ht.treeField he
    exact he
  · obtain ⟨_, -, h⟩ := ok_of_bind h
    obtain ⟨l, hl, h⟩ := ok_of_bind h
    obtain ⟨r, hr, h⟩ := ok_of_bind h
    cases h
    exact ⟨ht.treeField hl, ht.treeField hr⟩
  · obtain ⟨_, -, h⟩ := ok_of_bind h
    obtain ⟨o, ho, h⟩ := ok_of_bind h
    cases h
    have ho : o.HoldsData := ht.optionalTree hnull ho
    exact ho
  · obtain ⟨_, -, h⟩ := ok_of_bind h
    obtain ⟨as, has, h⟩ := ok_of_bind h
    cases h
    have has : as.HoldsData := ht.treeField has
    exact has
  · obtain ⟨vs, hvs, h⟩ := ok_of_bind h
    cases h
    have hvs : vs.HoldsData := ht.treeField hvs
    exact hvs
  · obtain ⟨_, -, h⟩ := ok_of_bind h
    cases h

mutual

/-- **Whatever loads holds data that suit their literals.** -/
theorem Node.holdsData_of_ofJson : ∀ {j : Json} {n : Node}, Node.ofJson j = .ok n → n.HoldsData
  | .null, n, h => by
    cases h
    trivial
  | .arr xs, n, h => by
    rw [Node.ofJson] at h
    cases hxs : Node.listOfJson xs with
    | error e => simp [hxs, Except.map] at h
    | ok ns =>
      rw [hxs] at h
      cases h
      have hns : Node.AllHoldData ns := Node.allHoldData_of_listOfJson hxs
      exact hns
  | .obj fields, n, h => holdsData_of_loadItem (fieldsHoldData_of_fieldsOfJson fields) h
  | .bool _, _, h => nomatch h
  | .int _, _, h => nomatch h
  | .float _, _, h => nomatch h
  | .str _, _, h => nomatch h

theorem Node.allHoldData_of_listOfJson :
    ∀ {xs : List Json} {ns : List Node}, Node.listOfJson xs = .ok ns → Node.AllHoldData ns
  | [], ns, h => by
    cases h
    trivial
  | x :: xs, ns, h => by
    obtain ⟨m, hm, h⟩ := ok_of_bind h
    obtain ⟨ms, hms, h⟩ := ok_of_bind h
    cases h
    exact ⟨Node.holdsData_of_ofJson hm, Node.allHoldData_of_listOfJson hms⟩

theorem fieldsHoldData_of_fieldsOfJson :
    ∀ fields : List (Text × Json), FieldsHoldData (Node.fieldsOfJson fields)
  | [] => nofun
  | (k, v) :: fields => by
    intro key n h
    rw [Node.fieldsOfJson, List.lookup_cons] at h
    split at h
    · exact Node.holdsData_of_ofJson (Option.some.inj h)
    · exact fieldsHoldData_of_fieldsOfJson fields key n h

end

end Scriptlet
