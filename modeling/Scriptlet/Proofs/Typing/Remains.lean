import Scriptlet.Proofs.Syntax.Trees
import Scriptlet.Proofs.Typing.Effects

/-! # What a failed analysis leaves behind

An analysis takes the declarations of a program one after the other, globals first, and stops at the
first one that it refuses. What it leaves in its scope is what the declarations before that one have
left, and the refused declaration itself if it is a function whose types are all known.

* `Program.declarations`, `Program.upTo`: the declarations of a program in their order, and the
  program of the first ones.
* `Analysis.walk`: declarations are analyzed one after the other; globals, functions and programs
  are walked like that.
* `Analysis.FailsAt`: an analysis refuses a declaration and accepts those before it.
* `analysis_remains`: what is left in the scopes. -/

namespace Scriptlet

/-! ### Declarations in order -/

/-- The declarations of a program in the order in which they are analyzed. -/
def Program.declarations (p : Program) : List (Global ⊕ Func) :=
  p.globals.map .inl ++ p.functions.map .inr

/-- The program of the first declarations. -/
def Program.upTo (p : Program) (k : Nat) : Program :=
  ⟨p.globals.take k, p.functions.take (k - p.globals.length)⟩

theorem Program.declarations_upTo (p : Program) (k : Nat) :
    (p.upTo k).declarations = p.declarations.take k := by
  rw [declarations, declarations, upTo, List.take_append, List.map_take, List.map_take,
    List.length_map]

namespace Analysis

variable {level : Int} {s : Nat} {a : Analyzer}

/-! ### Walks -/

section Walk

variable {δ : Type} {f : δ → StateM Analyzer (δ × Except Failure Unit)} {d : δ} {ds es : List δ}
  {e : Failure}

/-- Analyzes things one after the other, until one is refused. -/
def walk (f : δ → StateM Analyzer (δ × Except Failure Unit)) :
    List δ → StateM Analyzer (List δ × Except Failure Unit)
  | [] => return ([], .ok ())
  | d :: ds => do
    let (d, r) ← f d
    match r with
    | .error e => return (d :: ds, .error e)
    | .ok _ =>
      let (ds, r) ← walk f ds
      return (d :: ds, r)

theorem walk_cons_error (h : (f d a).1.2 = .error e) :
    walk f (d :: ds) a = (((f d a).1.1 :: ds, .error e), (f d a).2) := by
  rw [walk, run_bind]
  rcases hd : f d a with ⟨⟨d', r⟩, a'⟩
  rw [hd] at h
  cases h
  rfl

theorem walk_cons_ok (h : (f d a).1.2 = .ok ()) :
    walk f (d :: ds) a =
      (((f d a).1.1 :: (walk f ds (f d a).2).1.1, (walk f ds (f d a).2).1.2),
        (walk f ds (f d a).2).2) := by
  rw [walk, run_bind]
  rcases hd : f d a with ⟨⟨d', r⟩, a'⟩
  rw [hd] at h
  cases h
  rfl

/-- A walk that is refused does not come to what follows. -/
theorem walk_append_error (h : (walk f ds a).1.2 = .error e) :
    walk f (ds ++ es) a = (((walk f ds a).1.1 ++ es, .error e), (walk f ds a).2) := by
  induction ds generalizing a with
  | nil => cases h
  | cons d ds ih =>
    rw [List.cons_append]
    cases hd : (f d a).1.2 with
    | error e' =>
      rw [walk_cons_error hd] at h ⊢
      cases h
      rw [walk_cons_error hd]
      rfl
    | ok _ =>
      rw [walk_cons_ok hd] at h ⊢
      rw [walk_cons_ok hd, ih h]
      rfl

/-- A walk goes on after what is accepted. -/
theorem walk_append_ok (h : (walk f ds a).1.2 = .ok ()) :
    walk f (ds ++ es) a =
      (((walk f ds a).1.1 ++ (walk f es (walk f ds a).2).1.1, (walk f es (walk f ds a).2).1.2),
        (walk f es (walk f ds a).2).2) := by
  induction ds generalizing a with
  | nil => rfl
  | cons d ds ih =>
    rw [List.cons_append]
    cases hd : (f d a).1.2 with
    | error e' =>
      rw [walk_cons_error hd] at h
      cases h
    | ok _ =>
      rw [walk_cons_ok hd] at h ⊢
      rw [walk_cons_ok hd, ih h]
      rfl

theorem walk_singleton (f : δ → StateM Analyzer (δ × Except Failure Unit)) (d : δ)
    (a : Analyzer) : (walk f [d] a).1.2 = (f d a).1.2 ∧ (walk f [d] a).2 = (f d a).2 := by
  cases hd : (f d a).1.2 with
  | error e => rw [walk_cons_error hd]; exact ⟨rfl, rfl⟩
  | ok _ => rw [walk_cons_ok hd]; exact ⟨rfl, rfl⟩

/-- What is accepted is accepted up to any place. -/
theorem walk_take_ok {k m : Nat} (hkm : k ≤ m) (h : (walk f (ds.take m) a).1.2 = .ok ()) :
    (walk f (ds.take k) a).1.2 = .ok () := by
  cases hk : (walk f (ds.take k) a).1.2 with
  | ok _ => rfl
  | error e =>
    have hsplit := List.take_append_drop k (ds.take m)
    rw [List.take_take, Nat.min_eq_left hkm] at hsplit
    rw [← hsplit, walk_append_error hk] at h
    cases h

/-- A walk is refused if one of its first parts is, with the same failure and state. -/
theorem walk_of_take_error {k : Nat} (h : (walk f (ds.take k) a).1.2 = .error e) :
    (walk f ds a).1.2 = .error e ∧ (walk f ds a).2 = (walk f (ds.take k) a).2 := by
  have hall : walk f (ds.take k ++ ds.drop k) a = _ := walk_append_error h
  rw [List.take_append_drop] at hall
  rw [hall]
  exact ⟨rfl, rfl⟩

/-- **A walk that is refused is refused at some place.** -/
theorem exists_take_error (h : (walk f ds a).1.2 = .error e) :
    ∃ k, (walk f (ds.take k) a).1.2 = .ok () ∧ (walk f (ds.take (k + 1)) a).1.2 = .error e := by
  induction ds generalizing a with
  | nil => cases h
  | cons d ds ih =>
    cases hd : (f d a).1.2 with
    | error e' =>
      rw [walk_cons_error hd] at h
      cases h
      exact ⟨0, rfl, (walk_singleton f d a).1.trans hd⟩
    | ok _ =>
      rw [walk_cons_ok hd] at h
      obtain ⟨k, hok, herror⟩ := ih h
      refine ⟨k + 1, ?_, ?_⟩
      · rw [List.take_succ_cons, walk_cons_ok hd, hok]
      · rw [List.take_succ_cons, walk_cons_ok hd, herror]

/-- **Where a walk is refused, it ends with what the refused thing does after those before it.** -/
theorem walk_stops {k : Nat} (hok : (walk f (ds.take k) a).1.2 = .ok ())
    (herror : (walk f (ds.take (k + 1)) a).1.2 = .error e) :
    ∃ d, ds[k]? = some d ∧ (f d (walk f (ds.take k) a).2).1.2 = .error e ∧
      (walk f ds a).2 = (f d (walk f (ds.take k) a).2).2 := by
  have hstate := (walk_of_take_error herror).2
  rw [List.take_add_one] at herror hstate
  cases hd : ds[k]? with
  | none =>
    rw [hd, Option.toList_none, List.append_nil, hok] at herror
    cases herror
  | some d =>
    rw [hd, Option.toList_some, walk_append_ok hok] at herror hstate
    obtain ⟨hverdict, hend⟩ := walk_singleton f d (walk f (ds.take k) a).2
    exact ⟨d, rfl, hverdict.symm.trans herror, hstate.trans hend⟩

theorem walk_map {ε : Type} {g : ε → StateM Analyzer (ε × Except Failure Unit)} {i : ε → δ}
    (hf : ∀ x a, f (i x) a = ((i (g x a).1.1, (g x a).1.2), (g x a).2)) :
    ∀ (xs : List ε) (a : Analyzer), walk f (xs.map i) a =
      (((walk g xs a).1.1.map i, (walk g xs a).1.2), (walk g xs a).2)
  | [], _ => rfl
  | x :: xs, a => by
    have hx := hf x a
    rw [List.map_cons]
    cases hd : (g x a).1.2 with
    | error e =>
      rw [walk_cons_error (by rw [hx, hd]), walk_cons_error hd, hx]
      rfl
    | ok _ =>
      rw [walk_cons_ok (by rw [hx, hd]), walk_cons_ok hd, hx, walk_map hf xs]
      rfl

theorem extends_walk : ∀ {ds : List δ}, (∀ d ∈ ds, Extends s (f d)) → Extends s (walk f ds)
  | [], _ => .pure _
  | d :: ds, h => by
    rw [walk]
    refine (h d List.mem_cons_self).andThen fun d' r => ?_
    cases r with
    | error e => exact .pure _
    | ok _ =>
      exact (extends_walk fun d hd => h d (List.mem_cons_of_mem _ hd)).andThen fun _ _ => .pure _

end Walk

/-! ### Programs as walks -/

/-- Analyzes a declaration. -/
def declaration (level : Int) (s : Nat) :
    Global ⊕ Func → StateM Analyzer ((Global ⊕ Func) × Except Failure Unit)
  | .inl g => do
    let (g, r) ← global level s g
    return (.inl g, r)
  | .inr f => do
    let (f, r) ← func level s f
    return (.inr f, r)

theorem globals_eq_walk : ∀ gs, globals level s gs = walk (global level s) gs
  | [] => rfl
  | g :: gs => by
    rewrite [globals, walk, globals_eq_walk gs]
    rfl

theorem functions_eq_walk : ∀ fs, functions level s fs = walk (func level s) fs
  | [] => rfl
  | f :: fs => by
    rewrite [functions, walk, functions_eq_walk fs]
    rfl

/-- **The analysis of a program is a walk over its declarations**, followed by a line in the trace
if all are accepted. -/
theorem program_eq_walk (level : Int) (p : Program) (a : Analyzer) :
    ∃ l, (program level p a).1.1.declarations =
        (walk (declaration level a.root) p.declarations a).1.1 ∧
      (program level p a).1.2 = (walk (declaration level a.root) p.declarations a).1.2 ∧
      (program level p a).2 =
        { (walk (declaration level a.root) p.declarations a).2 with trace := l } := by
  have hglobals := walk_map (f := declaration level a.root) (g := global level a.root) (i := .inl)
    (fun _ _ => rfl) p.globals a
  have hfunctions := walk_map (f := declaration level a.root) (g := func level a.root) (i := .inr)
    (fun _ _ => rfl) p.functions
  have hdeclarations : p.declarations = p.globals.map .inl ++ p.functions.map .inr := rfl
  rw [hdeclarations, program, run_bind, run_get]
  simp only [run_bind, globals_eq_walk, functions_eq_walk]
  rcases hgs : walk (global level a.root) p.globals a with ⟨⟨gs, r⟩, a₁⟩
  rw [hgs] at hglobals
  cases r with
  | error e =>
    rw [walk_append_error (by rw [hglobals]), hglobals]
    exact ⟨a₁.trace, rfl, rfl, rfl⟩
  | ok _ =>
    rw [walk_append_ok (by rw [hglobals]), hglobals, hfunctions]
    dsimp only
    rw [run_bind]
    rcases hfs : walk (func level a.root) p.functions a₁ with ⟨⟨fs, r⟩, a₂⟩
    cases r with
    | error e => exact ⟨a₂.trace, rfl, rfl, rfl⟩
    | ok _ =>
      obtain ⟨l, hl⟩ := run_saying level _ _ _ _ _
      refine ⟨l, ?_, congrArg (fun x => x.1.2) hl, congrArg Prod.snd hl⟩
      exact congrArg (fun x => x.1.1.declarations) hl

/-! ### What a declaration leaves -/

/-- A declaration of a text, which has not been analyzed. -/
inductive IsNew : Global ⊕ Func → Prop where
  | ofGlobal {d : GlobalDecl} {x : String} (hx : d.name = .text x) (hslot : d.declared = none) :
    IsNew (.inl (.decl d))
  | ofFunc {d : FuncDecl} {x : String} (hx : d.name = .text x) (hslot : d.signature = none) :
    IsNew (.inr (.decl d))

theorem isNew_of_readProgram {text : String} {p : Program} (hp : readProgram text = .ok p) :
    ∀ d ∈ p.declarations, IsNew d := by
  obtain ⟨hgs, hfs⟩ := isTreeOf_of_readProgram hp
  have herase := erase_of_readProgram hp
  intro d hd
  rcases List.mem_append.mp hd with hd | hd
  · obtain ⟨g, hg, rfl⟩ := List.mem_map.mp hd
    have hslot : g.erase = g := by
      have := List.map_eq_map_iff.mp ((congrArg Program.globals herase).trans (List.map_id _).symm)
      exact this g hg
    cases g with
    | decl d =>
      obtain ⟨x, hx, -⟩ := (hgs _ hg).1
      exact .ofGlobal hx (congrArg GlobalDecl.declared (Global.decl.inj hslot)).symm
    | _ => cases hgs _ hg
  · obtain ⟨f, hf, rfl⟩ := List.mem_map.mp hd
    have hslot : f.erase = f := by
      have := List.map_eq_map_iff.mp
        ((congrArg Program.functions herase).trans (List.map_id _).symm)
      exact this f hf
    cases f with
    | decl d =>
      obtain ⟨x, hx, -⟩ := (hfs _ hf).1
      exact .ofFunc hx (congrArg FuncDecl.signature (Func.decl.inj hslot)).symm
    | hole x => cases hfs _ hf

variable {d : Global ⊕ Func}

/-- The variable that a declaration declares. -/
def declared? : Global ⊕ Func → Option Variable :=
  Sum.elim Global.declared? fun _ => none

theorem declaredGlobals_eq (p : Program) :
    p.declaredGlobals = p.declarations.filterMap declared? := by
  have hnone : p.functions.filterMap (declared? ∘ .inr) = [] :=
    List.filterMap_eq_nil_iff.mpr fun _ _ => rfl
  rw [Program.declarations, List.filterMap_append, List.filterMap_map, List.filterMap_map, hnone,
    List.append_nil]
  rfl

/-- A declaration defines in its scope and in younger ones only. -/
theorem IsNew.extends (h : IsNew d) : Extends s (declaration level s d) := by
  intro a
  cases h with
  | @ofGlobal d x hx hslot =>
    have hstate : (declaration level s (.inl (.decl d)) a).2 = (global level s (.decl d) a).2 := rfl
    rw [hstate]
    obtain ⟨f, l, -, hend⟩ | ⟨g, v, l, -, hend⟩ := global_effect level hx hslot s a
    · rw [hend]
      exact .traced s a l
    · rw [hend]
      exact ⟨Forest.growsAt_defineVariable, rfl⟩
  | @ofFunc d x hx hslot =>
    have hstate : (declaration level s (.inr (.decl d)) a).2 = (func level s (.decl d) a).2 := rfl
    rw [hstate]
    obtain ⟨-, hend⟩ | ⟨ps, r, l, -, -, hend⟩ := func_effect level hx hslot s a
    · rw [hend]
      exact .refl s a
    · exact ⟨Forest.growsAt_defineFunction.of_young hend.scopes le_rfl, hend.root⟩

/-- A variable that a declaration leaves in its scope was there, or is the one it declares and is
accepted. -/
theorem IsNew.vars (h : IsNew d) (hs : s < a.scopes.size) {k : Key} {b : Option Variable}
    (hb : (declaration level s d a).2.scopes.ownVariable? k s = some b) :
    a.scopes.ownVariable? k s = some b ∨ (declaration level s d a).1.2 = .ok () ∧
      ∃ v, declared? (declaration level s d a).1.1 = some v ∧ b = some v := by
  cases h with
  | @ofGlobal d x hx hslot =>
    have hrun : declaration level s (.inl (.decl d)) a =
        ((.inl (global level s (.decl d) a).1.1, (global level s (.decl d) a).1.2),
          (global level s (.decl d) a).2) := rfl
    rw [hrun] at hb ⊢
    obtain ⟨f, l, -, hend⟩ | ⟨g, v, l, hresult, hend⟩ :=
      global_effect level hx hslot s a
    · rw [hend] at hb
      exact .inl hb
    · rw [hend] at hb
      rw [hresult]
      obtain ⟨-, rfl⟩ | hold := Forest.ownVariable_of_defineVariable hb
      · exact .inr ⟨rfl, v, rfl, rfl⟩
      · exact .inl hold
  | @ofFunc d x hx hslot =>
    have hstate : (declaration level s (.inr (.decl d)) a).2 = (func level s (.decl d) a).2 := rfl
    rw [hstate] at hb
    obtain ⟨-, hend⟩ | ⟨ps, r, l, -, -, hend⟩ := func_effect level hx hslot s a
    · rw [hend] at hb
      exact .inl hb
    · have hscope := hend.scopes.scope_eq s (by rwa [Forest.size_defineFunction]) hs.ne
      refine .inl ?_
      rw [Forest.ownVariable?, hscope, ← Forest.ownVariable?,
        Forest.ownVariable?_defineFunction] at hb
      exact hb

/-- The variables that a walk leaves in its scope were there, or are globals that it accepts. -/
theorem vars_walk {k : Key} {b : Option Variable} :
    ∀ {ds : List (Global ⊕ Func)} {a : Analyzer}, (∀ d ∈ ds, IsNew d) → s < a.scopes.size →
      (walk (declaration level s) ds a).2.scopes.ownVariable? k s = some b →
        a.scopes.ownVariable? k s = some b ∨
          ∃ v ∈ (walk (declaration level s) ds a).1.1.filterMap declared?, b = some v
  | [], _, _, _, hb => .inl hb
  | d :: ds, a, h, hs, hb => by
    have hd := h d List.mem_cons_self
    have hrest : ∀ d ∈ ds, IsNew d := fun d hd => h d (List.mem_cons_of_mem _ hd)
    cases hverdict : (declaration level s d a).1.2 with
    | error e =>
      rw [walk_cons_error hverdict] at hb
      obtain hold | ⟨hok, -⟩ := hd.vars hs hb
      · exact .inl hold
      · cases hverdict.symm.trans hok
    | ok _ =>
      rw [walk_cons_ok hverdict] at hb ⊢
      have hs' : s < (declaration level s d a).2.scopes.size :=
        lt_of_lt_of_le hs (hd.extends a).scopes.size_le
      obtain hold | ⟨v, hv, rfl⟩ := vars_walk hrest hs' hb
      · obtain hold | ⟨-, v, hv, rfl⟩ := hd.vars hs hold
        · exact .inl hold
        · refine .inr ⟨v, ?_, rfl⟩
          rw [List.filterMap_cons_some hv]
          exact List.mem_cons_self
      · refine .inr ⟨v, ?_, rfl⟩
        rw [List.filterMap_cons]
        split
        · exact hv
        · exact List.mem_cons_of_mem _ hv

/-! ### Failures -/

/-- Whether an analysis fails at a declaration: it accepts those before it, and refuses it. -/
@[mk_iff] structure FailsAt (tracer : Tracer) (p : Program) (a : Analyzer) (k : Nat) (e : Failure) :
    Prop where
  accepted : (program tracer (p.upTo k) a).1.2 = .ok ()
  refused : (program tracer (p.upTo (k + 1)) a).1.2 = .error e

theorem verdict_upTo (level : Int) (p : Program) (a : Analyzer) (k : Nat) :
    (program level (p.upTo k) a).1.2 =
      (walk (declaration level a.root) (p.declarations.take k) a).1.2 := by
  obtain ⟨l, -, hverdict, -⟩ := program_eq_walk level (p.upTo k) a
  rw [hverdict, Program.declarations_upTo]

/-- **An analysis that fails does so at one declaration.** -/
theorem program_eq_error_iff {p : Program} {e : Failure} :
    (program level p a).1.2 = .error e ↔ ∃! k, FailsAt level p a k e := by
  obtain ⟨l, -, hverdict, -⟩ := program_eq_walk level p a
  rw [hverdict]
  constructor
  · intro h
    obtain ⟨k, hok, herror⟩ := exists_take_error h
    refine ⟨k, ⟨(verdict_upTo ..).trans hok, (verdict_upTo ..).trans herror⟩, fun m hm => ?_⟩
    have hmok := (verdict_upTo ..).symm.trans hm.accepted
    have hmerror := (verdict_upTo ..).symm.trans hm.refused
    by_contra hne
    rcases Nat.lt_or_gt_of_ne hne with hlt | hlt
    · cases (walk_take_ok hlt hok).symm.trans hmerror
    · cases (walk_take_ok hlt hmok).symm.trans herror
  · rintro ⟨k, hk, -⟩
    exact (walk_of_take_error ((verdict_upTo ..).symm.trans hk.refused)).1

/-- What an analysis that fails at a declaration leaves in the scopes, in terms of the tree and the
state after the declarations before it. -/
structure Remains (p : Program) (k : Nat) (a : Analyzer) (tree : Program)
    (before after : Analyzer) : Prop where
  root : after.root = a.root
  /-- The scopes around the scope of the analysis are as they were. -/
  others : ∀ t < a.scopes.size, t ≠ a.root → after.scopes.scopes[t]? = a.scopes.scopes[t]?
  /-- A function whose types are all known is there, although it is refused. -/
  known : ∀ d x ps r, p.declarations[k]? = some (.inr (.decl d)) → d.name = .text x →
    List.Forall₂ Param.HasType d.params ps → Returns d.returnTypeName r →
      after.scopes.scopes[a.root]? = (before.scopes.defineFunction a.root (.text x) ps.length
        (some ⟨.text x, ps, r, before.next⟩)).scopes[a.root]?
  /-- A global and a function with an unknown type leave nothing. -/
  unknown : (∀ d ps r, p.declarations[k]? = some (.inr (.decl d)) →
    List.Forall₂ Param.HasType d.params ps → ¬ Returns d.returnTypeName r) →
      after.scopes.scopes[a.root]? = before.scopes.scopes[a.root]?
  /-- Variables were there before, or are globals that are accepted. -/
  vars : ∀ y b, after.scopes.ownVariable? y a.root = some b →
    a.scopes.ownVariable? y a.root = some b ∨ ∃ v ∈ tree.declaredGlobals, b = some v

/-- A refused function leaves itself in the scope if its types are all known. -/
theorem refused_known {d : FuncDecl} {x : String} {ps : List Ty} {r : Ty} (hx : d.name = .text x)
    (hslot : d.signature = none) (hps : List.Forall₂ Param.HasType d.params ps)
    (hr : Returns d.returnTypeName r) (hs : s < a.scopes.size) :
    (declaration level s (.inr (.decl d)) a).2.scopes.scopes[s]? =
      (a.scopes.defineFunction s (.text x) ps.length
        (some ⟨.text x, ps, r, a.next⟩)).scopes[s]? := by
  have hstate : (declaration level s (.inr (.decl d)) a).2 = (func level s (.decl d) a).2 := rfl
  rw [hstate]
  obtain ⟨hnone, -⟩ | ⟨ps', r', l, hps', hr', hend⟩ := func_effect level hx hslot s a
  · exact absurd hr (hnone ps r hps)
  · obtain rfl := Param.rightUnique_hasType.forall₂ hps hps'
    obtain rfl := hr.unique hr'
    exact hend.scopes.scope_eq s (by rwa [Forest.size_defineFunction]) hs.ne

/-- All else that is refused leaves nothing. -/
theorem refused_unknown {e : Failure} (hd : IsNew d)
    (hunknown : ∀ d' ps r, d = .inr (.decl d') → List.Forall₂ Param.HasType d'.params ps →
      ¬ Returns d'.returnTypeName r)
    (herror : (declaration level s d a).1.2 = .error e) :
    (declaration level s d a).2.scopes = a.scopes := by
  cases hd with
  | @ofGlobal d x hx hslot =>
    have hrun : declaration level s (.inl (.decl d)) a =
        ((.inl (global level s (.decl d) a).1.1, (global level s (.decl d) a).1.2),
          (global level s (.decl d) a).2) := rfl
    rw [hrun] at herror ⊢
    obtain ⟨f, l, -, hend⟩ | ⟨g, v, l, hresult, -⟩ := global_effect level hx hslot s a
    · rw [hend]
    · rw [hresult] at herror
      cases herror
  | @ofFunc d x hx hslot =>
    have hstate : (declaration level s (.inr (.decl d)) a).2 = (func level s (.decl d) a).2 := rfl
    rw [hstate]
    obtain ⟨-, hend⟩ | ⟨ps, r, l, hps, hr, -⟩ := func_effect level hx hslot s a
    · rw [hend]
    · exact absurd hr (hunknown d ps r rfl hps)

end Analysis

/-! ### Analyses with a scope -/

/-- Whether the scope of an analysis is there. -/
def Analyzer.IsPlaced (a : Analyzer) : Prop :=
  a.root < a.scopes.size

namespace Analyzer

theorem isPlaced_fresh : fresh.IsPlaced := by
  unfold IsPlaced
  decide

theorem isPlaced_inside (f : Forest Variable Signature) (parent next : Nat) :
    (inside f parent next).IsPlaced := by
  unfold IsPlaced inside
  simp

variable {a : Analyzer}

theorem IsPlaced.bindVariable (ha : a.IsPlaced) (s : Nat) (name : String) (mutable : Bool)
    (type : Ty) : (a.bindVariable s name mutable type).IsPlaced := by
  unfold IsPlaced Analyzer.bindVariable
  rw [Forest.size_defineVariable]
  exact ha

theorem IsPlaced.bindFunction (ha : a.IsPlaced) (s : Nat) (name : String) (params : List Ty)
    (returns : Ty) : (a.bindFunction s name params returns).IsPlaced := by
  unfold IsPlaced Analyzer.bindFunction
  rw [Forest.size_defineFunction]
  exact ha

/-- An analysis can go on with another program, whatever became of the last one. -/
theorem IsPlaced.program {text : String} {p : Program} (hp : readProgram text = .ok p)
    (ha : a.IsPlaced) (tracer : Tracer) : (Analysis.program tracer p a).2.IsPlaced := by
  rw [Analysis.program_console_of_readProgram hp (List.Subset.refl _) (List.Subset.refl _)]
  obtain ⟨l, -, -, hstate⟩ := Analysis.program_eq_walk tracer.level p a
  have hgrows : a.Grows a.root
      (Analysis.walk (Analysis.declaration tracer.level a.root) p.declarations a).2 :=
    Analysis.extends_walk (fun d hd => (Analysis.isNew_of_readProgram hp d hd).extends) a
  rw [hstate, IsPlaced, hgrows.root]
  exact lt_of_lt_of_le ha hgrows.scopes.size_le

end Analyzer

open Analysis

variable {text : String} {p : Program} {a : Analyzer}

theorem remains_of_failsAt (hp : readProgram text = .ok p) (ha : a.IsPlaced) {level : Int} {k : Nat}
    {e : Failure} (hfails : FailsAt level p a k e) :
    Remains p k a (program level (p.upTo k) a).1.1 (program level (p.upTo k) a).2
      (program level p a).2 := by
  have hnew := isNew_of_readProgram hp
  have hnewTake : ∀ d ∈ p.declarations.take k, IsNew d :=
    fun d hd => hnew d (List.mem_of_mem_take hd)
  have hok := (verdict_upTo ..).symm.trans hfails.accepted
  have herror := (verdict_upTo ..).symm.trans hfails.refused
  obtain ⟨d, hd, hverdict, hstate⟩ := walk_stops hok herror
  obtain ⟨l, -, -, hafter⟩ := program_eq_walk level p a
  obtain ⟨l', htree, -, hbefore⟩ := program_eq_walk level (p.upTo k) a
  rw [Program.declarations_upTo] at htree hbefore
  rw [hafter, hbefore, hstate]
  have hgrows : a.Grows a.root (walk (declaration level a.root) (p.declarations.take k) a).2 :=
    extends_walk (fun d hd => (hnewTake d hd).extends) a
  have hdNew : IsNew d := hnew d (List.mem_of_getElem? hd)
  have hlast : Extends a.root (declaration level a.root d) := hdNew.extends
  have hall := hgrows.trans (hlast _)
  have ha' := lt_of_lt_of_le ha hgrows.scopes.size_le
  refine ⟨hall.root, hall.scopes.scope_eq, fun d' x ps r hd' hx hps hr => ?_, fun hunknown => ?_,
    fun y b hb => ?_⟩
  · cases hd.symm.trans hd'
    cases hdNew with
    | ofFunc hx' hslot =>
      obtain rfl := Name.text.inj (hx.symm.trans hx')
      exact refused_known hx' hslot hps hr ha'
  · refine congrArg (fun f : Forest Variable Signature => f.scopes[a.root]?)
      (refused_unknown hdNew (fun d' ps r hd' => ?_) hverdict)
    exact hunknown d' ps r (hd.trans (congrArg some hd'))
  · rw [declaredGlobals_eq, htree]
    obtain hold | ⟨haccepted, -⟩ := hdNew.vars ha' hb
    · exact vars_walk hnewTake ha hold
    · cases hverdict.symm.trans haccepted

/-- **What a failed analysis leaves behind** is what the declarations before the refused one have
left, and the refused one if it is a function whose types are all known. -/
theorem analysis_remains {text : String} {p : Program} (hp : readProgram text = .ok p)
    {a : Analyzer} (ha : a.IsPlaced) (tracer : Tracer) :
    (∀ e, (program tracer p a).1.2 = .error e ↔ ∃! k, FailsAt tracer p a k e) ∧
      ∀ k e, FailsAt tracer p a k e →
        Remains p k a (program tracer (p.upTo k) a).1.1 (program tracer (p.upTo k) a).2
          (program tracer p a).2 := by
  have hall : program tracer p a = program tracer.level p a :=
    program_console_of_readProgram hp (List.Subset.refl _) (List.Subset.refl _) tracer a
  have hfirst (k : Nat) : program tracer (p.upTo k) a = program tracer.level (p.upTo k) a :=
    program_console_of_readProgram hp (List.take_subset _ _) (List.take_subset _ _) tracer a
  have hfails (k : Nat) (e : Failure) :
      FailsAt tracer p a k e ↔ FailsAt tracer.level p a k e := by
    rw [failsAt_iff, failsAt_iff, hfirst, hfirst]
  simp only [hall, hfirst, hfails]
  exact ⟨fun e => program_eq_error_iff, fun k e h => remains_of_failsAt hp ha h⟩

/-- The body of the second declaration fails; its function and the global before it are left. -/
theorem analysis_remains_body :
    ∃ p e, readProgram "VAR a = 1; FUN f(x: Integer) DO LET y = x; g(y); END FUN g() DO END" =
        .ok p ∧
      Analyzer.fresh.IsPlaced ∧ FailsAt 0 p Analyzer.fresh 1 e ∧
      Remains p 1 Analyzer.fresh (program 0 (p.upTo 1) Analyzer.fresh).1.1
        (program 0 (p.upTo 1) Analyzer.fresh).2 (program 0 p Analyzer.fresh).2 := by
  have hleft {text : String} {p : Program} {e : Failure} (hp : readProgram text = .ok p)
      (haccepted : (program 0 (p.upTo 1) Analyzer.fresh).1.2 = .ok ())
      (hrefused : (program 0 (p.upTo 2) Analyzer.fresh).1.2 = .error e) :
      ∃ p e, readProgram text = .ok p ∧ Analyzer.fresh.IsPlaced ∧
        FailsAt 0 p Analyzer.fresh 1 e ∧
        Remains p 1 Analyzer.fresh (program 0 (p.upTo 1) Analyzer.fresh).1.1
          (program 0 (p.upTo 1) Analyzer.fresh).2 (program 0 p Analyzer.fresh).2 := by
    have hfails : FailsAt 0 p Analyzer.fresh 1 e := ⟨haccepted, hrefused⟩
    exact ⟨p, e, hp, Analyzer.isPlaced_fresh, hfails,
      (analysis_remains hp Analyzer.isPlaced_fresh 0).2 1 e hfails⟩
  exact hleft (by cbv) rfl rfl

end Scriptlet
