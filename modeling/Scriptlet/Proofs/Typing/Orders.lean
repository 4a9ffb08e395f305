import Mathlib.Algebra.Group.End
import Scriptlet.Proofs.Typing.Renumbering
import Scriptlet.Proofs.Typing.Work

/-! # Functions in different orders

If the functions of a program are put into another order and both programs are well typed, a call
means the same function in both: it means a function that both analyses have come to, and only one
function has its name and arity. The numbers of the declarations differ, since each function takes
the numbers after those of the functions before it.

* `FuncDecl.Typed.next_eq`: a function takes as many numbers as it is wide.
* `exists_shuffle`: if blocks of numbers are put into another order, the numbers are permuted.
* `Program.Typed.exists_renumbers`: two records of a program whose functions are in different orders
  are the same up to a permutation of the numbers. -/

namespace Scriptlet

variable {Γ Γ' Δ Δ' : Context}

/-! ### How many numbers a function takes -/

/-- Whether a statement declares a variable. -/
def Stmt.isDeclaration : Stmt → Bool
  | .declare .. => true
  | _ => false

mutual

/-- A statement takes a number for each declaration in it. -/
theorem Stmt.Typed.next_eq : ∀ {Γ Γ' : Context} {x : Stmt}, Stmt.Typed Γ x Γ' →
    Γ'.next = Γ.next + x.nested.countP Stmt.isDeclaration
  | _, _, _, .expr _ => rfl
  | _, _, _, .declare _ _ _ => rfl
  | _, _, _, .assign _ _ _ _ _ => rfl
  | _, _, _, .branch _ _ hthen helse => by
    rw [Stmt.nested, List.countP_cons_of_neg Bool.false_ne_true, List.countP_append,
      ← Nat.add_assoc, ← hthen.next_eq]
    exact helse.next_eq
  | _, _, _, .switch _ hcs => by
    rw [Stmt.nested, List.countP_cons_of_neg Bool.false_ne_true]
    exact hcs.next_eq
  | _, _, _, .loop _ _ hb => by
    rw [Stmt.nested, List.countP_cons_of_neg Bool.false_ne_true]
    exact hb.next_eq
  | _, _, _, .ret _ => rfl

theorem Stmt.BlockTyped.next_eq : ∀ {Γ Γ' : Context} {xs : List Stmt}, Stmt.BlockTyped Γ xs Γ' →
    Γ'.next = Γ.next + (Stmt.nestedIn xs).countP Stmt.isDeclaration
  | _, _, _, .nil => rfl
  | _, _, _, .cons hx hxs => by
    rw [Stmt.nestedIn, List.countP_append, ← Nat.add_assoc, ← hx.next_eq, hxs.next_eq]

theorem Case.Typed.next_eq : ∀ {Γ Γ' : Context} {t : Ty} {c : Case}, Case.Typed Γ t c Γ' →
    Γ'.next = Γ.next + c.nested.countP Stmt.isDeclaration
  | _, _, _, _, .equals _ _ hb => hb.next_eq
  | _, _, _, _, .otherwise hb => hb.next_eq

theorem Case.ListTyped.next_eq : ∀ {Γ Γ' : Context} {t : Ty} {cs : List Case},
    Case.ListTyped Γ t cs Γ' → Γ'.next = Γ.next + (Case.nestedIn cs).countP Stmt.isDeclaration
  | _, _, _, _, .nil => rfl
  | _, _, _, _, .cons hc hcs => by
    rw [Case.nestedIn, List.countP_append, ← Nat.add_assoc, ← hc.next_eq, hcs.next_eq]

end

/-- The numbers that a function takes: one of its own, and one for each declaration in its body. -/
def FuncDecl.width (d : FuncDecl) : Nat :=
  (Stmt.nestedIn d.body).countP Stmt.isDeclaration + 1

theorem FuncDecl.width_erase (d : FuncDecl) : d.erase.width = d.width := by
  have hsame : Stmt.isDeclaration ∘ Stmt.erase = Stmt.isDeclaration := by
    funext x
    cases x <;> rfl
  rw [FuncDecl.width, FuncDecl.width, FuncDecl.erase, Stmt.nestedIn_erase, List.countP_map, hsame]

/-- **A function takes as many numbers as it is wide.** -/
theorem FuncDecl.Typed.next_eq {d : FuncDecl} (h : d.Typed Γ Γ') : Γ'.next = Γ.next + d.width := by
  obtain @⟨ps, r, k, f, Γ₁, -, -, -, -, -, -, hbody, -⟩ := h
  have hnext : Γ₁.next = Γ.next + 1 + _ := hbody.next_eq
  rw [FuncDecl.width, Nat.add_left_comm, Nat.add_comm]
  exact hnext

theorem Global.ListTyped.next_eq : ∀ {Γ Γ' : Context} {gs : List Global},
    Global.ListTyped Γ gs Γ' → Γ'.next = Γ.next + gs.length
  | _, _, _, .nil => rfl
  | Γ, _, _, .cons hd hgs => by
    obtain ⟨-, -, -, -⟩ := hd
    rw [hgs.next_eq]
    simp only [Context.declare, List.length_cons]
    omega

/-! ### Places of blocks -/

/-- The first number of a block, if blocks of some widths follow one another from a number on. -/
def place (k : FuncKey) : Nat → List (FuncKey × Nat) → Nat
  | n, [] => n
  | n, (l, w) :: blocks => if l = k then n else place k (n + w) blocks

theorem le_place (k : FuncKey) : ∀ (n : Nat) (bs : List (FuncKey × Nat)), n ≤ place k n bs
  | n, [] => le_rfl
  | n, (l, w) :: bs => by
    rw [place]
    split_ifs
    · exact le_rfl
    · exact (Nat.le_add_right n w).trans (le_place k (n + w) bs)

/-- The block of numbers that a function takes. -/
def FuncDecl.block (d : FuncDecl) : FuncKey × Nat :=
  (d.key, d.width)

theorem FuncDecl.block_erase (d : FuncDecl) : d.erase.block = d.block :=
  Prod.ext rfl d.width_erase

/-- Two blocks that follow one another are exchanged. -/
def swapBlocks (n v w : Nat) : Equiv.Perm Nat where
  toFun i :=
    if i < n then i else if i < n + v then i + w else if i < n + v + w then i - v else i
  invFun i :=
    if i < n then i else if i < n + w then i + v else if i < n + w + v then i - w else i
  left_inv i := by
    dsimp only
    split_ifs <;> omega
  right_inv i := by
    dsimp only
    split_ifs <;> omega

/-- **If blocks are put into another order, their numbers are permuted.** -/
theorem exists_shuffle {bs bs' : List (FuncKey × Nat)} (h : bs.Perm bs')
    (hkeys : (bs.map Prod.fst).Nodup) (n : Nat) :
    ∃ ρ : Equiv.Perm Nat, (∀ i < n, ρ i = i) ∧
      ∀ k w, (k, w) ∈ bs → ∀ i < w, ρ (place k n bs + i) = place k n bs' + i := by
  induction h generalizing n with
  | nil => exact ⟨1, fun _ _ => rfl, fun _ _ hk => absurd hk List.not_mem_nil⟩
  | @cons b bs bs' _ ih =>
    obtain ⟨hfirst, hkeys⟩ := List.nodup_cons.mp hkeys
    obtain ⟨ρ, hfix, hmove⟩ := ih hkeys (n + b.2)
    refine ⟨ρ, fun i hi => hfix i (by omega), fun k w hk i hi => ?_⟩
    rcases List.mem_cons.mp hk with rfl | hk
    · simp only [place, if_true]
      exact hfix (n + i) (by omega)
    · have hne : b.1 ≠ k := fun heq => hfirst (heq ▸ List.mem_map_of_mem hk)
      simp only [place, hne, if_false]
      exact hmove k w hk i hi
  | swap b c bs =>
    obtain ⟨hfirst, hkeys⟩ := List.nodup_cons.mp hkeys
    have hsecond := (List.nodup_cons.mp hkeys).1
    have hne : c.1 ≠ b.1 := fun heq => hfirst (List.mem_cons.mpr (Or.inl heq))
    -- the first two blocks are exchanged, and those after them keep their numbers
    refine ⟨swapBlocks n c.2 b.2, fun i hi => if_pos hi, fun k w hk i hi => ?_⟩
    rcases List.mem_cons.mp hk with rfl | hk
    · simp only [place, hne.symm, if_true, if_false, swapBlocks, Equiv.coe_fn_mk]
      rw [if_neg (by omega), if_pos (by omega)]
      omega
    · rcases List.mem_cons.mp hk with rfl | hk
      · simp only [place, hne, if_true, if_false, swapBlocks, Equiv.coe_fn_mk]
        rw [if_neg (by omega), if_neg (by omega), if_pos (by omega)]
        omega
      · have hc : c.1 ≠ k := fun heq =>
          hfirst (List.mem_cons_of_mem _ (heq ▸ List.mem_map_of_mem hk))
        have hb : b.1 ≠ k := fun heq => hsecond (heq ▸ List.mem_map_of_mem hk)
        have hle := le_place k (n + c.2 + b.2) bs
        simp only [place, hc, hb, if_false, swapBlocks, Equiv.coe_fn_mk]
        rw [if_neg (by omega), if_neg (by omega), if_neg (by omega), Nat.add_right_comm]
  | trans h₁ _ ih₁ ih₂ =>
    obtain ⟨ρ₁, hfix₁, hmove₁⟩ := ih₁ hkeys n
    obtain ⟨ρ₂, hfix₂, hmove₂⟩ := ih₂ ((h₁.map Prod.fst).nodup_iff.mp hkeys) n
    refine ⟨ρ₁.trans ρ₂, fun i hi => ?_, fun k w hk i hi => ?_⟩
    · rw [Equiv.trans_apply, hfix₁ i hi, hfix₂ i hi]
    · rw [Equiv.trans_apply, hmove₁ k w hk i hi, hmove₂ k w (h₁.mem_iff.mp hk) i hi]

/-- A block of two numbers and one of three are exchanged. -/
example : (List.range 7).map (swapBlocks 1 2 3) = [0, 4, 5, 1, 2, 3, 6] := by decide

/-! ### Records of functions -/

theorem Analyzer.renumber_printSignature {ρ : Nat → Nat} (h : ρ 0 = 0) :
    Analyzer.printSignature.renumber ρ = Analyzer.printSignature :=
  congrArg (fun n => { Analyzer.printSignature with declaration := n }) h

/-- A function and its signature are known alike. -/
theorem FuncDecl.Typed.exists_signature {d : FuncDecl} (h : d.Typed Γ Γ') :
    ∃ f, d.signature = some f ∧ f.key = d.key ∧ f.declaration = Γ.next := by
  obtain ⟨hps, -, -, hf, hslot, -, -, -⟩ := h
  refine ⟨_, hslot, ?_, by rw [hf]⟩
  rw [hf]
  exact Prod.ext rfl hps.length_eq.symm

/-- The number of a function is the first one of its block. -/
theorem Func.ListTyped.next_of_mem {d : FuncDecl} {Γ₁ Γ₂ : Context} (hd : d.Typed Γ₁ Γ₂) :
    ∀ {fs : List Func} {Γ Γ' : Context}, Func.ListTyped Γ fs Γ' →
      ((Program.funcDecls ⟨[], fs⟩).map FuncDecl.key).Nodup → Func.decl d ∈ fs →
        Γ₁.next = place d.key Γ.next ((Program.funcDecls ⟨[], fs⟩).map FuncDecl.block)
  | .decl e :: fs, Γ, _, .cons he hfs, hkeys, hmem => by
    obtain ⟨hfirst, hkeys⟩ : e.key ∉ (Program.funcDecls ⟨[], fs⟩).map FuncDecl.key ∧
        ((Program.funcDecls ⟨[], fs⟩).map FuncDecl.key).Nodup := List.nodup_cons.mp hkeys
    change Γ₁.next = place d.key Γ.next
      ((e.key, e.width) :: (Program.funcDecls ⟨[], fs⟩).map FuncDecl.block)
    rw [place]
    rcases List.mem_cons.mp hmem with heq | hmem
    · cases heq
      obtain ⟨f, hf, -, hnext⟩ := hd.exists_signature
      obtain ⟨g, hg, -, hnext'⟩ := he.exists_signature
      cases hf.symm.trans hg
      rw [if_pos rfl, ← hnext, hnext']
    · have hother : d.key ∈ (Program.funcDecls ⟨[], fs⟩).map FuncDecl.key :=
        List.mem_map_of_mem (Program.mem_funcDecls.mpr hmem)
      have hne : e.key ≠ d.key := fun heq => hfirst (heq ▸ hother)
      rw [if_neg hne, ← he.next_eq]
      exact hfs.next_of_mem hd hkeys hmem

theorem Func.ListTyped.functions_eq : ∀ {fs : List Func} {Γ Γ' : Context}, Func.ListTyped Γ fs Γ' →
    fs = (Program.funcDecls ⟨[], fs⟩).map Func.decl
  | _, _, _, .nil => rfl
  | _, _, _, .cons _ hfs => congrArg (_ :: ·) hfs.functions_eq

/-- A signature in a record is that of a function in it. -/
theorem Program.exists_of_mem_declaredFunctions {q : Program} {f : Signature}
    (h : f ∈ q.declaredFunctions) : ∃ d ∈ q.funcDecls, d.signature = some f := by
  obtain ⟨g, hg, hf⟩ := List.mem_filterMap.mp h
  cases g with
  | decl d => exact ⟨d, Program.mem_funcDecls.mpr hg, hf⟩
  | hole _ => cases hf

/-- If the images of two lists are the same up to their order, so are the lists up to a map that
says what has the image of an element. -/
theorem perm_map_of_perm {α β : Type} {e : α → β} {r : α → α} : ∀ {as bs : List α},
    (bs.map e).Perm (as.map e) → (∀ a ∈ as, ∀ b ∈ bs, e b = e a → b = r a) → bs.Perm (as.map r)
  | [], bs, h, _ => by
    rw [List.map_nil, List.perm_nil, List.map_eq_nil_iff] at h
    rw [h, List.map_nil]
  | a :: as, bs, h, hr => by
    obtain ⟨b, hb, heq⟩ := List.mem_map.mp (h.mem_iff.mpr List.mem_cons_self)
    obtain rfl := hr a List.mem_cons_self b hb heq
    obtain ⟨before, after, rfl⟩ := List.append_of_mem hb
    rw [List.map_append, List.map_cons, heq] at h
    have hrest : ((before ++ after).map e).Perm (as.map e) := by
      rw [List.map_append]
      exact (List.perm_middle.symm.trans h).cons_inv
    refine List.perm_middle.trans (List.Perm.cons _ (perm_map_of_perm hrest ?_))
    intro a' ha' b' hb'
    refine hr a' (List.mem_cons_of_mem _ ha') b' ?_
    rcases List.mem_append.mp hb' with hb' | hb'
    · exact List.mem_append_left _ hb'
    · exact List.mem_append_right _ (List.mem_cons_of_mem _ hb')

/-! ### Programs -/

/-- Whether a program has the functions of another in another order. Functions are known by their
names and numbers of parameters; no two of them are known alike, and none as the built-in one. -/
structure Program.Reorders (p p' : Program) : Prop where
  globals : p'.globals = p.globals
  functions : p'.functions.Perm p.functions
  distinct : (Analyzer.printSignature.key :: p.funcDecls.map FuncDecl.key).Nodup

namespace Program.Reorders

variable {p p' q q' : Program}

theorem funcDecls (h : p.Reorders p') : p'.funcDecls.Perm p.funcDecls :=
  h.functions.filterMap _

/-! What is known of two records whose programs have their functions in different orders. -/

variable (h : q.erase.Reorders q'.erase)

include h

theorem funcDecls_erase :
    (q'.funcDecls.map FuncDecl.erase).Perm (q.funcDecls.map FuncDecl.erase) := by
  rw [← Program.funcDecls_erase, ← Program.funcDecls_erase]
  exact h.funcDecls

theorem keys_perm : (q'.funcDecls.map FuncDecl.key).Perm (q.funcDecls.map FuncDecl.key) := by
  have hkeys := h.funcDecls_erase.map FuncDecl.key
  rwa [List.map_map, List.map_map] at hkeys

theorem blocks_perm : (q'.funcDecls.map FuncDecl.block).Perm (q.funcDecls.map FuncDecl.block) := by
  have hblocks := h.funcDecls_erase.map FuncDecl.block
  have hsame : FuncDecl.block ∘ FuncDecl.erase = FuncDecl.block := funext FuncDecl.block_erase
  rwa [List.map_map, List.map_map, hsame] at hblocks

theorem nodup_keys : (Analyzer.printSignature.key :: q.funcDecls.map FuncDecl.key).Nodup := by
  have hdistinct := h.distinct
  rwa [Program.funcDecls_erase, List.map_map] at hdistinct

/-- Functions that are known alike were written alike. -/
theorem erase_eq {d d' : FuncDecl} (hd : d ∈ q.funcDecls) (hd' : d' ∈ q'.funcDecls)
    (hkey : d'.key = d.key) : d'.erase = d.erase := by
  have hnodup := (List.nodup_cons.mp h.distinct).2
  rw [Program.funcDecls_erase] at hnodup
  exact List.inj_on_of_nodup_map hnodup (h.funcDecls_erase.mem_iff.mp (List.mem_map_of_mem hd'))
    (List.mem_map_of_mem hd) hkey

end Program.Reorders

/-- Whether a record is another one with other numbers of declarations and with its functions in
another order. -/
structure Program.Renumbers (ρ : Nat → Nat) (q q' : Program) : Prop where
  builtin : ρ 0 = 0
  globals : q'.globals = q.globals.map (Global.renumber ρ)
  functions : q'.functions.Perm (q.functions.map (Func.renumber ρ))

section Records

variable {ρ : Nat → Nat} {q q' : Program} {Γ₁ Δ₁ : Context}

/-- Whether the numbers of each function are moved to those that it has in another record. -/
def Program.Moves (ρ : Nat → Nat) (q q' : Program) : Prop :=
  ∀ d ∈ q.funcDecls, ∀ d' ∈ q'.funcDecls, d'.key = d.key → ∀ {Γ Γ' Δ Δ' : Context},
    d.Typed Γ Γ' → d'.Typed Δ Δ' → ∀ i, Γ.next + i < Γ'.next → ρ (Γ.next + i) = Δ.next + i

variable (hre : q.erase.Reorders q'.erase) (hfs : Func.ListTyped Γ₁ q.functions Γ)
  (hfs' : Func.ListTyped Δ₁ q'.functions Δ)

include hre hfs hfs'

/-- There are numbers for all functions in another order. -/
theorem Program.exists_moves (hnext : Δ₁.next = Γ₁.next) :
    ∃ ρ : Equiv.Perm Nat, (∀ i < Γ₁.next, ρ i = i) ∧ q.Moves ρ q' := by
  have hkeys := (List.nodup_cons.mp hre.nodup_keys).2
  have hkeys' := hre.keys_perm.nodup_iff.mpr hkeys
  have hfirst : ((q.funcDecls.map FuncDecl.block).map Prod.fst).Nodup := by
    rw [List.map_map]
    exact hkeys
  obtain ⟨ρ, hfix, hmove⟩ := exists_shuffle hre.blocks_perm.symm hfirst Γ₁.next
  refine ⟨ρ, hfix, fun d hd d' hd' hkey Γ Γ' Δ Δ' h h' i hi => ?_⟩
  rw [h.next_eq] at hi
  rw [hfs.next_of_mem h hkeys (Program.mem_funcDecls.mp hd),
    hfs'.next_of_mem h' hkeys' (Program.mem_funcDecls.mp hd'), hkey, hnext]
  exact hmove d.key d.width (List.mem_map_of_mem hd) i (by omega)

/-- Signatures that are known alike are the same up to the numbers. -/
theorem Program.Moves.signature_eq (hmoves : q.Moves ρ q') (hzero : ρ 0 = 0) {f g : Signature}
    (hf : f ∈ Analyzer.printSignature :: q.declaredFunctions)
    (hg : g ∈ Analyzer.printSignature :: q'.declaredFunctions) (hkey : g.key = f.key) :
    g = f.renumber ρ := by
  have hbuiltin := (List.nodup_cons.mp hre.nodup_keys).1
  have hbuiltin' : Analyzer.printSignature.key ∉ q'.funcDecls.map FuncDecl.key := fun hmem =>
    hbuiltin (hre.keys_perm.mem_iff.mp hmem)
  have hown {d : FuncDecl} {s : Signature} {Γ Γ' : Context} (hd : d.Typed Γ Γ')
      (hs : d.signature = some s) : s.key = d.key := by
    obtain ⟨t, ht, hkey, -⟩ := hd.exists_signature
    cases hs.symm.trans ht
    exact hkey
  rcases List.mem_cons.mp hf with rfl | hf
  · rcases List.mem_cons.mp hg with rfl | hg
    · exact (Analyzer.renumber_printSignature hzero).symm
    · obtain ⟨d', hd', hslot'⟩ := Program.exists_of_mem_declaredFunctions hg
      obtain ⟨_, _, h', -⟩ := hfs'.typed_of_mem (Program.mem_funcDecls.mp hd')
      exact absurd (hkey ▸ hown h' hslot' ▸ List.mem_map_of_mem hd') hbuiltin'
  · obtain ⟨d, hd, hslot⟩ := Program.exists_of_mem_declaredFunctions hf
    obtain ⟨Γ, Γ', h, -⟩ := hfs.typed_of_mem (Program.mem_funcDecls.mp hd)
    rcases List.mem_cons.mp hg with rfl | hg
    · exact absurd (hkey ▸ hown h hslot ▸ List.mem_map_of_mem hd) hbuiltin
    · obtain ⟨d', hd', hslot'⟩ := Program.exists_of_mem_declaredFunctions hg
      obtain ⟨Δ, Δ', h', -⟩ := hfs'.typed_of_mem (Program.mem_funcDecls.mp hd')
      have hkey : d'.key = d.key := by rw [← hown h' hslot', hkey, hown h hslot]
      have hnext := hmoves d hd d' hd' hkey h h' 0 (by rw [h.next_eq, FuncDecl.width]; omega)
      have hsame := h.signature_renumber h' (hre.erase_eq hd hd' hkey) hnext
      rw [hslot, hslot'] at hsame
      exact Option.some.inj hsame

/-- **Functions that are known alike are the same up to the numbers**, if the globals are. -/
theorem Program.Moves.functions_perm (hmoves : q.Moves ρ q') (hzero : ρ 0 = 0)
    (hfuns : Γ.funs = (Analyzer.printSignature :: q.declaredFunctions).reverse)
    (hfuns' : Δ.funs = (Analyzer.printSignature :: q'.declaredFunctions).reverse)
    (hvars : Δ₁.vars = Γ₁.vars.map (Variable.renumber ρ)) :
    q'.functions.Perm (q.functions.map (Func.renumber ρ)) := by
  have hdecls : q'.funcDecls.Perm (q.funcDecls.map (FuncDecl.renumber ρ)) := by
    refine perm_map_of_perm hre.funcDecls_erase fun d hd d' hd' herase => ?_
    obtain ⟨Γ₂, Γ₃, h, hvarsd, hfunsd⟩ := hfs.typed_of_mem (Program.mem_funcDecls.mp hd)
    obtain ⟨Δ₂, Δ₃, h', hvarsd', hfunsd'⟩ := hfs'.typed_of_mem (Program.mem_funcDecls.mp hd')
    have hkey : d'.erase.key = d.erase.key := by rw [herase]
    refine h.renumber h' herase ?_ (fun k n f g hf hg => ?_) (hmoves d hd d' hd' hkey h h')
    · rw [hvarsd, hvarsd', hvars]
    · -- the functions that a call means in both contexts have one name and arity
      obtain ⟨hf, hknown⟩ := Context.key_of_findFunction? hf
      obtain ⟨hg, hknown'⟩ := Context.key_of_findFunction? hg
      have hf := hfunsd f hf
      have hg := hfunsd' g hg
      rw [hfuns, List.mem_reverse] at hf
      rw [hfuns', List.mem_reverse] at hg
      exact hmoves.signature_eq hre hfs hfs' hzero hf hg (hknown'.trans hknown.symm)
  rw [hfs.functions_eq, hfs'.functions_eq, List.map_map]
  have hfunctions := hdecls.map Func.decl
  rwa [List.map_map] at hfunctions

end Records

/-- **Two records of a program whose functions are in different orders are the same** up to a
permutation of the numbers of declarations. -/
theorem Program.Typed.exists_renumbers {q q' : Program} (h : q.Typed Γ) (h' : q'.Typed Δ)
    (hre : q.erase.Reorders q'.erase) : ∃ ρ : Equiv.Perm Nat, q.Renumbers ρ q' := by
  obtain ⟨-, hfuns⟩ := h.context
  obtain ⟨-, hfuns'⟩ := h'.context
  obtain @⟨Γ₁, _, hgs, hfs⟩ := h
  obtain @⟨Δ₁, _, hgs', hfs'⟩ := h'
  have herase : q'.globals.map Global.erase = q.globals.map Global.erase := hre.globals
  have hlen : q'.globals.length = q.globals.length := by
    rw [← List.length_map Global.erase, herase, List.length_map]
  have hone : Γ₁.next = 1 + q.globals.length := hgs.next_eq
  have hnext : Δ₁.next = Γ₁.next := by rw [hone, hgs'.next_eq, hlen]; rfl
  obtain ⟨ρ, hfix, hmoves⟩ := Program.exists_moves hre hfs hfs' hnext
  have hzero : ρ 0 = 0 := hfix 0 (by omega)
  have hstart : Context.start.Matches ρ Γ₁.next .start := by
    refine ⟨rfl, fun k n f g hf hg => ?_, fun i hi => hfix _ hi⟩
    obtain rfl := List.mem_singleton.mp (List.mem_of_find?_eq_some hf)
    obtain rfl := List.mem_singleton.mp (List.mem_of_find?_eq_some hg)
    exact (Analyzer.renumber_printSignature hzero).symm
  obtain ⟨hglobals, hmatches⟩ := hgs.renumber hgs' herase hstart le_rfl
  exact ⟨ρ, hzero, hglobals, hmoves.functions_perm hre hfs hfs' hzero hfuns hfuns' hmatches.vars⟩

/-! ### What names mean in the end -/

theorem find?_eq_of_perm {α : Type} {P : α → Bool} {as bs : List α} (h : as.Perm bs)
    (hP : ∀ a ∈ as, ∀ b ∈ as, P a = true → P b = true → a = b) : as.find? P = bs.find? P := by
  induction h with
  | nil => rfl
  | @cons a as bs _ ih =>
    rw [List.find?_cons, List.find?_cons]
    cases P a with
    | true => rfl
    | false =>
      exact ih fun b hb c hc => hP b (List.mem_cons_of_mem _ hb) c (List.mem_cons_of_mem _ hc)
  | swap a b as =>
    simp only [List.find?_cons]
    cases ha : P a with
    | false => rfl
    | true =>
      cases hb : P b with
      | false => rfl
      | true =>
        have hba : b = a := hP b List.mem_cons_self a
          (List.mem_cons_of_mem _ List.mem_cons_self) hb ha
        rw [hba]
  | trans h₁ _ ih₁ ih₂ =>
    rw [ih₁ hP, ih₂ fun a ha b hb => hP a (h₁.mem_iff.mpr ha) b (h₁.mem_iff.mpr hb)]

theorem Func.ListTyped.keys_eq : ∀ {fs : List Func} {Γ Γ' : Context}, Func.ListTyped Γ fs Γ' →
    (fs.filterMap Func.declared?).map Signature.key =
      (Program.funcDecls ⟨[], fs⟩).map FuncDecl.key
  | _, _, _, .nil => rfl
  | _, _, _, .cons hd hfs => by
    obtain ⟨f, hf, hkey, -⟩ := hd.exists_signature
    rw [List.filterMap_cons_some (by exact hf), List.map_cons, hkey, hfs.keys_eq]
    rfl

namespace Program.Renumbers

variable {ρ : Nat → Nat} {q q' : Program} (h : q.Renumbers ρ q')

include h

theorem declaredGlobals_eq :
    q'.declaredGlobals = q.declaredGlobals.map (Variable.renumber ρ) := by
  rw [Program.declaredGlobals, h.globals, List.filterMap_map, Program.declaredGlobals,
    List.map_filterMap]
  refine List.filterMap_congr fun g _ => ?_
  cases g <;> rfl

theorem signatures_perm : (Analyzer.printSignature :: q'.declaredFunctions).Perm
    ((Analyzer.printSignature :: q.declaredFunctions).map (Signature.renumber ρ)) := by
  rw [List.map_cons, Analyzer.renumber_printSignature h.builtin]
  have hperm := h.functions.filterMap Func.declared?
  rw [List.filterMap_map] at hperm
  refine (hperm.trans (.of_eq ?_)).cons _
  rw [Program.declaredFunctions, List.map_filterMap]
  refine List.filterMap_congr fun f _ => ?_
  cases f <;> rfl

/-- A name means the same variable up to the numbers. -/
theorem find?_globals (k : Key) :
    (q'.declaredGlobals.reverse.find? fun v => v.name.isKnownAs k) =
      (q.declaredGlobals.reverse.find? fun v => v.name.isKnownAs k).map
        (Variable.renumber ρ) := by
  rw [h.declaredGlobals_eq, ← List.map_reverse, List.find?_map]
  rfl

/-- A name and arity mean the same function up to the numbers, if no function hides another. -/
theorem find?_signatures
    (hkeys : ((Analyzer.printSignature :: q.declaredFunctions).map Signature.key).Nodup)
    (k : Key) (n : Nat) :
    ((Analyzer.printSignature :: q'.declaredFunctions).reverse.find? fun f =>
        f.name.isKnownAs k && f.arity = n) =
      ((Analyzer.printSignature :: q.declaredFunctions).reverse.find? fun f =>
        f.name.isKnownAs k && f.arity = n).map (Signature.renumber ρ) := by
  have hperm := ((List.reverse_perm _).trans h.signatures_perm).trans
    ((List.reverse_perm (Analyzer.printSignature :: q.declaredFunctions)).map
      (Signature.renumber ρ)).symm
  rw [find?_eq_of_perm hperm, List.find?_map]
  · rfl
  · intro f hf g hg hfk hgk
    have hnodup : ((Analyzer.printSignature :: q'.declaredFunctions).map Signature.key).Nodup := by
      have hsame := h.signatures_perm.map Signature.key
      rw [List.map_map] at hsame
      exact hsame.nodup_iff.mpr hkeys
    exact List.inj_on_of_nodup_map hnodup (List.mem_reverse.mp hf) (List.mem_reverse.mp hg)
      ((Signature.key_eq_iff.mp hfk).trans (Signature.key_eq_iff.mp hgk).symm)

end Program.Renumbers

end Scriptlet
