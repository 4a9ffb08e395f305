import Mathlib.Data.List.Perm.Subperm
import Mathlib.Logic.Relation
import Scriptlet.Proofs.Value.Inhabits

/-! # What values contain, and when they have a text

A value contains itself and whatever its items contain. A list of the language can come to contain
itself; a value is *founded* if it contains no such list. Rendering walks down to a bound that no
founded value reaches, because the lists on the way down are pairwise different.

* `IsFounded.nestsWithin`: lists in a founded value are nested within the bound.
* `render_closed`: in a closed heap a value is rendered as a text, or it contains an integer with
  too many digits.
* `render_eq_error_iff`: for founded values, exactly those that contain such an integer have no
  text. -/

namespace Scriptlet

namespace Heap

variable {h : Heap}

/-- Whether a value is a list that has another value among its items. -/
def HasItem (h : Heap) (v x : Value) : Prop :=
  ∃ a, v = .list a ∧ x ∈ h.items a

/-- Whether a value is another one or contains it. -/
def Contains (h : Heap) : Value → Value → Prop :=
  Relation.ReflTransGen h.HasItem

/-- Whether a value contains no list that contains itself. -/
def IsFounded (h : Heap) (v : Value) : Prop :=
  ∀ w, h.Contains v w → ¬ Relation.TransGen h.HasItem w w

/-- Whether a value contains an integer that has too many digits to be written. -/
def IsUnwritable (h : Heap) (v : Value) : Prop :=
  ∃ n : Int, h.Contains v (.int n) ∧ tenTo Text.maxDigits ≤ n.natAbs

theorem IsFounded.item {v x : Value} (hv : h.IsFounded v) (hx : h.HasItem v x) : h.IsFounded x :=
  fun w hw => hv w (.head hx hw)

theorem IsUnwritable.of_item {v x : Value} (hx : h.HasItem v x) (hu : h.IsUnwritable x) :
    h.IsUnwritable v := by
  obtain ⟨n, hn, hlong⟩ := hu
  exact ⟨n, .head hx hn, hlong⟩

/-- What contains an integer is that integer, or a list with an item that contains it. -/
theorem contains_int {v : Value} {n : Int} (hv : h.Contains v (.int n)) :
    v = .int n ∨ ∃ x, h.HasItem v x ∧ h.Contains x (.int n) := by
  rcases hv.cases_head with rfl | ⟨x, hx, hc⟩
  · exact Or.inl rfl
  · exact Or.inr ⟨x, hx, hc⟩

theorem lt_size_of_mem_items {a : Nat} {x : Value} (hx : x ∈ h.items a) : a < h.cells.size := by
  by_contra hn
  rw [items, Array.getElem?_eq_none (by omega)] at hx
  simp at hx

/-! ### How deeply lists are nested -/

/-- Whether lists in a value are nested at most so deep. -/
def NestsWithin (h : Heap) : Nat → Value → Prop
  | 0, v => ∀ a, v ≠ .list a
  | d + 1, v => ∀ x, h.HasItem v x → h.NestsWithin d x

/-- The lists on the way down from a founded value are different lists of the heap, so there are no
more of them than the heap has. -/
theorem length_le_size {path : List Nat} (hnd : path.Nodup) (hlt : ∀ a ∈ path, a < h.cells.size) :
    path.length ≤ h.cells.size := by
  have hsub : path ⊆ List.range h.cells.size := fun a ha => List.mem_range.mpr (hlt a ha)
  simpa using (List.subperm_of_subset hnd hsub).length_le

/-- The path lists the addresses that were passed on the way down to a value; each of them contains
the value, so that a founded value meets none of them again. -/
theorem nestsWithin_of_path : ∀ (d : Nat) (path : List Nat) (v : Value), path.Nodup →
    (∀ a ∈ path, a < h.cells.size ∧ Relation.TransGen h.HasItem (.list a) v) →
    h.cells.size + 1 ≤ d + path.length → h.IsFounded v → h.NestsWithin d v := by
  intro d
  induction d with
  | zero =>
    intro path v hnd hpath hlen _
    have := length_le_size hnd fun a ha => (hpath a ha).1
    omega
  | succ d ih =>
    rintro path v hnd hpath hlen hf x ⟨a, rfl, hx⟩
    have hitem : h.HasItem (.list a) x := ⟨a, rfl, hx⟩
    have hfresh : a ∉ path := fun ha => hf _ .refl (hpath a ha).2
    refine ih (a :: path) x (List.nodup_cons.mpr ⟨hfresh, hnd⟩) ?_
      (by simp only [List.length_cons]; omega) (hf.item hitem)
    intro b hb
    rcases List.mem_cons.mp hb with rfl | hb
    · exact ⟨lt_size_of_mem_items hx, .single hitem⟩
    · exact ⟨(hpath b hb).1, .tail (hpath b hb).2 hitem⟩

/-- **Walks over a founded value end before the bound on their depth.** -/
theorem IsFounded.nestsWithin {v : Value} (hv : h.IsFounded v) : h.NestsWithin h.depth v :=
  nestsWithin_of_path h.depth [] v List.nodup_nil (by simp) (by simp [depth]) hv

/-! ### Walks over lists -/

/-- A walk over a list that can fail gives all results, or the failure of some item. -/
theorem mapM_cases {α β ε : Type} {f : α → Except ε β} {P : β → Prop} {E : α → ε → Prop} :
    ∀ xs : List α,
      (∀ x ∈ xs, (∃ y, f x = .ok y ∧ P y) ∨ ∃ e, f x = .error e ∧ E x e) →
      (∃ ys, xs.mapM f = .ok ys ∧ ∀ y ∈ ys, P y) ∨ ∃ x ∈ xs, ∃ e, xs.mapM f = .error e ∧ E x e
  | [], _ => Or.inl ⟨[], rfl, by simp⟩
  | x :: xs, hf => by
    rw [List.mapM_cons]
    rcases hf x (by simp) with ⟨y, hy, hP⟩ | ⟨e, he, hE⟩
    · rcases mapM_cases xs (fun z hz => hf z (by simp [hz])) with
        ⟨ys, hys, hPs⟩ | ⟨z, hz, e, he, hE⟩
      · refine Or.inl ⟨y :: ys, by rw [hy, hys]; rfl, fun z hz => ?_⟩
        rcases List.mem_cons.mp hz with rfl | hz
        · exact hP
        · exact hPs z hz
      · exact Or.inr ⟨z, by simp [hz], e, by rw [hy, he]; rfl, hE⟩
    · exact Or.inr ⟨x, by simp, e, by rw [he]; rfl, hE⟩

/-- A walk over a list fails if it fails at some item. -/
theorem mapM_fails {α β ε : Type} {f : α → Except ε β} {x : α} :
    ∀ {xs : List α}, x ∈ xs → (∃ e, f x = .error e) → ∃ e, xs.mapM f = .error e
  | y :: ys, hx, ⟨e, he⟩ => by
    rw [List.mapM_cons]
    rcases List.mem_cons.mp hx with rfl | hx
    · exact ⟨e, by rw [he]; rfl⟩
    · cases hy : f y with
      | error e' => exact ⟨e', rfl⟩
      | ok z =>
        obtain ⟨e', he'⟩ := mapM_fails hx ⟨e, he⟩
        exact ⟨e', by rw [he']; rfl⟩

/-- Texts are joined without a failure. -/
theorem joined_texts {items : List Json} (hs : ∀ j ∈ items, ∃ s, j = .str s) :
    ∃ t, joined items = .ok t := by
  have texts_ok : ∀ (items : List Json) (i : Nat), (∀ j ∈ items, ∃ s, j = .str s) →
      ∃ ts, joined.texts i items = .ok ts := by
    intro items
    induction items with
    | nil => exact fun _ _ => ⟨[], rfl⟩
    | cons j items ih =>
      intro i hs
      obtain ⟨s, rfl⟩ := hs j (by simp)
      obtain ⟨ts, hts⟩ := ih (i + 1) (fun j hj => hs j (by simp [hj]))
      exact ⟨s :: ts, by rw [joined.texts, hts]; rfl⟩
  obtain ⟨ts, hts⟩ := texts_ok items 0 hs
  exact ⟨_, by rw [joined, hts]; rfl⟩

/-! ### Rendering -/

theorem renderAt_int (d : Nat) (n : Int) :
    h.renderAt d (.int n) = (showInt n).map fun s => .str (.plain s) := by
  cases d <;> rfl

theorem renderAt_list (d a : Nat) :
    h.renderAt (d + 1) (.list a) =
      ((h.items a).toList.mapM (h.renderAt d)).bind fun items =>
        (joined items).bind fun t => .ok (.str ("[" ++ t ++ "]")) := rfl

theorem showInt_cases (n : Int) :
    (n.natAbs < tenTo Text.maxDigits ∧ showInt n = .ok (toString n)) ∨
      (tenTo Text.maxDigits ≤ n.natAbs ∧ showInt n = .error .tooManyDigits) := by
  unfold showInt
  split_ifs with hn
  · exact Or.inl ⟨hn, rfl⟩
  · exact Or.inr ⟨Nat.not_lt.mp hn, rfl⟩

theorem showInt_long {n : Int} (hn : tenTo Text.maxDigits ≤ n.natAbs) :
    showInt n = .error .tooManyDigits := by
  rcases showInt_cases n with ⟨hlt, -⟩ | ⟨-, herr⟩
  · exact absurd hn (Nat.not_le.mpr hlt)
  · exact herr

/-- What rendering may come to: a text, or the failure of too long an integer. -/
def RendersAt (h : Heap) (d : Nat) (v : Value) : Prop :=
  (∃ j, h.renderAt d v = .ok j ∧ ∃ s, j = .str s) ∨
    ∃ f, h.renderAt d v = .error f ∧ f = .tooManyDigits ∧ h.IsUnwritable v

theorem rendersAt_int (d : Nat) (n : Int) : h.RendersAt d (.int n) := by
  rcases showInt_cases n with ⟨-, hn⟩ | ⟨hlong, hn⟩
  · exact Or.inl ⟨.str (toString n), by rw [renderAt_int, hn]; rfl, _, rfl⟩
  · exact Or.inr ⟨.tooManyDigits, by rw [renderAt_int, hn]; rfl, rfl, n, .refl, hlong⟩

theorem rendersAt_list {d a : Nat} (hitems : ∀ x ∈ h.items a, h.RendersAt d x) :
    h.RendersAt (d + 1) (.list a) := by
  rcases mapM_cases (h.items a).toList (fun x hx => hitems x (by simpa using hx)) with
    ⟨js, hjs, htexts⟩ | ⟨x, hx, f, hf, rfl, hu⟩
  · obtain ⟨t, ht⟩ := joined_texts htexts
    exact Or.inl ⟨_, by rw [renderAt_list, hjs, Except.bind, ht]; rfl, _, rfl⟩
  · refine Or.inr ⟨.tooManyDigits, by rw [renderAt_list, hf]; rfl, rfl, ?_⟩
    exact hu.of_item ⟨a, rfl, by simpa using hx⟩

theorem rendersAt_of_owns (hc : h.IsClosed) :
    ∀ (d : Nat) (v : Value), h.Owns v → h.RendersAt d v := by
  intro d
  induction d with
  | zero =>
    intro v hv
    cases v with
    | int n => exact rendersAt_int 0 n
    | char j =>
      cases j with
      | str s => exact Or.inl ⟨_, rfl, s, rfl⟩
      | _ => exact hv.elim
    | foreign j => exact hv.elim
    | _ => exact Or.inl ⟨_, rfl, _, rfl⟩
  | succ d ih =>
    intro v hv
    cases v with
    | int n => exact rendersAt_int (d + 1) n
    | char j =>
      cases j with
      | str s => exact Or.inl ⟨_, rfl, s, rfl⟩
      | _ => exact hv.elim
    | foreign j => exact hv.elim
    | list a => exact rendersAt_list fun x hx => ih x (hc a x hx)
    | _ => exact Or.inl ⟨_, rfl, _, rfl⟩

/-- **In a closed heap a value is rendered as a text, unless it holds too long an integer.** -/
theorem render_closed (hc : h.IsClosed) {v : Value} (hv : h.Owns v) :
    (∃ s, h.render v = .ok (.str s)) ∨ h.render v = .error .tooManyDigits ∧ h.IsUnwritable v := by
  rcases rendersAt_of_owns hc h.depth v hv with ⟨j, hj, s, rfl⟩ | ⟨f, hf, rfl, hu⟩
  · exact Or.inl ⟨s, hj⟩
  · exact Or.inr ⟨hf, hu⟩

/-- Rendering a value that contains too long an integer fails, if its lists are not nested too
deeply. -/
theorem renderAt_fails : ∀ {d : Nat} {v : Value}, h.NestsWithin d v → h.IsUnwritable v →
    ∃ f, h.renderAt d v = .error f := by
  intro d
  induction d with
  | zero =>
    rintro v hv ⟨n, hn, hlong⟩
    rcases contains_int hn with rfl | ⟨x, ⟨a, rfl, -⟩, -⟩
    · exact ⟨.tooManyDigits, by rw [renderAt_int, showInt_long hlong]; rfl⟩
    · exact absurd rfl (hv a)
  | succ d ih =>
    rintro v hv ⟨n, hn, hlong⟩
    rcases contains_int hn with rfl | ⟨x, ⟨a, rfl, hx⟩, hxn⟩
    · exact ⟨.tooManyDigits, by rw [renderAt_int, showInt_long hlong]; rfl⟩
    · obtain ⟨f, hfail⟩ := ih (hv x ⟨a, rfl, hx⟩) ⟨n, hxn, hlong⟩
      have hmem : x ∈ (h.items a).toList := by simpa using hx
      obtain ⟨f, hf⟩ := mapM_fails (f := h.renderAt d) hmem ⟨f, hfail⟩
      exact ⟨f, by rw [renderAt_list, hf]; rfl⟩

/-- **A founded value of a closed heap has no text exactly if it contains too long an integer.** -/
theorem render_eq_error_iff (hc : h.IsClosed) {v : Value} (hv : h.Owns v) (hf : h.IsFounded v) :
    h.render v = .error .tooManyDigits ↔ h.IsUnwritable v := by
  constructor
  · intro herr
    rcases render_closed hc hv with ⟨s, hs⟩ | ⟨-, hu⟩
    · rw [hs] at herr; cases herr
    · exact hu
  · intro hu
    obtain ⟨f, hfail⟩ := renderAt_fails hf.nestsWithin hu
    rcases render_closed hc hv with ⟨s, hs⟩ | ⟨herr, -⟩
    · rw [render, hfail] at hs; cases hs
    · exact herr

end Heap

end Scriptlet
