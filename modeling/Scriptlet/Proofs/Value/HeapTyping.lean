import Scriptlet.Proofs.Value.Containment
import Scriptlet.Proofs.Value.Inhabits

/-! # Types of lists

Lists are shared and change in place, so the type of a list is a property of its address and stays
for good. A heap typing gives the type of the elements for each address; a value fits a list type if
the typing gives that very type to its address. In a typed heap the items of every list fit the type
of its elements, and then fitting a type implies inhabiting it.

* `inhabits_of_fits`: values that fit a type inhabit it.
* `Typed.alloc`, `Typed.set`: new lists extend the typing, and changes of items respect it. -/

namespace Scriptlet

/-- Whether a value fits a type, given the types of the elements of all lists by address. -/
def Ty.Fits (τ : List Ty) (h : Heap) : Ty → Value → Prop
  | .list t, v => ∃ a, v = .list a ∧ τ[a]? = some t
  | t, v => t.Inhabits h v

/-- Whether the items of all lists fit the types of the elements. -/
structure Heap.Typed (τ : List Ty) (h : Heap) : Prop where
  length : τ.length = h.cells.size
  items : ∀ a t, τ[a]? = some t → ∀ x ∈ h.items a, t.Fits τ h x

namespace Ty

variable {τ τ' : List Ty} {h h' : Heap} {t s : Ty} {v : Value}

theorem lt_of_fits_list (hlen : τ.length = h.cells.size) {a : Nat} (ha : τ[a]? = some t) :
    a < h.cells.size := by
  rw [← hlen]
  exact (List.getElem?_eq_some_iff.mp ha).1

/-- A heap owns the values that fit a type. -/
theorem owns_of_fits (hlen : τ.length = h.cells.size) (hv : t.Fits τ h v) : h.Owns v := by
  cases t with
  | list t =>
    obtain ⟨a, rfl, ha⟩ := hv
    exact lt_of_fits_list hlen ha
  | _ => exact inhabits_any hv

/-- Values of a type fit all types above it. -/
theorem fits_of_assignable (hlen : τ.length = h.cells.size) (hts : t.assignable s = true)
    (hv : s.Fits τ h v) : t.Fits τ h v := by
  rcases assignable_iff.mp hts with rfl | rfl | ⟨rfl, rfl | rfl | rfl | rfl⟩
  · exact owns_of_fits hlen hv
  · exact hv
  · exact Or.inl hv
  · exact Or.inl hv
  · exact Or.inr (Or.inl hv)
  · exact Or.inr (Or.inr hv)

theorem owns_mono (hle : h.cells.size ≤ h'.cells.size) (hv : h.Owns v) : h'.Owns v := by
  cases v with
  | list a => exact Nat.lt_of_lt_of_le hv hle
  | char j =>
    cases j with
    | str s => trivial
    | _ => exact hv.elim
  | _ => exact hv

/-- Values keep fitting a type when lists are added. -/
theorem fits_mono (hτ : τ <+: τ') (hle : h.cells.size ≤ h'.cells.size) (hv : t.Fits τ h v) :
    t.Fits τ' h' v := by
  cases t with
  | any => exact owns_mono hle hv
  | list t =>
    obtain ⟨a, rfl, ha⟩ := hv
    obtain ⟨τ'', rfl⟩ := hτ
    exact ⟨a, rfl, by rw [List.getElem?_append_left (List.getElem?_eq_some_iff.mp ha).1, ha]⟩
  | _ => exact hv

/-- **Values that fit a type inhabit it.** -/
theorem inhabits_of_fits (hh : h.Typed τ) : ∀ {t : Ty} {v : Value}, t.Fits τ h v → t.Inhabits h v
  | .list t, v, hv => by
    obtain ⟨a, rfl, ha⟩ := hv
    refine ⟨a, rfl, lt_of_fits_list hh.length ha, fun x hx => ?_⟩
    exact inhabits_of_fits hh (hh.items a t ha x hx)
  | .any, _, hv => hv
  | .nil, _, hv => hv
  | .boolean, _, hv => hv
  | .comparable, _, hv => hv
  | .integer, _, hv => hv
  | .decimal, _, hv => hv
  | .character, _, hv => hv
  | .string, _, hv => hv

/-- Types other than those of lists are fitted by their values. -/
theorem fits_of_inhabits (ht : t.element? = none) (hv : t.Inhabits h v) : t.Fits τ h v := by
  cases t with
  | list t => cases ht
  | _ => exact hv

end Ty

namespace Heap

variable {τ : List Ty} {h : Heap} {t : Ty} {v : Value}

/-- A typed heap is closed. -/
theorem Typed.isClosed (hh : h.Typed τ) : h.IsClosed := by
  intro a x hx
  have ha : a < τ.length := by
    rw [hh.length]
    exact lt_size_of_mem_items hx
  exact Ty.owns_of_fits hh.length (hh.items a _ (List.getElem?_eq_getElem ha) x hx)

theorem Typed.empty : (({} : Heap)).Typed [] :=
  ⟨rfl, by simp⟩

theorem size_alloc (h : Heap) (vs : Array Value) :
    (h.alloc vs).2.cells.size = h.cells.size + 1 := by
  simp [alloc]

theorem items_alloc_self (h : Heap) (vs : Array Value) :
    (h.alloc vs).2.items h.cells.size = vs := by
  simp [alloc, items]

theorem items_alloc_of_lt {a : Nat} (vs : Array Value) (ha : a < h.cells.size) :
    (h.alloc vs).2.items a = h.items a := by
  simp [alloc, items, Array.getElem?_push, Nat.ne_of_lt ha]

/-- **A new list extends the typing by the type of its elements.** -/
theorem Typed.alloc (hh : h.Typed τ) {vs : List Value} (hvs : ∀ v ∈ vs, t.Fits τ h v) :
    (h.alloc vs.toArray).2.Typed (τ ++ [t]) ∧
      (Ty.list t).Fits (τ ++ [t]) (h.alloc vs.toArray).2 (.list h.cells.size) := by
  have hsize := size_alloc h vs.toArray
  have hpre : τ <+: τ ++ [t] := List.prefix_append _ _
  refine ⟨⟨by simp [hsize, hh.length], fun a u ha x hx => ?_⟩, _, rfl, ?_⟩
  · rcases Nat.lt_trichotomy a h.cells.size with hlt | rfl | hgt
    · rw [items_alloc_of_lt _ hlt] at hx
      rw [List.getElem?_append_left (by rw [hh.length]; exact hlt)] at ha
      exact Ty.fits_mono hpre (by omega) (hh.items a u ha x hx)
    · rw [items_alloc_self] at hx
      obtain rfl : t = u := by
        rw [← hh.length] at ha
        simpa using ha
      exact Ty.fits_mono hpre (by omega) (hvs x (by simpa using hx))
    · have := lt_size_of_mem_items hx
      omega
  · rw [← hh.length]
    simp

theorem size_set (h : Heap) (a k : Nat) (v : Value) : (h.set a k v).cells.size = h.cells.size := by
  simp [set]

theorem mem_items_set {a b k : Nat} {x : Value} (hx : x ∈ (h.set a k v).items b) :
    x ∈ h.items b ∨ b = a ∧ x = v := by
  unfold set items at hx
  rw [Array.getElem?_modify] at hx
  split_ifs at hx with hab
  · subst hab
    cases hcell : h.cells[a]? with
    | none => simp [hcell] at hx
    | some xs =>
      simp only [hcell, Option.map_some, Option.getD_some] at hx
      rcases Array.mem_or_eq_of_mem_setIfInBounds hx with hx | rfl
      · exact Or.inl (by simpa [items, hcell] using hx)
      · exact Or.inr ⟨rfl, rfl⟩
  · exact Or.inl hx

/-- **A list takes new items that fit the type of its elements.** -/
theorem Typed.set (hh : h.Typed τ) {a : Nat} (k : Nat) (ha : τ[a]? = some t)
    (hv : t.Fits τ h v) : (h.set a k v).Typed τ := by
  have hsize := size_set h a k v
  refine ⟨by rw [hsize, hh.length], fun b u hb x hx => ?_⟩
  refine Ty.fits_mono (List.prefix_refl τ) (Nat.le_of_eq hsize.symm) ?_
  rcases mem_items_set hx with hx | ⟨rfl, rfl⟩
  · exact hh.items b u hb x hx
  · cases ha.symm.trans hb
    exact hv

/-! ### Closed heaps -/

/-- A closed heap is one whose lists can all be lists of `Any`. -/
theorem IsClosed.typed (hc : h.IsClosed) : h.Typed (List.replicate h.cells.size .any) := by
  refine ⟨List.length_replicate, fun a u ha x hx => ?_⟩
  obtain rfl := List.eq_of_mem_replicate (List.mem_of_getElem? ha)
  exact hc a x hx

theorem IsClosed.alloc (hc : h.IsClosed) {vs : List Value} (hvs : ∀ v ∈ vs, h.Owns v) :
    (h.alloc vs.toArray).2.IsClosed :=
  (hc.typed.alloc (t := .any) hvs).1.isClosed

theorem IsClosed.set (hc : h.IsClosed) {a : Nat} (k : Nat) (ha : a < h.cells.size)
    (hv : h.Owns v) : (h.set a k v).IsClosed := by
  have hany : (List.replicate h.cells.size Ty.any)[a]? = some .any := by
    rw [List.getElem?_replicate, if_pos ha]
  exact (hc.typed.set k hany hv).isClosed

end Heap

end Scriptlet
