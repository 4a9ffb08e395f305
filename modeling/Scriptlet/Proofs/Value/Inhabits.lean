import Scriptlet.Value.Operators

/-! # The values of a type

A value inhabits a type relative to a heap, since a list is an address and its items stand in the
heap. `Integer` and `Decimal` are both inhabited by every finite number, because arithmetic turns
integers into decimals; `Any` is inhabited by every value of the language. Data that no literal
denotes inhabits nothing.

* `inhabits_any`: whatever inhabits a type inhabits `Any`.
* `inhabits_of_assignable`: values of a type inhabit all types above it. -/

namespace Scriptlet

namespace Value

/-- Whether a value is a number and finite. -/
def IsFinite : Value → Prop
  | .int _ => True
  | .decimal d => d.isFinite
  | _ => False

/-- Whether a value is a character, which has a text. -/
def IsCharacter (v : Value) : Prop :=
  ∃ s, v = .char (.str s)

/-- Whether a value is a string. -/
def IsString (v : Value) : Prop :=
  ∃ s, v = .string s

/-- A finite number is an integer or a finite decimal. -/
theorem IsFinite.cases {v : Value} (h : v.IsFinite) :
    (∃ n, v = .int n) ∨ ∃ neg c e, v = .decimal (.finite neg c e) := by
  cases v with
  | int n => exact Or.inl ⟨n, rfl⟩
  | decimal d =>
    cases d with
    | finite neg c e => exact Or.inr ⟨neg, c, e, rfl⟩
    | infinite neg => simp [IsFinite, Decimal.isFinite] at h
    | nan neg s p => simp [IsFinite, Decimal.isFinite] at h
  | _ => exact h.elim

theorem IsFinite.number {v : Value} (h : v.IsFinite) :
    ∃ neg c e, v.number? = some (.finite neg c e) := by
  rcases h.cases with ⟨n, rfl⟩ | ⟨neg, c, e, rfl⟩
  · exact ⟨_, _, _, rfl⟩
  · exact ⟨neg, c, e, rfl⟩

end Value

/-- Whether a value belongs to the language and to a heap: lists have their items there, characters
have a text, and nothing is foreign. -/
def Heap.Owns (h : Heap) : Value → Prop
  | .list a => a < h.cells.size
  | .char (.str _) => True
  | .char _ => False
  | .foreign _ => False
  | _ => True

/-- Whether all items of all lists belong to the heap. -/
def Heap.IsClosed (h : Heap) : Prop :=
  ∀ a, ∀ v ∈ h.items a, h.Owns v

namespace Ty

/-- Whether a value inhabits a type. -/
def Inhabits (h : Heap) : Ty → Value → Prop
  | .any, v => h.Owns v
  | .nil, v => v = .nil
  | .boolean, v => ∃ b, v = .bool b
  | .comparable, v => v.IsFinite ∨ v.IsCharacter ∨ v.IsString
  | .integer, v => v.IsFinite
  | .decimal, v => v.IsFinite
  | .character, v => v.IsCharacter
  | .string, v => v.IsString
  | .list t, v => ∃ a, v = .list a ∧ a < h.cells.size ∧ ∀ x ∈ h.items a, t.Inhabits h x

theorem owns_of_isFinite {h : Heap} {v : Value} (hv : v.IsFinite) : h.Owns v := by
  rcases hv.cases with ⟨n, rfl⟩ | ⟨neg, c, e, rfl⟩ <;> trivial

/-- Whatever inhabits a type is a value of the language. -/
theorem inhabits_any {h : Heap} {t : Ty} {v : Value} (hv : t.Inhabits h v) :
    Ty.any.Inhabits h v := by
  cases t with
  | any => exact hv
  | nil => rw [show v = .nil from hv]; trivial
  | boolean => obtain ⟨b, rfl⟩ := hv; trivial
  | comparable =>
    rcases hv with hv | ⟨s, rfl⟩ | ⟨s, rfl⟩
    · exact owns_of_isFinite hv
    · trivial
    · trivial
  | integer => exact owns_of_isFinite hv
  | decimal => exact owns_of_isFinite hv
  | character => obtain ⟨s, rfl⟩ := hv; trivial
  | string => obtain ⟨s, rfl⟩ := hv; trivial
  | list t => obtain ⟨a, rfl, ha, -⟩ := hv; exact ha

/-- **Values of a type inhabit all types above it.** -/
theorem inhabits_of_assignable {h : Heap} {t s : Ty} {v : Value} (hts : t.assignable s = true)
    (hv : s.Inhabits h v) : t.Inhabits h v := by
  rcases assignable_iff.mp hts with rfl | rfl | ⟨rfl, rfl | rfl | rfl | rfl⟩
  · exact inhabits_any hv
  · exact hv
  · exact Or.inl hv
  · exact Or.inl hv
  · exact Or.inr (Or.inl hv)
  · exact Or.inr (Or.inr hv)

end Ty

end Scriptlet
