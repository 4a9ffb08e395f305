/-! # Tables

A table maps keys to values and keeps its keys in the order in which they were first put in. -/

namespace Scriptlet

/-- A table with keys of type `κ` and values of type `α`. -/
structure Table (κ α : Type) where
  entries : List (κ × α) := []
  deriving Repr

namespace Table

variable {κ α : Type} [DecidableEq κ]

instance : Inhabited (Table κ α) := ⟨⟨[]⟩⟩

/-- The value of a key. -/
def get? (t : Table κ α) (k : κ) : Option α :=
  t.entries.lookup k

/-- Puts a value under a key in a list of entries. -/
def putEntry (k : κ) (a : α) : List (κ × α) → List (κ × α)
  | [] => [(k, a)]
  | (l, b) :: rest => if l = k then (k, a) :: rest else (l, b) :: putEntry k a rest

/-- Puts a value under a key; a key that is there keeps its place. -/
def insert (t : Table κ α) (k : κ) (a : α) : Table κ α :=
  ⟨putEntry k a t.entries⟩

@[simp] theorem get?_insert_self (t : Table κ α) (k : κ) (a : α) :
    (t.insert k a).get? k = some a := by
  obtain ⟨es⟩ := t
  simp only [insert, get?]
  induction es with
  | nil => simp [putEntry]
  | cons e es ih =>
    obtain ⟨l, b⟩ := e
    by_cases h : l = k
    · simp [putEntry, h]
    · have h' : (k == l) = false := by simp [Ne.symm h]
      simp [putEntry, h, List.lookup_cons, h', ih]

theorem get?_insert_of_ne (t : Table κ α) {k l : κ} (a : α) (h : l ≠ k) :
    (t.insert k a).get? l = t.get? l := by
  obtain ⟨es⟩ := t
  simp only [insert, get?]
  induction es with
  | nil => simp [putEntry, List.lookup_cons, show (l == k) = false by simp [h]]
  | cons e es ih =>
    obtain ⟨m, b⟩ := e
    by_cases hm : m = k
    · subst hm
      simp [putEntry, List.lookup_cons, show (l == m) = false by simp [h]]
    · simp [putEntry, hm, List.lookup_cons, ih]

end Table

end Scriptlet
