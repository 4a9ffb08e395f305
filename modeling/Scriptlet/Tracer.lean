import Scriptlet.Failure

/-! # Tracing

A tracer says up to which level lines are traced and where they go. Standard error shows every text;
a file takes only plain ones. -/

namespace Scriptlet

/-- Where and up to which level lines are traced. -/
structure Tracer where
  level : Int
  /-- Whether lines go to a file instead of standard error. -/
  toFile : Bool
  deriving DecidableEq, Repr, Inhabited

namespace Tracer

/-- The tracer of a level that writes to standard error. -/
abbrev console (level : Int) : Tracer := ⟨level, false⟩

instance : Coe Int Tracer := ⟨console⟩

instance (level : Nat) : OfNat Tracer level := ⟨console level⟩

/-- A line as it is written. -/
def write (t : Tracer) (line : Text) : Except Failure String :=
  if t.toFile then line.written.mapError .unwritable else .ok line.shown

@[simp] theorem write_plain (t : Tracer) (line : String) : t.write line = .ok line := by
  unfold write
  split <;> rfl

/-- Only a text with half of a surrogate pair cannot be written. -/
theorem eq_unwritable_of_write {t : Tracer} {line : Text} {f : Failure}
    (h : t.write line = .error f) : ∃ flaw, f = .unwritable flaw := by
  unfold write at h
  split at h
  · cases line with
    | plain s => cases h
    | broken before half after =>
      cases h
      exact ⟨_, rfl⟩
  · cases h

end Tracer

end Scriptlet
