/-! # Powers of ten and two

The powers by which decimal and binary numbers are scaled. -/

namespace Scriptlet

/-- Ten to a power. -/
def tenTo (k : Nat) : Nat :=
  Nat.pow 10 k

/-- Two to a power. -/
def twoTo (k : Nat) : Nat :=
  Nat.pow 2 k

@[simp] theorem tenTo_zero : tenTo 0 = 1 := rfl

theorem tenTo_succ (k : Nat) : tenTo (k + 1) = tenTo k * 10 := rfl

theorem tenTo_pos (k : Nat) : 0 < tenTo k := by
  induction k with
  | zero => decide
  | succ k ih =>
    rw [tenTo_succ]
    exact Nat.mul_pos ih (by decide)

end Scriptlet
