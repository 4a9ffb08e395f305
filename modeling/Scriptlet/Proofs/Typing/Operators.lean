import Mathlib.Tactic.SplitIfs
import Mathlib.Tactic.Tauto
import Scriptlet.Analysis.Rules

/-! # The typing rules of the operators

The rules for the results of binary operators, one rule for each family of operators, and the proof
that `binaryType` computes exactly the types that the rules give. -/

namespace Scriptlet

/-- The typing rules of the binary operators: `OperatorRule op l r t` says that `op` on operands of
types `l` and `r` gives the type `t`. -/
inductive OperatorRule : String → Ty → Ty → Ty → Prop where
  /-- Conjunction and disjunction are for booleans only. -/
  | logic {op : String} (hop : op = "&&" ∨ op = "||") :
    OperatorRule op .boolean .boolean .boolean
  /-- Both operands of a comparison have one and the same comparable type. -/
  | comparison {op : String} {t : Ty} (hop : op = "<" ∨ op = ">" ∨ op = "==" ∨ op = "!=")
    (ht : Ty.comparable.assignable t = true) : OperatorRule op t t .boolean
  /-- A string can be joined with anything, on either side. -/
  | concatenation {l r : Ty} (hlr : l = .string ∨ r = .string) : OperatorRule "+" l r .string
  /-- Numbers are added to numbers of the same type. -/
  | sum {t : Ty} (ht : t = .integer ∨ t = .decimal) : OperatorRule "+" t t t
  /-- The other arithmetic takes any two numbers and keeps the type of the left one. -/
  | arithmetic {op : String} {l r : Ty} (hop : op = "-" ∨ op = "*" ∨ op = "/" ∨ op = "%")
    (hl : l = .integer ∨ l = .decimal) (hr : r = .integer ∨ r = .decimal) : OperatorRule op l r l
  /-- Powers are for integers only. -/
  | power : OperatorRule "^" .integer .integer .integer

theorem Ty.isNumeric_iff {t : Ty} : t.isNumeric = true ↔ t = .integer ∨ t = .decimal := by
  simp [Ty.isNumeric]

theorem binaryType_of_rule {op : String} {l r t : Ty} (h : OperatorRule op l r t) :
    binaryType op l r = .ok t := by
  cases h with
  | logic hop => rcases hop with rfl | rfl <;> rfl
  | comparison hop ht =>
    rcases hop with rfl | rfl | rfl | rfl <;> simp [binaryType, ht]
  | concatenation hlr => rcases hlr with rfl | rfl <;> simp [binaryType]
  | sum ht => rcases ht with rfl | rfl <;> rfl
  | arithmetic hop hl hr =>
    rw [← Ty.isNumeric_iff] at hl hr
    rcases hop with rfl | rfl | rfl | rfl <;> simp [binaryType, hl, hr]
  | power => rfl

theorem rule_of_binaryType {op : String} {l r t : Ty} (h : binaryType op l r = .ok t) :
    OperatorRule op l r t := by
  unfold binaryType at h
  split_ifs at h with hlogic hbool hcomp hsame hplus hstr hnum harith hnums hpow hint
  · cases h
    simp only [Bool.or_eq_true, Bool.and_eq_true, decide_eq_true_eq] at hlogic hbool
    obtain ⟨rfl, rfl⟩ := hbool
    exact .logic hlogic
  · cases h
    simp only [Bool.or_eq_true, Bool.and_eq_true, decide_eq_true_eq] at hcomp hsame
    obtain ⟨hl, rfl⟩ := hsame
    exact .comparison (by tauto) hl
  · cases h
    simp only [Bool.or_eq_true, decide_eq_true_eq] at hstr
    rw [hplus]
    exact .concatenation hstr
  · cases h
    simp only [Bool.and_eq_true, decide_eq_true_eq] at hnum
    obtain ⟨hl, rfl⟩ := hnum
    rw [hplus]
    exact .sum (Ty.isNumeric_iff.mp hl)
  · cases h
    simp only [Bool.or_eq_true, decide_eq_true_eq] at harith
    rw [Bool.and_eq_true] at hnums
    exact .arithmetic (by tauto) (Ty.isNumeric_iff.mp hnums.1) (Ty.isNumeric_iff.mp hnums.2)
  · cases h
    simp only [Bool.and_eq_true, decide_eq_true_eq] at hint
    obtain ⟨rfl, rfl⟩ := hint
    rw [hpow]
    exact .power

/-- **The operators have exactly the types that the rules give.** -/
theorem binaryType_eq_ok_iff {op : String} {l r t : Ty} :
    binaryType op l r = .ok t ↔ OperatorRule op l r t :=
  ⟨rule_of_binaryType, binaryType_of_rule⟩

end Scriptlet
