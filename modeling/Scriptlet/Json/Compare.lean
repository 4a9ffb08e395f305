import Scriptlet.Json.Basic
import Scriptlet.Text.Integer

/-! # Comparing exchanged data

Data is compared by what it says: numbers by their values, whatever their kind, where true and false
count as one and zero; texts by their code points; sequences item by item; objects by the values of
their keys, in any order. Numbers, texts and sequences also have an order among themselves. -/

namespace Scriptlet

/-! ### Numbers -/

/-- A number by its value: every whole number has one form. -/
inductive Numeral where
  | whole (n : Int)
  /-- A binary number that is not whole: it has a fraction, or it is not finite. -/
  | other (x : Double)
  deriving DecidableEq, Repr

namespace Numeral

/-- The value of a binary number. -/
def ofDouble (x : Double) : Numeral :=
  match x.whole? with
  | some n => .whole n
  | none => .other x

/-- Where a number stands among minus infinity, all finite numbers and infinity. What is not a
number stands nowhere. -/
def rank? : Numeral → Option Int
  | .other .nan => none
  | .other (.infinite neg) => some (if neg then -1 else 1)
  | _ => some 0

/-- A finite number as an integer divided by a power of two. -/
def scaled : Numeral → Int × Nat
  | .whole n => (n, 0)
  | .other (.finite neg m e) => (if neg then -(m : Int) else m, (-e).toNat)
  | .other _ => (0, 0)

/-- Whether one number is less than another. -/
def less (a b : Numeral) : Bool :=
  match a.rank?, b.rank? with
  | some 0, some 0 => a.scaled.1 * twoTo b.scaled.2 < b.scaled.1 * twoTo a.scaled.2
  | some r, some s => r < s
  | _, _ => false

end Numeral

namespace Json

/-- The number that a value is. -/
def numeral? : Json → Option Numeral
  | .bool b => some (.whole b.toInt)
  | .int n => some (.whole n)
  | .float x => some (.ofDouble x)
  | _ => none

/-! ### Equality -/

mutual

/-- Whether two values say the same. -/
def same : Json → Json → Bool
  | .null, .null => true
  | .str a, .str b => a == b
  | .arr xs, .arr ys => sameItems xs ys
  | .obj fs, .obj gs => fs.length == gs.length && sameFields fs gs
  | a, b =>
    match a.numeral?, b.numeral? with
    | some x, some y => x == y
    | _, _ => false
termination_by structural j => j

/-- Whether two sequences have the same items. -/
def sameItems : List Json → List Json → Bool
  | [], [] => true
  | x :: xs, y :: ys => same x y && sameItems xs ys
  | _, _ => false
termination_by structural xs => xs

/-- Whether every field is the same in another object. -/
def sameFields : List (Text × Json) → List (Text × Json) → Bool
  | [], _ => true
  | (k, v) :: fs, gs =>
    (match field? gs k with
      | some w => same v w
      | none => false) && sameFields fs gs
termination_by structural fs => fs

end

/-- Whether two values are equal as operands. What is not a number differs from itself there, though
not as an item of something. -/
def equal : Json → Json → Bool
  | .float .nan, _ => false
  | a, b => a.same b

/-! ### Order -/

/-- The two questions about order. -/
inductive Comparison where
  | less
  | greater
  deriving DecidableEq, Repr

/-- The operator that asks a question. -/
def Comparison.symbol : Comparison → String
  | .less => "<"
  | .greater => ">"

/-- The answer to a question, from an answer to the first one. -/
def Comparison.ask {α : Type} (c : Comparison) (less : α → α → Bool) (a b : α) : Bool :=
  match c with
  | .less => less a b
  | .greater => less b a

/-- Two kinds of values that have no order. -/
structure Unordered where
  left : String
  right : String
  deriving DecidableEq, Repr

mutual

/-- Whether a value comes before or after another. -/
def compare (c : Comparison) : Json → Json → Except Unordered Bool
  | .str a, .str b => .ok (c.ask (fun x y => decide (x < y)) a b)
  | .arr xs, .arr ys => compareItems c xs ys
  | a, b =>
    match a.numeral?, b.numeral? with
    | some x, some y => .ok (c.ask Numeral.less x y)
    | _, _ => .error ⟨a.kindName, b.kindName⟩
termination_by structural j => j

/-- Whether a sequence comes before or after another: the first items that differ decide, and a
sequence comes after its beginnings. -/
def compareItems (c : Comparison) : List Json → List Json → Except Unordered Bool
  | [], [] => .ok false
  | [], _ :: _ => .ok (c = .less)
  | _ :: _, [] => .ok (c = .greater)
  | x :: xs, y :: ys => if same x y then compareItems c xs ys else compare c x y
termination_by structural xs => xs

end

/-! ### Size -/

mutual

/-- Whether a value holds an integer with more digits than are written. -/
def tooLong : Json → Bool
  | .int n => tenTo Text.maxDigits ≤ n.natAbs
  | .arr xs => itemsTooLong xs
  | .obj fs => fieldsTooLong fs
  | _ => false
termination_by structural j => j

/-- Whether an item holds an integer with too many digits. -/
def itemsTooLong : List Json → Bool
  | [] => false
  | x :: xs => tooLong x || itemsTooLong xs
termination_by structural xs => xs

/-- Whether a field holds an integer with too many digits. -/
def fieldsTooLong : List (Text × Json) → Bool
  | [] => false
  | (_, v) :: fs => tooLong v || fieldsTooLong fs
termination_by structural fs => fs

end

end Json

end Scriptlet
