/-! # Texts

A text is a sequence of code points. Every code point of a program text is a character. The escapes
of exchanged data can also make one that is half of a surrogate pair and stands for no character; a
text with such a half is broken there. No file takes a broken text. -/

namespace Scriptlet

/-- Half of a surrogate pair. -/
structure Half where
  code : Nat
  least : 0xD800 ≤ code
  greatest : code ≤ 0xDFFF
  deriving DecidableEq, Repr

/-- A code point of a text. -/
inductive CodePoint where
  | char (c : Char)
  | half (h : Half)
  deriving DecidableEq, Repr

/-- The code point of a number. -/
def CodePoint.ofCode (n : Nat) : CodePoint :=
  if h : 0xD800 ≤ n ∧ n ≤ 0xDFFF then .half ⟨n, h.1, h.2⟩ else .char (Char.ofNat n)

/-- The number of a code point. -/
def CodePoint.code : CodePoint → Nat
  | .char c => c.toNat
  | .half h => h.code

/-- Whether a code point is half of a surrogate pair. -/
def CodePoint.isHalf : CodePoint → Bool
  | .char _ => false
  | .half _ => true

/-- A text: plain if all its code points are characters, else with what stands before its first half
and what follows it. -/
inductive Text where
  | plain (s : String)
  | broken (before : String) (half : Half) (after : List CodePoint)
  deriving DecidableEq, Repr

instance : Coe String Text := ⟨.plain⟩

instance : Inhabited Text := ⟨.plain ""⟩

namespace Text

/-- The code points of a text. -/
def points : Text → List CodePoint
  | plain s => s.toList.map .char
  | broken before half after => before.toList.map .char ++ .half half :: after

/-- The text of code points. -/
def ofPoints (ps : List CodePoint) : Text :=
  gather [] ps
where
  /-- The text of characters taken so far, in reverse, and of code points that follow them. -/
  gather (taken : List Char) : List CodePoint → Text
    | [] => .plain (String.ofList taken.reverse)
    | .char c :: ps => gather (c :: taken) ps
    | .half h :: ps => .broken (String.ofList taken.reverse) h ps

theorem gather_append (taken cs : List Char) (ps : List CodePoint) :
    ofPoints.gather taken (cs.map .char ++ ps) = ofPoints.gather (cs.reverse ++ taken) ps := by
  induction cs generalizing taken with
  | nil => rfl
  | cons c cs ih =>
    rw [List.map_cons, List.cons_append, ofPoints.gather, ih, List.reverse_cons, List.append_assoc,
      List.singleton_append]

theorem ofPoints_chars (cs : List Char) : ofPoints (cs.map .char) = plain (String.ofList cs) := by
  have h := gather_append [] cs []
  rw [List.append_nil] at h
  rw [ofPoints, h, ofPoints.gather, List.append_nil, List.reverse_reverse]

/-- A text is known by its code points. -/
@[simp] theorem ofPoints_points (t : Text) : ofPoints t.points = t := by
  cases t with
  | plain s => rw [points, ofPoints_chars, String.ofList_toList]
  | broken before half after =>
    rw [points, ofPoints, gather_append, ofPoints.gather, List.append_nil, List.reverse_reverse,
      String.ofList_toList]

/-- One text after another. -/
protected def append : Text → Text → Text
  | plain s, plain t => plain (s ++ t)
  | plain s, broken before half after => broken (s ++ before) half after
  | broken before half after, t => broken before half (after ++ t.points)

instance : Append Text := ⟨Text.append⟩

/-- Texts with a text between them. -/
def intercalate (separator : Text) : List Text → Text
  | [] => plain ""
  | [t] => t
  | t :: ts => t ++ separator ++ intercalate separator ts

/-! ### Order -/

/-- Texts are ordered by the numbers of their code points. -/
instance : LT Text := ⟨fun s t => s.points.map CodePoint.code < t.points.map CodePoint.code⟩

instance (s t : Text) : Decidable (s < t) :=
  inferInstanceAs (Decidable (s.points.map CodePoint.code < t.points.map CodePoint.code))

end Text

end Scriptlet
