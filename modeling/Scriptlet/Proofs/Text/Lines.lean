import Scriptlet.Failure
import Scriptlet.Proofs.Decimal.Written

/-! # Messages of one line

The wording of a failure is fixed but for the data it shows. Quoted texts and numbers are shown
without line feeds; what a tree has for a name, an operator or the mark of an item is shown as it
stands there. So a message has a line feed only if one of those texts has one.

* `Failure.bare`: the texts that the message of a failure shows as they are.
* `Failure.IsLine`: none of them has a line feed.
* `Failure.IsLine.message`: then the message has none. -/

namespace Scriptlet

/-- Whether a name is a text of one line, as every name of a program text is. -/
def Name.IsLine (x : Name) : Prop :=
  ∃ s : String, x = .text s ∧ '\n' ∉ s.toList

/-! ### Texts without line feeds -/

@[simp] theorem not_mem_toDigits (n : Nat) : '\n' ∉ Nat.toDigits 10 n := by
  intro h
  cases Text.isAsciiDigit_of_mem_toDigits h

@[simp] theorem not_mem_nat (n : Nat) : '\n' ∉ (toString n).toList := by
  rw [Nat.toString_eq_repr, Nat.toList_repr]
  exact not_mem_toDigits n

@[simp] theorem not_mem_int (n : Int) : '\n' ∉ (toString n).toList := by
  rw [Text.toList_toString_int]
  split_ifs <;> simp

@[simp] theorem not_mem_hexDigits (n : Nat) : ∀ width, '\n' ∉ Text.hexDigits width n
  | 0 => List.not_mem_nil
  | width + 1 => by
    have hdigit : ∀ k < 16, Text.hexDigit k ≠ '\n' := by decide
    rw [Text.hexDigits, List.mem_append, List.mem_singleton, not_or]
    exact ⟨not_mem_hexDigits (n / 16) width, (hdigit _ (Nat.mod_lt n (by decide))).symm⟩

@[simp] theorem not_mem_escapeHalf (h : Half) : '\n' ∉ Text.escapeHalf h := by
  simp [Text.escapeHalf]

/-- **A quoted text is one line.** -/
@[simp] theorem not_mem_quote (t : Text) : '\n' ∉ t.quote.toList := by
  have hquote : '\n' ≠ Text.enclosingQuote t.points := by
    unfold Text.enclosingQuote
    split <;> decide
  have hpoint (p : CodePoint) : '\n' ∉ Text.quotePoint (Text.enclosingQuote t.points) p := by
    cases p with
    | half h => exact not_mem_escapeHalf h
    | char c =>
      rw [Text.quotePoint, Text.quoteChar]
      split_ifs with hself hfeed hreturn htab
      · rcases (by simpa using hself : c = _ ∨ c = '\\') with rfl | rfl
        · simpa using hquote
        · simp
      all_goals simp [Ne.symm, hfeed]
  simp [Text.quote, hquote, hpoint]

/-! ### Numbers -/

namespace Decimal

theorem not_mem_digits (c : Nat) : '\n' ∉ digits c :=
  not_mem_toDigits c

theorem not_mem_withPoint {ds : List Char} (hds : '\n' ∉ ds) (places : Nat) :
    '\n' ∉ withPoint ds places := by
  have hpadded (k : Nat) : '\n' ∉ List.replicate k '0' ++ ds := by simpa using hds
  unfold withPoint
  dsimp only
  split_ifs
  · exact hds
  · simp only [List.mem_append, List.mem_cons, not_or]
    exact ⟨fun h => hpadded _ (List.mem_of_mem_take h), by decide,
      fun h => hpadded _ (List.mem_of_mem_drop h)⟩

theorem not_mem_plainMagnitude (c : Nat) (e : Int) : '\n' ∉ plainMagnitude c e := by
  unfold plainMagnitude
  split_ifs
  · exact not_mem_withPoint (not_mem_digits c) _
  · decide
  · simp [not_mem_digits c]

theorem not_mem_scientificMagnitude (c : Nat) (e : Int) : '\n' ∉ scientificMagnitude c e := by
  have hdigits := not_mem_digits c
  have htake : '\n' ∉ (digits c).take 1 := fun h => hdigits (List.mem_of_mem_take h)
  have htail : '\n' ∉ (digits c).tail := fun h => hdigits (List.mem_of_mem_tail h)
  unfold scientificMagnitude
  dsimp only
  split_ifs <;> simp [htake, htail]

/-- A written number is one line. -/
@[simp] theorem not_mem_exact (d : Decimal) : '\n' ∉ d.exact.toList := by
  have hsign {body : List Char} (hbody : '\n' ∉ body) :
      '\n' ∉ (String.ofList (if d.isNegative then '-' :: body else body)).toList := by
    split_ifs <;> simp [hbody]
  cases d with
  | finite neg c e =>
    refine hsign (?_ : '\n' ∉ exactMagnitude c e)
    unfold exactMagnitude
    split_ifs
    · exact not_mem_plainMagnitude c e
    · exact not_mem_scientificMagnitude c e
  | infinite neg => exact hsign (by simp : '\n' ∉ "Infinity".toList)
  | nan neg s p =>
    refine hsign (?_ : '\n' ∉ (if s then "sNaN".toList else "NaN".toList) ++
      (if p = 0 then [] else digits p))
    split_ifs <;> simp [not_mem_digits p]

end Decimal

/-! ### Messages -/

/-- The texts that the wording of an unknown name shows as they are. -/
def NameProblem.bare : NameProblem → List String
  | .variable n | .function n _ | .type n => [n]

/-- The texts that the wording of a violated typing rule shows as they are. -/
def TypeProblem.bare : TypeProblem → List String
  | .globalNeedsType x | .localNeedsType x | .immutable x | .notIndexable x _ | .integerRange x |
    .booleanOperands x _ _ | .comparableOperands x _ _ | .numericOperands x _ _ |
    .unknownOperator x => [x]
  | _ => []

/-- The texts that the wording of a violated rule of execution shows as they are. -/
def RunProblem.bare : RunProblem → List String
  | .undeclared x | .immutable x | .indexNotInteger x | .unknownOperator x | .notCallable x => [x]
  | .notIndexable x y | .conditionNotBoolean x y | .powerOperands x y | .notOrdered x y => [x, y]
  | .unsupported x y z | .booleanOperands x y z => [x, y, z]
  | _ => []

/-- The name of a kind of data that is no part of a tree. -/
def Kind.bare : Kind → List String
  | .data x => [x]
  | _ => []

/-- The texts that the wording of a malformed tree shows as they are. -/
def TreeProblem.bare : TreeProblem → List String
  | .unknownTag x | .unknownLiteral x | .notWritable x | .alreadyResolved _ x | .unhashable x |
    .noDecimal x | .badDecimalParts x | .partTooLarge x | .itemNotText _ x => [x]
  | .unexpected _ k | .notIterable k | .noLength k => k.bare
  | .notOrderable x y z => [x, y, z]
  | .noConcatenation x y => [x, y]
  | _ => []

/-- The texts that the message of a failure shows as they are: names, operators, the marks of items,
and the names of kinds of data. -/
def Failure.bare : Failure → List String
  | .name p => p.bare
  | .type p => p.bare
  | .run p => p.bare
  | .tree p => p.bare
  | _ => []

@[simp] theorem not_mem_typeName : ∀ t : Ty, '\n' ∉ t.name.toList
  | .list t => by simp [Ty.name, not_mem_typeName t]
  | .any | .nil | .boolean | .comparable | .integer | .decimal | .character | .string => by
    simp [Ty.name]

/-- The wording of a text shows it as it is. -/
@[simp] theorem toString_string (s : String) : toString s = s := rfl

theorem NameProblem.not_mem_message {p : NameProblem} (h : ∀ s ∈ p.bare, '\n' ∉ s.toList) :
    '\n' ∉ p.message.toList := by
  unfold message
  split <;> simp_all [bare]

theorem TypeProblem.not_mem_message {p : TypeProblem} (h : ∀ s ∈ p.bare, '\n' ∉ s.toList) :
    '\n' ∉ p.message.toList := by
  unfold message
  split <;> simp_all [bare]

theorem RunProblem.not_mem_message {p : RunProblem} (h : ∀ s ∈ p.bare, '\n' ∉ s.toList) :
    '\n' ∉ p.message.toList := by
  have hindex (n : Int) : '\n' ∉ n.repr.toList := not_mem_int n
  unfold message
  split <;> simp_all [bare]

theorem Tag.not_mem_word (t : Tag) : '\n' ∉ t.word.toList := by
  cases t <;> simp [word]

theorem Kind.not_mem_name {k : Kind} (h : ∀ s ∈ k.bare, '\n' ∉ s.toList) :
    '\n' ∉ k.name.toList ∧ '\n' ∉ k.fullName.toList := by
  cases k with
  | item t => simp [name, fullName, t.not_mem_word]
  | decimal => simp [name, fullName]
  | data n => simpa [name, fullName, bare] using h

theorem TreeProblem.not_mem_message {p : TreeProblem} (h : ∀ s ∈ p.bare, '\n' ∉ s.toList) :
    '\n' ∉ p.message.toList := by
  have hkind {k : Kind} (h : ∀ s ∈ k.bare, '\n' ∉ s.toList) := k.not_mem_name h
  have hstage (s : Stage) : '\n' ∉ s.word.toList := by
    cases s <;> simp [Stage.word]
  unfold message
  cases p with
  | noConcatenation l r =>
    dsimp only
    split_ifs <;> simp_all [bare]
  | _ =>
    dsimp only
    simp_all [bare, Tag.not_mem_word]

theorem Decimal.Signal.not_mem_message (s : Decimal.Signal) : '\n' ∉ s.message.toList := by
  cases s <;> simp [message]

theorem Text.Flaw.not_mem_message (f : Text.Flaw) : '\n' ∉ f.message.toList := by
  unfold message
  dsimp only
  split_ifs <;> simp

theorem not_mem_digitLimitMessage : '\n' ∉ digitLimitMessage.toList := by
  unfold digitLimitMessage
  simp

/-- Whether the texts that the message of a failure shows as they are have no line feeds. -/
def Failure.IsLine (f : Failure) : Prop :=
  ∀ s ∈ f.bare, '\n' ∉ s.toList

/-- **A line feed in a message is one of a text that the message shows as it is.** -/
theorem Failure.IsLine.message {f : Failure} (h : f.IsLine) : '\n' ∉ f.message.toList := by
  cases f with
  | name p => exact p.not_mem_message h
  | type p => exact p.not_mem_message h
  | run p => exact p.not_mem_message h
  | tree p => exact p.not_mem_message h
  | divisionByZero => simp [Failure.message]
  | signal s => exact s.not_mem_message
  | tooManyDigits => exact not_mem_digitLimitMessage
  | unwritable flaw => exact flaw.not_mem_message

end Scriptlet
