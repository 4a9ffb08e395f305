import Mathlib.Data.List.Permutation
import Scriptlet.Proofs.Syntax.Refusals
import Scriptlet.Proofs.Syntax.Trees
import Scriptlet.Proofs.Trace.Analyses
import Scriptlet.Proofs.Typing.Statements

/-! # Verdicts

The analysis of a program of a text ends well or with a verdict: an unknown name, a violated typing
rule, or a decimal literal that is too large for arithmetic. All other failures of the analysis are
about trees that no text has, such as lists without items and slots that are written already. A
literal is too large only if it has a million digits in front of its point (`Token.IsLarge`).

The analysis is a walk, so this is a property of computations that is closed under sequences. There
is one lemma for each construct of the language, and the recursion over the derivations of the
grammar only puts them together.

* `judges_of_readProgram`: the analysis of a program of a text fails only with verdicts;
* `program_verdict`: which failures those are, and for which texts. -/

namespace Scriptlet

/-! ### Outcomes -/

/-- Whether a failure is a verdict about a program of a text, which has a large literal only if
`large` holds. Verdicts are told in one line. -/
inductive Failure.IsVerdictIf (large : Prop) : Failure → Prop where
  | name {p : NameProblem} : Failure.IsLine (.name p) → Failure.IsVerdictIf large (.name p)
  | type {p : TypeProblem} : Failure.IsLine (.type p) → Failure.IsVerdictIf large (.type p)
  /-- The magnitude of a decimal literal is beyond what arithmetic works with. -/
  | overflow : large → Failure.IsVerdictIf large (.signal .overflow)

/-- Whether an outcome is a result or a verdict. -/
def JudgedIf (large : Prop) {α : Type} (r : Except Failure α) : Prop :=
  ∀ f, r = .error f → f.IsVerdictIf large

/-- Whether an outcome is a result or a verdict about some text. -/
abbrev Judged {α : Type} (r : Except Failure α) : Prop :=
  JudgedIf True r

variable {large : Prop}

namespace JudgedIf

variable {α β : Type}

theorem ok (a : α) : JudgedIf large (.ok a) :=
  nofun

theorem error {f : Failure} (h : f.IsVerdictIf large) :
    JudgedIf large (α := α) (.error f) := by
  rintro f ⟨⟩
  exact h

/-- A failure that is passed on is the same failure. -/
theorem fails {f : Failure} (h : JudgedIf large (α := α) (.error f)) :
    JudgedIf large (α := β) (.error f) :=
  error (h f rfl)

theorem bind {r : Except Failure α} {g : α → Except Failure β} (hr : JudgedIf large r)
    (hg : ∀ a, JudgedIf large (g a)) : JudgedIf large (r >>= g) := by
  cases r with
  | error f => exact hr.fails
  | ok a => exact hg a

theorem map {r : Except Failure α} {g : α → β} (hr : JudgedIf large r) :
    JudgedIf large (r.map g) := by
  cases r with
  | error f => exact hr.fails
  | ok a => exact ok _

end JudgedIf

/-! ### Names

A name of a text is told in one line, and a trace takes it. -/

namespace Name.IsLine

variable {x : Name}

theorem exists_toText (hx : x.IsLine) : ∃ s, x.toText = .plain s := by
  obtain ⟨s, rfl, -⟩ := hx
  exact ⟨s, rfl⟩

theorem not_mem_shown (hx : x.IsLine) : '\n' ∉ x.shown.toList := by
  obtain ⟨s, rfl, hs⟩ := hx
  exact hs

end Name.IsLine

/-! ### Rules without scopes -/

theorem judged_requireAssignable (t s : Ty) : JudgedIf large (requireAssignable t s) := by
  unfold requireAssignable
  split
  · exact .ok _
  · exact .error (.type (List.forall_mem_nil _))

theorem judged_requireArguments : ∀ ps ts : List Ty, JudgedIf large (requireArguments ps ts)
  | p :: ps, t :: ts =>
    (judged_requireAssignable p t).bind fun _ => judged_requireArguments ps ts
  | [], _ => .ok _
  | _ :: _, [] => .ok _

theorem judged_binaryType {op : String} (hop : '\n' ∉ op.toList) (l r : Ty) :
    JudgedIf large (binaryType op l r) := by
  unfold binaryType
  -- every rule gives a type or refuses the operands
  repeat' split
  all_goals first
    | exact .ok _
    | exact .error (.type (List.forall_mem_nil _))
    | exact .error (.type (List.forall_mem_singleton.mpr hop))

theorem judged_typeNamed {x : Name} (hx : x.IsLine) : JudgedIf large (typeNamed x) := by
  obtain ⟨s, rfl, hs⟩ := hx
  unfold typeNamed
  dsimp only
  split
  · exact .ok _
  · exact .error (.name (List.forall_mem_singleton.mpr hs))

theorem judged_checkInteger {n : Int} (hn : n.natAbs < tenTo Text.maxDigits) :
    JudgedIf large (checkInteger (.plain (.int n))) := by
  unfold checkInteger
  dsimp only
  split
  · exact .ok _
  · rw [showInt, if_pos hn]
    exact .error (.type (List.forall_mem_singleton.mpr (not_mem_int n)))

theorem judged_checkDecimal {neg : Bool} {c : Nat} {e : Int}
    (hlarge : Decimal.round .working false c e = .error .overflow → large) :
    JudgedIf large (checkDecimal (.decimal (.finite neg c e))) := by
  unfold checkDecimal
  dsimp only
  rw [Decimal.abs]
  rcases Decimal.isRounded_round .working false c e with ⟨n, c', e', hround⟩ | hround
  · obtain ⟨b, hb⟩ := Decimal.less_finite false ((twoTo 53 - 1) * twoTo 971) 0 n c' e'
    rw [hround, orSignal, Except.mapError, ok_bind, maxDecimal, hb]
    cases b with
    | false => exact .ok _
    | true => exact .error (.type (List.forall_mem_nil _))
  · have h := hlarge hround
    rw [hround]
    exact .error (.overflow h)

/-! ### Large literals -/

/-- The number of digits in front of the point of a decimal. -/
def Token.wholeDigits (t : Token) : Nat :=
  (t.text.toList.takeWhile (· ≠ '.')).countP Text.isAsciiDigit

/-- Whether a token is a decimal with so many digits in front of its point that rounding may
overflow. -/
def Token.IsLarge (t : Token) : Prop :=
  t.kind = .decimal ∧ 1000000 ≤ t.wholeDigits

namespace Grammar

open Lexical

theorem wholeDigits_eq {t : Token} {neg : Bool} {w f : List Char} (hw : AreDigits w)
    (htext : t.text.toList = signText neg ++ w ++ '.' :: f) : t.wholeDigits = w.length := by
  have hdigits : ∀ c ∈ w, Text.isAsciiDigit c = true :=
    fun c hc => Lexer.isAsciiDigit_iff.mpr (hw.2 c hc)
  have hpoint : ∀ c ∈ signText neg ++ w, decide (c ≠ '.') = true := by
    intro c hc
    rw [decide_eq_true_eq]
    rintro rfl
    rcases List.mem_append.mp hc with hc | hc
    · cases neg <;> simp [signText] at hc
    · exact absurd (hdigits _ hc) (by decide)
  have hsign : (signText neg).countP Text.isAsciiDigit = 0 := by
    cases neg <;> decide
  rw [Token.wholeDigits, htext, List.takeWhile_append_of_pos hpoint, List.takeWhile_cons_of_neg
    (by decide), List.append_nil, List.countP_append, hsign, List.countP_eq_length.mpr hdigits,
    Nat.zero_add]

/-- **A decimal that overflows is large.** -/
theorem isLarge_of_overflow {t : Token} {neg : Bool} {w f : List Char} (hkind : t.kind = .decimal)
    (hw : AreDigits w) (hf : AreDigits f) (htext : t.text.toList = signText neg ++ w ++ '.' :: f)
    (hover : Decimal.round .working false (Text.digitsValue (w ++ f)) (-f.length) =
      .error .overflow) : t.IsLarge := by
  refine ⟨hkind, ?_⟩
  rw [wholeDigits_eq hw htext]
  by_contra hshort
  have hpos : 0 < w.length := List.length_pos_iff.mpr hw.1
  have hdigits : ∀ c ∈ w ++ f, IsDigit c := by
    intro c hc
    rcases List.mem_append.mp hc with hc | hc
    · exact hw.2 c hc
    · exact hf.2 c hc
  have hlt := Text.digitsValue_lt hdigits
  rw [List.length_append] at hlt
  exact Decimal.round_ne_overflow hlt (by omega) (by omega) hover

/-- A literal of a text is in range, out of range, or large. -/
theorem Denotes.judged {t : Token} {v : Datum} {k : LiteralKind} (h : Denotes t v k)
    (hv : v.IsOf k) (hlarge : t.IsLarge → large) : JudgedIf large (literalType v k) := by
  cases h with
  | nil _ => exact .ok _
  | yes _ => exact .ok _
  | no _ => exact .ok _
  | character _ _ _ => exact .ok _
  | string _ _ _ => exact .ok _
  | integer _ _ _ =>
    cases hv with
    | integer hlt => exact (judged_checkInteger hlt).map
  | decimal hkind hw hf htext _ =>
    exact (judged_checkDecimal fun hover =>
      hlarge (isLarge_of_overflow hkind hw hf htext hover)).map

end Grammar

namespace Forest

variable {V F : Type}

theorem judged_lookupVariable (f : Forest V F) (s : Nat) {x : Name} (hx : x.IsLine) :
    JudgedIf large (f.lookupVariable s x) := by
  obtain ⟨n, rfl, hn⟩ := hx
  rw [lookupVariable, Name.label_text, ok_bind]
  split
  · exact .ok _
  · exact .error (.name (List.forall_mem_singleton.mpr hn))

theorem judged_lookupFunction (f : Forest V F) (s : Nat) {x : Name} (hx : x.IsLine) (n : Nat) :
    JudgedIf large (f.lookupFunction s x n) := by
  obtain ⟨y, rfl, hy⟩ := hx
  rw [lookupFunction, Name.label_text, ok_bind]
  split
  · exact .ok _
  · exact .error (.name (List.forall_mem_singleton.mpr hy))

end Forest

theorem Param.IsTreeOf.paramName {x : Param} (hx : x.IsTreeOf Name.IsLine) :
    ∃ y : String, Analysis.paramName? x = some (.text y) := by
  cases x with
  | typed y t =>
    obtain ⟨⟨s, rfl, -⟩, -⟩ := hx
    exact ⟨s, rfl⟩
  | _ => cases hx

/-- Whether a place that is assigned to belongs to a variable whose name is told in one line. -/
def Expr.IsLinePlace : Expr → Prop
  | .name x _ _ | .index x _ _ _ => x.IsLine
  | _ => True

theorem Expr.IsTreeOf.isLinePlace {e : Expr} (he : e.IsTreeOf Name.IsLine) : e.IsLinePlace := by
  cases e with
  | name x m t => exact he
  | index x o m t => exact he.1
  | _ => trivial

namespace Analysis

variable {tracer : Tracer} {s : Nat}

/-! ### Computations -/

/-- Whether a part of the analysis ends with a result or a verdict, whatever is in force. -/
def JudgesIf (large : Prop) {α β : Type} (x : StateM Analyzer (α × Except Failure β)) : Prop :=
  ∀ a, JudgedIf large (x a).1.2

namespace JudgesIf

variable {α β γ δ : Type}

theorem pure {y : α} {r : Except Failure β} (h : JudgedIf large r) :
    JudgesIf large (Pure.pure (y, r) : StateM Analyzer (α × Except Failure β)) :=
  fun _ => h

/-- A step that cannot fail. -/
theorem step {x : StateM Analyzer γ} {f : γ → StateM Analyzer (α × Except Failure β)}
    (hf : ∀ c, JudgesIf large (f c)) : JudgesIf large (x >>= f) :=
  fun a => hf (x a).1 (x a).2

theorem bind {x : StateM Analyzer (γ × Except Failure δ)}
    {f : γ × Except Failure δ → StateM Analyzer (α × Except Failure β)} (hx : JudgesIf large x)
    (hf : ∀ y r, JudgedIf large r → JudgesIf large (f (y, r))) : JudgesIf large (x >>= f) :=
  fun a => hf (x a).1.1 (x a).1.2 (hx a) (x a).2

/-- What is known of the tree that the first part gives may be used in the second. -/
theorem bindWhere {x : StateM Analyzer (γ × Except Failure δ)}
    {f : γ × Except Failure δ → StateM Analyzer (α × Except Failure β)} (hx : JudgesIf large x)
    (P : γ → Prop) (hP : ∀ a, P (x a).1.1)
    (hf : ∀ y r, P y → JudgedIf large r → JudgesIf large (f (y, r))) : JudgesIf large (x >>= f) :=
  fun a => hf (x a).1.1 (x a).1.2 (hP a) (hx a) (x a).2

end JudgesIf

/-- A line of plain texts is traced wherever lines go. -/
theorem say_plain (tracer : Tracer) (least : Int) (line : String) (a : Analyzer) :
    ∃ a', say tracer least (.plain line) a = (.ok (), a') := by
  unfold say
  rw [Tracer.write_plain]
  change ∃ a', (if least ≤ tracer.level then _ else _) = _
  split_ifs <;> exact ⟨_, rfl⟩

theorem judges_say {α β : Type} {least : Int} {line : Text}
    {f : Except Failure Unit → StateM Analyzer (α × Except Failure β)}
    (hline : ∃ s, line = .plain s) (hok : JudgesIf large (f (.ok ()))) :
    JudgesIf large (say tracer least line >>= f) := by
  obtain ⟨s, rfl⟩ := hline
  intro a
  obtain ⟨a', ha'⟩ := say_plain tracer least s a
  rw [run_bind, ha']
  exact hok a'

theorem judges_saying {α β : Type} {least : Int} {line : Text} {tree : α} {verdict : β}
    (hline : ∃ s, line = .plain s) :
    JudgesIf large (saying tracer least line tree verdict) :=
  judges_say hline (.pure (.ok _))

/-! ### Expressions -/

theorem judges_literal {v : Datum} {k : LiteralKind} (h : JudgedIf large (literalType v k)) :
    JudgesIf large (expr tracer s (.literal v k none)) := by
  rw [expr]
  cases hv : literalType v k with
  | error f => exact .pure (.error (h f hv))
  | ok t => exact .pure (.ok _)

theorem judges_group {e : Expr} (he : JudgesIf large (expr tracer s e)) :
    JudgesIf large (expr tracer s (.group e none)) := by
  rw [expr]
  refine he.bind fun e r hr => ?_
  cases r with
  | error f => exact .pure hr.fails
  | ok t => exact .pure (.ok _)

theorem judges_binary {op : String} {x y : Expr} (hop : '\n' ∉ op.toList)
    (hx : JudgesIf large (expr tracer s x))
    (hy : JudgesIf large (expr tracer s y)) :
    JudgesIf large (expr tracer s (.binary op x y none)) := by
  rw [expr]
  refine hx.bind fun x r hr => ?_
  cases r with
  | error f => exact .pure hr.fails
  | ok t =>
    refine hy.bind fun y r hr => ?_
    have hrule : JudgedIf large (r.bind (binaryType op t)) := hr.bind (judged_binaryType hop t)
    dsimp only
    split
    · next f hf => exact .pure (.error (hrule f hf))
    · exact .pure (.ok _)

theorem judges_name {x : Name} (hx : x.IsLine) :
    JudgesIf large (expr tracer s (.name x none none)) := by
  rw [expr]
  refine .step fun a => ?_
  split
  · next f hf => exact .pure (.error (a.scopes.judged_lookupVariable s hx f hf))
  · exact .pure (.ok _)

theorem judges_index {x : Name} {o : Expr} (hx : x.IsLine) (ho : JudgesIf large (expr tracer s o)) :
    JudgesIf large (expr tracer s (.index x o none none)) := by
  rw [expr]
  refine ho.bind fun o r hr => .step fun a => ?_
  have hfound : JudgedIf large (do
      requireAssignable .integer (← r)
      a.scopes.lookupVariable s x) :=
    hr.bind fun t => (judged_requireAssignable _ t).bind fun _ =>
      a.scopes.judged_lookupVariable s hx
  dsimp only
  split
  · next f hf => exact .pure (.error (hfound f hf))
  · split
    · exact .pure (.error (.type (List.forall_mem_singleton.mpr hx.not_mem_shown)))
    · exact .pure (.ok _)

theorem judges_call {x : Name} {args : List Expr} (hx : x.IsLine)
    (hargs : JudgesIf large (exprs tracer s args)) :
    JudgesIf large (expr tracer s (.call x args none none)) := by
  rw [expr]
  refine hargs.bind fun args r hr => .step fun a => ?_
  have hfound : JudgedIf large (do
      let ts ← r
      let f ← a.scopes.lookupFunction s x args.length
      requireArguments f.params ts
      return f) :=
    hr.bind fun ts => (a.scopes.judged_lookupFunction s hx _).bind fun f =>
      (judged_requireArguments _ ts).bind fun _ => .ok f
  dsimp only
  split
  · next f hf => exact .pure (.error (hfound f hf))
  · obtain ⟨n, hn⟩ := hx.exists_toText
    exact judges_saying ⟨_, by rw [hn]; rfl⟩

theorem judges_exprs : ∀ {es : List Expr}, (∀ e ∈ es, JudgesIf large (expr tracer s e)) →
    JudgesIf large (exprs tracer s es)
  | [], _ => by
    rw [exprs]
    exact .pure (.ok _)
  | e :: es, h => by
    rw [exprs]
    refine (h e (by simp)).bind fun e r hr => ?_
    cases r with
    | error f => exact .pure hr.fails
    | ok t =>
      refine (judges_exprs fun e he => h e (by simp [he])).bind fun es r hr => ?_
      exact .pure hr.map

/-- The type of the items of a list is known once the first item has one. -/
theorem judged_items : ∀ {es : List Expr} {element : Option Ty},
    (∀ e ∈ es, JudgesIf large (expr tracer s e)) → (es = [] → element ≠ none) → ∀ (vs : List Expr)
      (a : Analyzer), JudgedIf large (settleList vs none (items tracer s element es a).1.2).2
  | [], none, _, hne, _, _ => (hne rfl rfl).elim
  | [], some t, _, _, _, _ => .ok _
  | e :: es, element, h, _, vs, a => by
    rw [items, run_bind]
    have he := h e (by simp) a
    rcases hr : expr tracer s e a with ⟨⟨e', r⟩, a'⟩
    rw [hr] at he
    cases r with
    | error f => exact he.fails
    | ok t =>
      simp only [ok_bind]
      cases hassign : requireAssignable (element.getD t) t with
      | error f => exact .error (judged_requireAssignable _ _ f hassign)
      | ok _ =>
        exact judged_items (fun e he => h e (by simp [he])) (fun _ => Option.some_ne_none _) vs _

/-! ### Statements -/

theorem judged_declaredType {n : Option Name} (hn : ∀ x ∈ n, x.IsLine) :
    JudgedIf large (declaredType n) := by
  cases n with
  | none => exact .ok _
  | some x => exact (judged_typeNamed (hn x rfl)).map

theorem judges_initial {declared : Option Ty} {value : Option Expr}
    (h : ∀ e ∈ value, JudgesIf large (expr tracer s e)) :
    JudgesIf large (initial tracer s declared value) := by
  cases value with
  | none => exact .pure (.ok _)
  | some e =>
    refine (h e rfl).bind fun e r hr => ?_
    exact .pure (hr.bind fun t => (judged_requireAssignable _ t).bind fun _ => .ok _)

/-- The end of a declaration of a variable: the name is bound, and the slot is written. -/
theorem judges_define {α : Type} {v : Variable} (hv : v.name.IsLine)
    {f : Except Failure Unit → StateM Analyzer (α × Except Failure Unit)}
    (hok : JudgesIf large (f (.ok ()))) : JudgesIf large (define s v >>= f) := by
  obtain ⟨x, mutable, t, origin⟩ := v
  obtain ⟨n, rfl, -⟩ := hv
  exact fun a => hok _

theorem judges_declare {x : Name} {n : Option Name} {value : Option Expr} (hx : x.IsLine)
    (hn : ∀ y ∈ n, y.IsLine) (hvalue : ∀ e ∈ value, JudgesIf large (expr tracer s e)) :
    JudgesIf large (stmt tracer s (.declare x n value none)) := by
  rw [stmt]
  split
  · exact .pure (.error (.type (List.forall_mem_singleton.mpr hx.not_mem_shown)))
  · split
    · next f hf => exact .pure (.error (judged_declaredType hn f hf))
    · next declared _ =>
      refine (judges_initial hvalue).bind fun value r hr => ?_
      cases r with
      | error f => exact .pure hr.fails
      | ok type =>
        obtain ⟨n, hn⟩ := hx.exists_toText
        exact .step fun m => judges_define hx (judges_saying ⟨_, by rw [hn]; rfl⟩)

/-- A name stays the name that it is. -/
theorem isLinePlace_name {x : Name} (hx : x.IsLine) (m : Option Variable) (slot : Option Ty)
    (a : Analyzer) : (expr tracer s (.name x m slot) a).1.1.IsLinePlace := by
  rw [expr, run_bind, run_get]
  dsimp only
  cases a.scopes.lookupVariable s x with
  | error f => exact hx
  | ok v => cases m <;> cases slot <;> exact hx

/-- A selected item stays one of the same list. -/
theorem isLinePlace_index {x : Name} (hx : x.IsLine) (o : Expr) (m : Option Variable)
    (slot : Option Ty) (a : Analyzer) :
    (expr tracer s (.index x o m slot) a).1.1.IsLinePlace := by
  rw [expr, run_bind]
  dsimp only
  rw [run_bind, run_get]
  dsimp only
  generalize (do
    requireAssignable .integer (← (expr tracer s o a).1.2)
    (expr tracer s o a).2.scopes.lookupVariable s x : Except Failure Variable) = found
  rcases found with f | v
  · exact hx
  · cases m with
    | some _ => exact hx
    | none =>
      dsimp only
      cases v.type.element? with
      | none => exact hx
      | some t => cases slot <;> exact hx

theorem judges_assign {receiver value : Expr} (hline : receiver.IsLinePlace)
    (hr : JudgesIf large (expr tracer s receiver)) (hv : JudgesIf large (expr tracer s value)) :
    JudgesIf large (stmt tracer s (.assign receiver value)) := by
  unfold stmt
  dsimp only
  -- a name, an element, and everything that cannot be assigned to
  split
  case h_3 => exact .pure (.error (.type (List.forall_mem_nil _)))
  all_goals
    split
    · exact .pure (.error (.type (List.forall_mem_nil _)))
    refine hr.bindWhere Expr.IsLinePlace ?_ fun receiver r hline hr => ?_
    · intro a
      first
        | exact isLinePlace_name hline _ _ a
        | exact isLinePlace_index hline _ _ _ a
    cases r with
    | error f => exact .pure hr.fails
    | ok t =>
      dsimp only
      split
      · next f hf =>
        rw [ok_bind] at hf
        -- the receiver is known not to be assignable only where its variable is immutable
        split at hf
        · split at hf <;> cases hf
          exact .pure (.error (.type (List.forall_mem_singleton.mpr hline.not_mem_shown)))
        · split at hf <;> cases hf
          exact .pure (.error (.type (List.forall_mem_singleton.mpr hline.not_mem_shown)))
        · cases hf
      · exact hv.bind fun value r hr => .pure (hr.bind (judged_requireAssignable _))

theorem judges_branch {c : Expr} {t e : List Stmt} (hc : JudgesIf large (expr tracer s c))
    (ht : ∀ s, JudgesIf large (block tracer s t)) (he : ∀ s, JudgesIf large (block tracer s e)) :
    JudgesIf large (stmt tracer s (.branch c t e)) := by
  rw [stmt]
  refine hc.bind fun c r hr => ?_
  have hready : JudgedIf large (do
      requireAssignable .boolean (← r)
      if isEmptyBlock t then throw (.type .emptyBranch) : Except Failure Unit) := by
    refine hr.bind fun ct => (judged_requireAssignable _ ct).bind fun _ => ?_
    split
    · exact .error (.type (List.forall_mem_nil _))
    · exact .ok _
  dsimp only
  split
  · next f hf => exact .pure (.error (hready f hf))
  · refine .step fun inner => (ht inner).bind fun t r hr => ?_
    cases r with
    | error f => exact .pure hr.fails
    | ok _ => exact .step fun inner => (he inner).bind fun e r hr => .pure hr

theorem judges_switch {c : Expr} {cs : List Case} (hc : JudgesIf large (expr tracer s c))
    (hcs : ∀ t, JudgesIf large (cases tracer s t cs)) :
    JudgesIf large (stmt tracer s (.switch c cs)) := by
  rw [stmt]
  refine hc.bind fun c r hr => ?_
  cases r with
  | error f => exact .pure hr.fails
  | ok t => exact (hcs t).bind fun cs r hr => .pure hr

theorem judges_loop {c : Expr} {b : List Stmt} (hc : JudgesIf large (expr tracer s c))
    (hb : ∀ s, JudgesIf large (block tracer s b)) : JudgesIf large (stmt tracer s (.loop c b)) := by
  rw [stmt]
  refine hc.bind fun c r hr => ?_
  have hready : JudgedIf large (r.bind (requireAssignable .boolean)) :=
    hr.bind (judged_requireAssignable .boolean)
  dsimp only
  split
  · next f hf => exact .pure (.error (hready f hf))
  · exact .step fun inner => (hb inner).bind fun b r hr => .pure hr

theorem judges_exprStmt {e : Expr} (he : JudgesIf large (expr tracer s e)) :
    JudgesIf large (stmt tracer s (.expr e)) := by
  rw [stmt]
  exact he.bind fun e r hr => .pure hr.map

theorem judges_ret {e : Expr} (he : JudgesIf large (expr tracer s e)) :
    JudgesIf large (stmt tracer s (.ret e)) := by
  rw [stmt]
  exact he.bind fun e r hr => .pure hr.map

theorem judges_block : ∀ {xs : List Stmt}, (∀ x ∈ xs, JudgesIf large (stmt tracer s x)) →
    JudgesIf large (block tracer s xs)
  | [], _ => by
    rw [block]
    exact .pure (.ok _)
  | x :: xs, h => by
    rw [block]
    refine (h x (by simp)).bind fun x r hr => ?_
    cases r with
    | error f => exact .pure hr.fails
    | ok _ => exact (judges_block fun x hx => h x (by simp [hx])).bind fun xs r hr => .pure hr

theorem judges_equals {t : Ty} {e : Expr} {b : List Stmt} (he : JudgesIf large (expr tracer s e))
    (hb : ∀ s, JudgesIf large (block tracer s b)) :
    JudgesIf large (case tracer s t (.equals e b)) := by
  rw [case]
  refine he.bind fun e r hr => ?_
  have hready : JudgedIf large (r.bind (requireAssignable t)) :=
    hr.bind (judged_requireAssignable t)
  dsimp only
  split
  · next f hf => exact .pure (.error (hready f hf))
  · exact .step fun inner => (hb inner).bind fun b r hr => .pure hr

theorem judges_otherwise {t : Ty} {b : List Stmt} (hb : ∀ s, JudgesIf large (block tracer s b)) :
    JudgesIf large (case tracer s t (.otherwise b)) := by
  rw [case]
  exact .step fun inner => (hb inner).bind fun b r hr => .pure hr

theorem judges_cases {t : Ty} : ∀ {cs : List Case}, (∀ c ∈ cs, JudgesIf large (case tracer s t c)) →
    JudgesIf large (cases tracer s t cs)
  | [], _ => by
    rw [Analysis.cases]
    exact .pure (.ok _)
  | c :: cs, h => by
    rw [Analysis.cases]
    refine (h c (by simp)).bind fun c r hr => ?_
    cases r with
    | error f => exact .pure hr.fails
    | ok _ => exact (judges_cases fun c hc => h c (by simp [hc])).bind fun cs r hr => .pure hr

/-! ### Declarations -/

/-- Only a list of items with a declared type of its elements is treated apart. -/
theorem globalInitial_eq_initial {tracer : Tracer} {declared : Option Ty} {e : Expr}
    (h : e.isItemized = true → declared.bind Ty.element? = none) :
    globalInitial tracer s declared (some e) = initial tracer s declared (some e) := by
  cases e with
  | list vs slot =>
    rw [globalInitial, h rfl, initial, expr]
    rfl
  | _ => rfl

theorem judges_globalInitial_list {declared : Option Ty} {es : List Expr}
    (hes : ∀ e ∈ es, JudgesIf large (expr tracer s e)) (hne : es ≠ []) :
    JudgesIf large (globalInitial tracer s declared (some (.list es none))) := by
  intro a
  rw [globalInitial]
  exact (judged_items hes (fun h => (hne h).elim) _ a).bind fun t =>
    (judged_requireAssignable _ t).bind fun _ => .ok _

theorem judges_global {d : GlobalDecl} (hx : d.name.IsLine) (hn : ∀ y ∈ d.typeName, y.IsLine)
    (hvalue : ∀ declared, JudgesIf large (globalInitial tracer s declared d.value))
    (hslot : d.declared = none) : JudgesIf large (global tracer s (.decl d)) := by
  rw [global]
  split
  · exact .pure (.error (.type (List.forall_mem_singleton.mpr hx.not_mem_shown)))
  · split
    · next f hf => exact .pure (.error (judged_declaredType hn f hf))
    · refine (hvalue _).bind fun value r hr => ?_
      cases r with
      | error f => exact .pure hr.fails
      | ok type =>
        refine .step fun m => judges_define hx ?_
        dsimp only
        rw [hslot]
        obtain ⟨n, hn⟩ := hx.exists_toText
        exact judges_saying ⟨_, by rw [hn]; rfl⟩

theorem judges_globals : ∀ {gs : List Global}, (∀ g ∈ gs, JudgesIf large (global tracer s g)) →
    JudgesIf large (globals tracer s gs)
  | [], _ => .pure (.ok _)
  | g :: gs, h => by
    rw [globals]
    refine (h g (by simp)).bind fun g r hr => ?_
    cases r with
    | error f => exact .pure hr.fails
    | ok _ =>
      exact (judges_globals fun g hg => h g (by simp [hg])).bind fun gs r hr => .pure hr

theorem judged_paramType {x : Param} (hx : x.IsTreeOf Name.IsLine) :
    JudgedIf large (paramType x) := by
  cases x with
  | typed y t =>
    cases t with
    | none => exact .ok _
    | some t => exact judged_typeNamed (hx.2 t rfl)
  | _ => cases hx

theorem judged_mapM {α β : Type} {f : α → Except Failure β} : ∀ {xs : List α},
    (∀ x ∈ xs, JudgedIf large (f x)) → JudgedIf large (xs.mapM f)
  | [], _ => .ok _
  | x :: xs, h => by
    rw [List.mapM_cons]
    exact (h x (by simp)).bind fun y =>
      (judged_mapM fun x hx => h x (by simp [hx])).bind fun ys => .ok _

/-- All parameters of a text are bound. -/
theorem run_defineParams : ∀ {xs : List Param}, (∀ x ∈ xs, x.IsTreeOf Name.IsLine) →
    ∀ (m place : Nat) (ts : List Ty) (a : Analyzer), (defineParams s m place xs ts a).1 = .ok ()
  | [], _, _, _, _, _ => rfl
  | _ :: _, _, _, _, [], _ => rfl
  | x :: xs, h, m, place, t :: ts, a => by
    obtain ⟨y, hy⟩ := (h x (by simp)).paramName
    rw [defineParams, hy]
    exact run_defineParams (fun x hx => h x (by simp [hx])) m (place + 1) ts _

theorem judges_body {t : Ty} : ∀ {xs : List Stmt}, (∀ x ∈ xs, JudgesIf large (stmt tracer s x)) →
    JudgesIf large (body tracer s t xs)
  | [], _ => .pure (.ok _)
  | x :: xs, h => by
    rw [body]
    refine (h x (by simp)).bind fun x r hr => ?_
    cases r with
    | error f => exact .pure hr.fails
    | ok _ =>
      dsimp only
      split
      · next f hf =>
        refine .pure (.error ?_)
        rw [ok_bind] at hf
        split at hf
        · exact judged_requireAssignable _ _ f hf
        · cases hf
      · exact (judges_body fun x hx => h x (by simp [hx])).bind fun xs r hr => .pure hr

theorem judges_defineFunction {α : Type} {g : Signature} (hg : g.name.IsLine)
    {f : Except Failure Unit → StateM Analyzer (α × Except Failure Unit)}
    (hok : JudgesIf large (f (.ok ()))) : JudgesIf large (defineFunction s g >>= f) := by
  obtain ⟨x, ps, r, origin⟩ := g
  obtain ⟨n, rfl, -⟩ := hg
  exact fun a => hok _

theorem judges_funcDecl {d : FuncDecl} (hx : d.name.IsLine)
    (hps : ∀ x ∈ d.params, x.IsTreeOf Name.IsLine)
    (hn : ∀ y ∈ d.returnTypeName, y.IsLine)
    (hbody : ∀ s, ∀ x ∈ d.body, JudgesIf large (stmt tracer s x))
    (hslot : d.signature = none) : JudgesIf large (funcDecl tracer s d) := by
  unfold funcDecl
  have htypes : JudgedIf large (do
      let ps ← d.params.mapM paramType
      let r ← declaredType d.returnTypeName
      return (ps, r.getD .nil)) :=
    (judged_mapM fun x hx => judged_paramType (hps x hx)).bind fun ps =>
      (judged_declaredType hn).bind fun r => .ok _
  dsimp only
  split
  · next f hf => exact .pure (.error (htypes f hf))
  · next ps r _ =>
    refine .step fun m => judges_defineFunction hx ?_
    rw [hslot]
    obtain ⟨y, hy⟩ := hx.exists_toText
    refine judges_say ⟨_, by rw [Signature.text, hy]; rfl⟩ ?_
    refine .step fun inner => fun a => ?_
    rw [run_bind, run_defineParams hps]
    exact (judges_body (hbody inner)).bind (fun b r hr => .pure hr) _

theorem judges_functions : ∀ {fs : List Func}, (∀ f ∈ fs, JudgesIf large (func tracer s f)) →
    JudgesIf large (functions tracer s fs)
  | [], _ => .pure (.ok _)
  | f :: fs, h => by
    rw [functions]
    refine (h f (by simp)).bind fun f r hr => ?_
    cases r with
    | error f => exact .pure hr.fails
    | ok _ =>
      exact (judges_functions fun f hf => h f (by simp [hf])).bind fun fs r hr => .pure hr

theorem judges_program {p : Program}
    (hgs : ∀ s, ∀ g ∈ p.globals, JudgesIf large (global tracer s g))
    (hfs : ∀ s, ∀ f ∈ p.functions, JudgesIf large (func tracer s f)) :
    JudgesIf large (program tracer p) := by
  unfold program
  refine .step fun a => (judges_globals (hgs _)).bind fun gs r hr => ?_
  cases r with
  | error f => exact .pure hr.fails
  | ok _ =>
    refine (judges_functions (hfs _)).bind fun fs r hr => ?_
    cases r with
    | error f => exact .pure hr.fails
    | ok _ => exact judges_saying ⟨_, rfl⟩

end Analysis

/-! ### Programs of texts -/

namespace Grammar

open Scriptlet.Parser (Tier)
open Analysis

/-- A chain starts with its left operand, and no chain is a list. -/
theorem Chain.isItemized_tree {l : Tier} : ∀ (d : Chain l) {left : Expr},
    left.isItemized = false → (d.tree left).isItemized = false
  | .nil, _, h => h
  | .cons _ _ more, _, _ => more.isItemized_tree rfl

mutual

theorem Tiered.isItemized_tree {l : Tier} : ∀ d : Tiered l, d.tree.isItemized = false
  | .mk first more => more.isItemized_tree first.isItemized_tree

theorem Operand.isItemized_tree {l : Tier} : ∀ d : Operand l, d.tree.isItemized = false
  | .tiered _ e => e.isItemized_tree
  | .primary (.literal _) => rfl
  | .primary (.group _ _ _) => rfl
  | .primary (.reference _ .none) => rfl
  | .primary (.reference _ (.emptyCall _ _)) => rfl
  | .primary (.reference _ (.call _ _ _)) => rfl
  | .primary (.reference _ (.index _ _ _)) => rfl

end

/-- Where a chain is written, its left operand is. -/
theorem Chain.left_isWritten {l : Tier} : ∀ (d : Chain l) {left : Expr},
    (d.tree left).IsWritten → left.IsWritten
  | .nil, _, h => h
  | .cons _ _ more, _, h => (more.left_isWritten h).1

theorem Terminal.isLine_operator {l : Tier} (op : Terminal (operators l)) :
    '\n' ∉ op.token.text.toList := by
  have hall : ∀ w ∈ operators l, '\n' ∉ w.toList := by
    cases l <;> simp [operators]
  exact hall _ op.mem

theorem Expressions.trees_ne_nil (d : Expressions) : d.trees ≠ [] := by
  cases d <;> simp [Expressions.trees]

/-- Whether `large` holds if one of the tokens is large. -/
def Covers (large : Prop) (ts : List Token) : Prop :=
  ∀ t ∈ ts, t.IsLarge → large

namespace Covers

variable {t : Token} {ts us : List Token}

theorem head (h : Covers large (t :: ts)) : t.IsLarge → large :=
  h t List.mem_cons_self

theorem tail (h : Covers large (t :: ts)) : Covers large ts :=
  fun u hu => h u (List.mem_cons_of_mem t hu)

theorem left (h : Covers large (ts ++ us)) : Covers large ts :=
  fun u hu => h u (List.mem_append_left us hu)

theorem right (h : Covers large (ts ++ us)) : Covers large us :=
  fun u hu => h u (List.mem_append_right ts hu)

end Covers

section Expressions

variable {tracer : Tracer} {s : Nat}

mutual

theorem Tiered.judges {l : Tier} : ∀ d : Tiered l, Covers large d.tokens → d.tree.IsWritten →
    JudgesIf large (expr tracer s d.tree)
  | .mk first more, ht, h =>
    more.judges ht.right (first.judges ht.left (more.left_isWritten h)) h

theorem Operand.judges {l : Tier} : ∀ d : Operand l, Covers large d.tokens → d.tree.IsWritten →
    JudgesIf large (expr tracer s d.tree)
  | .tiered _ e, ht, h => e.judges ht h
  | .primary e, ht, h => e.judges ht h

theorem Chain.judges {l : Tier} : ∀ (d : Chain l) {left : Expr}, Covers large d.tokens →
    JudgesIf large (expr tracer s left) → (d.tree left).IsWritten →
    JudgesIf large (expr tracer s (d.tree left))
  | .nil, _, _, hleft, _ => hleft
  | .cons op right more, _, ht, hleft, h => by
    have hright := right.judges ht.tail.left (more.left_isWritten h).2
    exact more.judges ht.tail.right (judges_binary op.isLine_operator hleft hright) h

theorem Primary.judges : ∀ d : Primary, Covers large d.tokens → d.tree.IsWritten →
    JudgesIf large (expr tracer s d.tree)
  | .literal l, ht, h => judges_literal (l.denotes.judged h ht.head)
  | .group _ e _, ht, h => judges_group (e.judges ht.tail.left h)
  | .reference x tail, ht, h => tail.judges ht.tail x.isLine h

theorem Tail.judges : ∀ (d : Tail) {x : Name}, Covers large d.tokens → x.IsLine →
    (d.tree x).IsWritten → JudgesIf large (expr tracer s (d.tree x))
  | .none, _, _, hx, _ => judges_name hx
  | .emptyCall _ _, _, _, hx, _ => judges_call hx (judges_exprs nofun)
  | .call _ args _, _, ht, hx, h => judges_call hx (judges_exprs (args.judges ht.tail.left h))
  | .index _ place _, _, ht, hx, h => judges_index hx (place.judges ht.tail.left h)

theorem Expressions.judges : ∀ d : Expressions, Covers large d.tokens →
    Expr.AreWritten d.trees → ∀ e ∈ d.trees, JudgesIf large (expr tracer s e)
  | .one e, ht, h, x, hx => by
    obtain rfl := List.mem_singleton.mp hx
    exact e.judges ht h.1
  | .cons e _ es, ht, h, x, hx => by
    rcases List.mem_cons.mp hx with rfl | hx
    · exact e.judges ht.left h.1
    · exact es.judges ht.right.tail h.2 x hx

end

end Expressions

/-! #### Statements -/

theorem Init.judges {tracer : Tracer} {s : Nat} (d : Init) (ht : Covers large d.tokens)
    (h : Expr.MayBeWritten d.tree) : ∀ e ∈ d.tree, JudgesIf large (expr tracer s e) := by
  intro e he
  cases d with
  | none => cases he
  | some _ d =>
    cases he
    exact Tiered.judges d ht.tail h

section Statements

variable {tracer : Tracer}

mutual

theorem Block.judges : ∀ d : Block, Covers large d.tokens → Stmt.AreWritten d.trees →
    ∀ s, ∀ x ∈ d.trees, JudgesIf large (stmt tracer s x)
  | .cons x b, ht, h, s, y, hy => by
    rcases List.mem_cons.mp hy with rfl | hy
    · exact x.judges ht.left h.1 s
    · exact b.judges ht.right h.2 s y hy

theorem Statement.judges : ∀ d : Statement, Covers large d.tokens → d.tree.IsWritten → ∀ s,
    JudgesIf large (stmt tracer s d.tree)
  | .declare _ x type value _, ht, h, _ =>
    judges_declare x.isLine (type.names fun x => x.isLine) (value.judges ht.tail.tail.right.left h)
  | .branch _ c _ t e _, ht, h, _ =>
    judges_branch (Tiered.judges c ht.tail.left h.1)
      (fun s => judges_block (t.judges ht.tail.right.tail.left h.2.1 s))
      fun s => judges_block (e.judges ht.tail.right.tail.right.left h.2.2 s)
  | .switch _ c cs _, ht, h, s => judges_switch (Tiered.judges c ht.tail.left h.1) fun t =>
      judges_cases (cs.judges ht.tail.right.left h.2 s t)
  | .loop _ c _ b _, ht, h, _ =>
    judges_loop (Tiered.judges c ht.tail.left h.1) fun s =>
      judges_block (b.judges ht.tail.right.tail.left h.2 s)
  | .ret _ e _, ht, h, _ => judges_ret (Tiered.judges e ht.tail.left h)
  | .simple e .none _, ht, h, _ => judges_exprStmt (Tiered.judges e ht.left h)
  | .simple e (.some _ v) _, ht, h, _ =>
    judges_assign (Tiered.isTreeOf (fun x => x.isLine) e).isLinePlace
      (Tiered.judges e ht.left h.1) (Tiered.judges v ht.right.left.tail h.2)

theorem Else.judges : ∀ d : Else, Covers large d.tokens → Stmt.AreWritten d.trees →
    ∀ s, ∀ x ∈ d.trees, JudgesIf large (stmt tracer s x)
  | .some _ b, ht, h, s, x, hx => b.judges ht.tail h s x hx

theorem Cases.judges : ∀ d : Cases, Covers large d.tokens → Case.AreWritten d.trees →
    ∀ s t, ∀ c ∈ d.trees, JudgesIf large (case tracer s t c)
  | .default _ b, ht, h, s, t, c, hc => by
    obtain rfl := List.mem_singleton.mp hc
    exact judges_otherwise fun s => judges_block (b.judges ht.tail h.1 s)
  | .cons _ e _ b more, ht, h, s, t, c, hc => by
    rcases List.mem_cons.mp hc with rfl | hc
    · exact judges_equals (Tiered.judges e ht.tail.left h.1.1) fun s =>
        judges_block (b.judges ht.tail.right.tail.left h.1.2 s)
    · exact more.judges ht.tail.right.tail.right h.2 s t c hc

end

/-! #### Declarations -/

theorem GlobalItem.judges (d : GlobalItem) (ht : Covers large d.tokens)
    (h : (Global.decl d.tree).IsWritten) (s : Nat) :
    JudgesIf large (global tracer s (.decl d.tree)) := by
  refine judges_global d.x.isLine (d.type.names fun x => x.isLine) (fun declared => ?_) rfl
  have ht : Covers large d.value.tokens := ht.tail.tail.right.left
  change Expr.MayBeWritten d.value.tree at h
  change JudgesIf large (globalInitial tracer s declared d.value.tree)
  cases hvalue : d.value with
  | none => exact judges_initial nofun
  | expr _ e =>
    rw [hvalue] at h ht
    have hitem : ¬ (Tiered.tree e).isItemized = true := by simp [Tiered.isItemized_tree e]
    rw [GlobalInit.tree, globalInitial_eq_initial fun h => (hitem h).elim]
    refine judges_initial fun x hx => ?_
    obtain rfl := Option.some.inj hx
    exact Tiered.judges e ht.tail h
  | list _ _ es _ =>
    rw [hvalue] at h ht
    exact judges_globalInitial_list (es.judges ht.tail.tail.left h) es.trees_ne_nil

theorem FunctionItem.judges (d : FunctionItem) (ht : Covers large d.tokens)
    (h : (Func.decl d.tree).IsWritten) (s : Nat) :
    JudgesIf large (func tracer s (.decl d.tree)) := by
  obtain ⟨hx, hps, hn, -⟩ := d.isTreeOf fun x => x.isLine
  have ht : Covers large d.body.tokens := ht.tail.tail.tail.right.tail.right.tail.left
  rw [func]
  exact (judges_funcDecl hx hps hn (d.body.judges ht h) rfl).bind fun d r hr => .pure hr

end Statements

end Grammar

/-! #### Programs -/

/-- The analysis of a declaration of a text fails only with a verdict. -/
theorem judgesIf_declarations {text : String} {p : Program} (hp : readProgram text = .ok p)
    (hlarge : ∀ ts, tokenize text = .ok ts → Grammar.Covers large ts) (tracer : Tracer) (s : Nat) :
    (∀ g ∈ p.globals, Analysis.JudgesIf large (Analysis.global tracer s g)) ∧
      ∀ f ∈ p.functions, Analysis.JudgesIf large (Analysis.func tracer s f) := by
  have hwritten := isWritten_of_readProgram hp
  obtain ⟨d, hts, rfl⟩ := exists_yield_of_readProgram hp
  have ht : Grammar.Covers large d.tokens := hlarge _ hts
  constructor
  · intro g hg
    obtain ⟨x, hx, rfl⟩ := List.mem_map.mp hg
    refine x.judges (fun t h => ?_) (hwritten.globals _ hg) s
    exact ht.left t (List.mem_flatMap_of_mem hx h)
  · intro f hf
    obtain ⟨x, hx, rfl⟩ := List.mem_map.mp hf
    refine x.judges (fun t h => ?_) (hwritten.functions _ hf) s
    exact ht.right t (List.mem_flatMap_of_mem hx h)

theorem judgesIf_of_readProgram {text : String} {p : Program} (hp : readProgram text = .ok p)
    (hlarge : ∀ ts, tokenize text = .ok ts → Grammar.Covers large ts) (tracer : Tracer) :
    Analysis.JudgesIf large (Analysis.program tracer p) :=
  Analysis.judges_program (fun s => (judgesIf_declarations hp hlarge tracer s).1)
    fun s => (judgesIf_declarations hp hlarge tracer s).2

/-- **The analysis of a program of a text fails only with a verdict.** -/
theorem judges_of_readProgram {text : String} {p : Program} (hp : readProgram text = .ok p)
    (tracer : Tracer) : Analysis.JudgesIf True (Analysis.program tracer p) :=
  judgesIf_of_readProgram hp (fun _ _ _ _ _ => trivial) tracer

/-- Where the lines of the trace go makes no difference to the analysis of declarations of a
text. -/
theorem Analysis.program_console_of_readProgram {text : String} {p q : Program}
    (hp : readProgram text = .ok p) (hgs : q.globals ⊆ p.globals) (hfs : q.functions ⊆ p.functions)
    (tracer : Tracer) (a : Analyzer) :
    Analysis.program tracer q a = Analysis.program (Tracer.console tracer.level) q a := by
  have hjudged (s : Nat) := judgesIf_declarations hp (fun _ _ _ _ _ => trivial) tracer s
  have hq : Analysis.JudgesIf True (Analysis.program tracer q) :=
    Analysis.judges_program (fun s g hg => (hjudged s).1 g (hgs hg))
      fun s f hf => (hjudged s).2 f (hfs hf)
  exact Analysis.program_console fun _ hflaw => by cases hq a _ hflaw

/-- **The analysis of a program of a text succeeds or fails for an unknown name or a violated typing
rule, unless the text has a large decimal; then it may overflow.** -/
theorem program_verdict {text : String} {p : Program} (hp : readProgram text = .ok p)
    (tracer : Tracer) :
    let verdict := ((Analysis.program tracer p).run Analyzer.fresh).1.2
    verdict = .ok () ∨ (∃ problem, verdict = .error (.name problem)) ∨
      (∃ problem, verdict = .error (.type problem)) ∨
        (verdict = .error (.signal .overflow) ∧
          ∃ ts, tokenize text = .ok ts ∧ ∃ t ∈ ts, t.IsLarge) := by
  intro verdict
  have hjudged : JudgedIf (∃ ts, tokenize text = .ok ts ∧ ∃ t ∈ ts, t.IsLarge) verdict :=
    judgesIf_of_readProgram hp (fun ts hts t ht hlarge => ⟨ts, hts, t, ht, hlarge⟩) tracer
      Analyzer.fresh
  clear_value verdict
  cases verdict with
  | ok u => exact .inl rfl
  | error f =>
    cases hjudged f rfl with
    | name _ => exact .inr (.inl ⟨_, rfl⟩)
    | type _ => exact .inr (.inr (.inl ⟨_, rfl⟩))
    | overflow hlarge => exact .inr (.inr (.inr ⟨rfl, hlarge⟩))

/-- An initial value of another type than the one declared. -/
theorem program_verdict_mismatch :
    ∃ p, readProgram "VAR n: Integer = TRUE;" = .ok p ∧ ∃ problem,
      ((Analysis.program 0 p).run Analyzer.fresh).1.2 = .error (.type problem) := by
  refine ⟨_, by cbv, ?_⟩
  have h := @program_verdict "VAR n: Integer = TRUE;" _ (by cbv) 0
  dsimp only at h
  rcases h with hok | ⟨problem, hname⟩ | htype | ⟨hover, -⟩
  · cases (hok : (.error (.type _) : Except Failure Unit) = _)
  · cases (hname : (.error (.type _) : Except Failure Unit) = _)
  · exact htype
  · cases (hover : (.error (.type _) : Except Failure Unit) = _)

end Scriptlet
