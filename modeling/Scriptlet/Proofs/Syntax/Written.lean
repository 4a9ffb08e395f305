import Scriptlet.Source

/-! # Programs that come from texts

A tree that was read off a text holds only declarations, statements and expressions in their places,
and each of its literals holds a datum of its kind. An exchanged tree may be different in both.

* `isWritten_of_readProgram`: programs that come from texts are written in this sense. -/

namespace Scriptlet

/-- Whether a datum is of a kind of literals and has no more digits than are read. -/
inductive Datum.IsOf : Datum → LiteralKind → Prop where
  | nil : Datum.IsOf (.plain .null) .nil
  | boolean (b : Bool) : Datum.IsOf (.plain (.bool b)) .boolean
  | integer {n : Int} : n.natAbs < tenTo Text.maxDigits → Datum.IsOf (.plain (.int n)) .integer
  | decimal (d : Decimal) : Datum.IsOf (.decimal d) .decimal
  | character (s : String) : Datum.IsOf (.plain (.str s)) .character
  | string (s : String) : Datum.IsOf (.plain (.str s)) .string

mutual

/-- Whether an expression can be written: its literals hold data of their kinds. -/
def Expr.IsWritten : Expr → Prop
  | .literal v k _ => v.IsOf k
  | .group e _ => e.IsWritten
  | .binary _ l r _ => l.IsWritten ∧ r.IsWritten
  | .name _ _ _ => True
  | .index _ o _ _ => o.IsWritten
  | .call _ args _ _ => Expr.AreWritten args
  | .list vs _ => Expr.AreWritten vs
  | .hole _ => False
termination_by structural e => e

/-- Whether expressions can be written. -/
def Expr.AreWritten : List Expr → Prop
  | [] => True
  | e :: es => e.IsWritten ∧ Expr.AreWritten es
termination_by structural es => es

end

/-- Whether an expression, if there is one, can be written. -/
def Expr.MayBeWritten : Option Expr → Prop
  | none => True
  | some e => e.IsWritten

mutual

/-- Whether a statement can be written. -/
def Stmt.IsWritten : Stmt → Prop
  | .expr e => e.IsWritten
  | .declare _ _ value _ => Expr.MayBeWritten value
  | .assign receiver value => receiver.IsWritten ∧ value.IsWritten
  | .branch c t e => c.IsWritten ∧ Stmt.AreWritten t ∧ Stmt.AreWritten e
  | .switch c cs => c.IsWritten ∧ Case.AreWritten cs
  | .loop c b => c.IsWritten ∧ Stmt.AreWritten b
  | .ret e => e.IsWritten
  | .hole _ => False
termination_by structural x => x

/-- Whether statements can be written. -/
def Stmt.AreWritten : List Stmt → Prop
  | [] => True
  | x :: xs => x.IsWritten ∧ Stmt.AreWritten xs
termination_by structural xs => xs

/-- Whether a case can be written. -/
def Case.IsWritten : Case → Prop
  | .equals e b => e.IsWritten ∧ Stmt.AreWritten b
  | .otherwise b => Stmt.AreWritten b
  | .blockless _ => False
  | .hole _ => False
termination_by structural c => c

/-- Whether cases can be written. -/
def Case.AreWritten : List Case → Prop
  | [] => True
  | c :: cs => c.IsWritten ∧ Case.AreWritten cs
termination_by structural cs => cs

end

/-- Whether a member of the globals can be written. -/
def Global.IsWritten : Global → Prop
  | .decl d => Expr.MayBeWritten d.value
  | _ => False

/-- Whether a member of the functions can be written. -/
def Func.IsWritten : Func → Prop
  | .decl d => Stmt.AreWritten d.body
  | _ => False

/-- Whether a program can be written. -/
structure Program.IsWritten (p : Program) : Prop where
  globals : ∀ g ∈ p.globals, g.IsWritten
  functions : ∀ f ∈ p.functions, f.IsWritten

/-- A step that can fail and the steps after it succeed only together. -/
theorem ok_of_bind {ε α β : Type} {x : Except ε α} {f : α → Except ε β} {b : β}
    (h : x >>= f = .ok b) : ∃ a, x = .ok a ∧ f a = .ok b := by
  cases x with
  | error e => cases h
  | ok a => exact ⟨a, rfl, h⟩

theorem ok_bind {ε α β : Type} (a : α) (f : α → Except ε β) : Except.ok a >>= f = f a := rfl

theorem error_bind {ε α β : Type} (e : ε) (f : α → Except ε β) :
    Except.error e >>= f = .error e := rfl

theorem pure_eq_ok {ε α : Type} (a : α) : (pure a : Except ε α) = .ok a := rfl

/-! ### Integers -/

namespace Text

theorem lt_of_digitValue? {c : Char} {d : Nat} (h : digitValue? c = some d) : d < 10 := by
  obtain ⟨z, hz, rfl⟩ := Option.map_eq_some_iff.mp h
  have hrange := List.find?_some hz
  simp only [Bool.and_eq_true, decide_eq_true_eq] at hrange
  omega

theorem foldl_digits_lt : ∀ {ds : List Nat}, (∀ d ∈ ds, d < 10) → ∀ n,
    ds.foldl (fun n d => 10 * n + d) n < (n + 1) * tenTo ds.length
  | [], _, n => by simp
  | d :: ds, h, n => by
    have hd := h d List.mem_cons_self
    calc (d :: ds).foldl (fun n d => 10 * n + d) n
      _ < (10 * n + d + 1) * tenTo ds.length :=
        foldl_digits_lt (fun x hx => h x (List.mem_cons_of_mem d hx)) (10 * n + d)
      _ ≤ (10 * (n + 1)) * tenTo ds.length := Nat.mul_le_mul_right _ (by omega)
      _ = (n + 1) * tenTo (d :: ds).length := by
        rw [List.length_cons, tenTo_succ, Nat.mul_comm 10, Nat.mul_assoc, Nat.mul_comm 10]

theorem value_lt_of_length_le {number : List Char}
    (hlength : (number.filterMap digitValue?).length ≤ maxDigits) :
    (number.filterMap digitValue?).foldl (fun n d => 10 * n + d) 0 < tenTo maxDigits := by
  have hdigit : ∀ d ∈ number.filterMap digitValue?, d < 10 := by
    intro d hd
    obtain ⟨c, -, hc⟩ := List.mem_filterMap.mp hd
    exact lt_of_digitValue? hc
  have hmono {j k : Nat} (h : j ≤ k) : tenTo j ≤ tenTo k := Nat.pow_le_pow_right (by decide) h
  have hlt := foldl_digits_lt hdigit 0
  rw [Nat.zero_add, Nat.one_mul] at hlt
  exact Nat.lt_of_lt_of_le hlt (hmono hlength)

/-- An integer that is read has no more digits than are converted. -/
theorem natAbs_lt_of_readInteger {cs : List Char} {n : Int} (h : readInteger cs = .ok n) :
    n.natAbs < tenTo maxDigits := by
  unfold readInteger readIntegerWithin at h
  simp only at h
  -- the same with either sign and without one
  split at h
  all_goals
    simp only at h
    split at h
    · cases h
    split at h
    · cases h
    · next hlimit =>
      split at h
      · cases h
      · cases h
        have hlength := Nat.not_lt.mp fun hlt => hlimit (decide_eq_true hlt)
        simpa using value_lt_of_length_le hlength

end Text

namespace Parser

variable {stop : Nat}

/-! ### Expressions -/

theorem fail_ne_ok {α : Type} {w : Wanted} {ts : List Token} {a : α} :
    fail stop w ts ≠ .ok a := by
  cases ts <;> simp [fail]

theorem isWritten_of_quoted {t : Token} {k : LiteralKind} {e : Expr}
    (hk : ∀ s : String, Datum.IsOf (.plain (.str s)) k) (h : quoted t k = .ok e) :
    e.IsWritten := by
  unfold quoted at h
  split at h
  · next s _ =>
    cases h
    exact hk s
  · cases h

theorem isWritten_of_literal {t : Token} {e : Expr} (h : literal? t = some (.ok e)) :
    e.IsWritten := by
  unfold literal? at h
  split at h
  · cases h
    exact .nil
  split at h
  · cases h
    exact .boolean true
  split at h
  · cases h
    exact .boolean false
  split at h
  · obtain h := Option.some.inj h
    split at h
    · next hn =>
      cases h
      exact .integer (Text.natAbs_lt_of_readInteger hn)
    · cases h
  · obtain h := Option.some.inj h
    split at h
    · cases h
      exact .decimal _
    · cases h
  · exact isWritten_of_quoted .character (Option.some.inj h)
  · exact isWritten_of_quoted .string (Option.some.inj h)
  · cases h

mutual

theorem isWritten_of_tier : ∀ {fuel : Nat} {l : Tier} {ts : List Token} {r : Expr × List Token},
    tier stop fuel l ts = .ok r → r.1.IsWritten
  | 0, _, _, _, h => by
    rw [tier] at h
    exact (fail_ne_ok h).elim
  | _ + 1, _, _, _, h => by
    obtain ⟨⟨e, ts⟩, he, h⟩ := ok_of_bind h
    exact isWritten_of_chain (isWritten_of_operand he) h

theorem isWritten_of_operand :
    ∀ {fuel : Nat} {l : Tier} {ts : List Token} {r : Expr × List Token},
      operand stop fuel l ts = .ok r → r.1.IsWritten
  | 0, _, _, _, h => by
    rw [operand] at h
    exact (fail_ne_ok h).elim
  | fuel + 1, l, ts, r, h => by
    rw [operand] at h
    split at h
    · exact isWritten_of_tier h
    · exact isWritten_of_primary h

theorem isWritten_of_chain :
    ∀ {fuel : Nat} {l : Tier} {e : Expr} {ts : List Token} {r : Expr × List Token},
      e.IsWritten → chain stop fuel l e ts = .ok r → r.1.IsWritten
  | 0, _, _, _, _, _, h => by
    rw [chain] at h
    exact (fail_ne_ok h).elim
  | fuel + 1, l, e, ts, r, he, h => by
    rw [chain] at h
    split at h
    · obtain ⟨⟨e', ts'⟩, he', h⟩ := ok_of_bind h
      exact isWritten_of_chain (by exact ⟨he, isWritten_of_operand he'⟩) h
    · cases h
      exact he

theorem isWritten_of_primary : ∀ {fuel : Nat} {ts : List Token} {r : Expr × List Token},
    primary stop fuel ts = .ok r → r.1.IsWritten
  | 0, _, _, h => by
    rw [primary] at h
    exact (fail_ne_ok h).elim
  | _ + 1, [], _, h => by
    rw [primary] at h
    · exact (fail_ne_ok h).elim
    · exact Nat.succ_ne_zero _
  | fuel + 1, t :: ts, r, h => by
    rw [primary] at h
    split at h
    · next r' hr' =>
      cases r' with
      | error e => cases h
      | ok e =>
        cases h
        exact isWritten_of_literal hr'
    split at h
    · obtain ⟨⟨e, ts⟩, he, h⟩ := ok_of_bind h
      obtain ⟨ts, -, h⟩ := ok_of_bind h
      cases h
      have : e.IsWritten := isWritten_of_tier he
      exact this
    split at h
    · exact isWritten_of_reference h
    · exact (fail_ne_ok h).elim

theorem isWritten_of_reference :
    ∀ {fuel : Nat} {x : Name} {ts : List Token} {r : Expr × List Token},
      reference stop fuel x ts = .ok r → r.1.IsWritten
  | 0, _, _, _, h => by
    rw [reference] at h
    exact (fail_ne_ok h).elim
  | fuel + 1, x, ts, r, h => by
    rw [reference] at h
    split at h
    · simp only at h
      split at h
      · cases h
        trivial
      · obtain ⟨⟨args, ts⟩, hargs, h⟩ := ok_of_bind h
        obtain ⟨ts, -, h⟩ := ok_of_bind h
        cases h
        have : Expr.AreWritten args := areWritten_of_expressions hargs
        exact this
    split at h
    · obtain ⟨⟨o, ts⟩, ho, h⟩ := ok_of_bind h
      obtain ⟨ts, -, h⟩ := ok_of_bind h
      cases h
      have : o.IsWritten := isWritten_of_tier ho
      exact this
    · cases h
      trivial

theorem areWritten_of_expressions :
    ∀ {fuel : Nat} {ts : List Token} {r : List Expr × List Token},
      expressions stop fuel ts = .ok r → Expr.AreWritten r.1
  | 0, _, _, h => by
    rw [expressions] at h
    exact (fail_ne_ok h).elim
  | _ + 1, _, _, h => by
    obtain ⟨⟨e, ts⟩, he, h⟩ := ok_of_bind h
    have he : e.IsWritten := isWritten_of_tier he
    simp only at h
    split at h
    · obtain ⟨⟨es, ts⟩, hes, h⟩ := ok_of_bind h
      cases h
      exact ⟨he, areWritten_of_expressions hes⟩
    · cases h
      exact ⟨he, trivial⟩

end

theorem isWritten_of_expression {ts : List Token} {r : Expr × List Token}
    (h : expression stop ts = .ok r) : r.1.IsWritten :=
  isWritten_of_tier h

theorem isWritten_of_listLiteral {ts : List Token} {r : Expr × List Token}
    (h : listLiteral stop ts = .ok r) : r.1.IsWritten := by
  obtain ⟨ts, -, h⟩ := ok_of_bind h
  obtain ⟨⟨vs, ts⟩, hvs, h⟩ := ok_of_bind h
  obtain ⟨ts, -, h⟩ := ok_of_bind h
  cases h
  have : Expr.AreWritten vs := areWritten_of_expressions hvs
  exact this

theorem mayBeWritten_of_initializer {ts : List Token} {r : Option Expr × List Token}
    (h : initializer stop ts = .ok r) : Expr.MayBeWritten r.1 := by
  unfold initializer at h
  split at h
  · obtain ⟨⟨e, ts⟩, he, h⟩ := ok_of_bind h
    cases h
    exact isWritten_of_expression he
  · cases h
    trivial

/-! ### Statements -/

theorem isWritten_of_localDeclaration {ts : List Token} {r : Stmt × List Token}
    (h : localDeclaration stop ts = .ok r) : r.1.IsWritten := by
  obtain ⟨⟨n, ts⟩, -, h⟩ := ok_of_bind h
  obtain ⟨⟨t, ts⟩, -, h⟩ := ok_of_bind h
  obtain ⟨⟨v, ts⟩, hv, h⟩ := ok_of_bind h
  obtain ⟨ts, -, h⟩ := ok_of_bind h
  cases h
  have : Expr.MayBeWritten v := mayBeWritten_of_initializer hv
  exact this

theorem isWritten_of_simpleStatement {ts : List Token} {r : Stmt × List Token}
    (h : simpleStatement stop ts = .ok r) : r.1.IsWritten := by
  obtain ⟨⟨e, ts⟩, he, h⟩ := ok_of_bind h
  have he : e.IsWritten := isWritten_of_expression he
  simp only at h
  split at h
  · obtain ⟨⟨v, ts⟩, hv, h⟩ := ok_of_bind h
    obtain ⟨ts, -, h⟩ := ok_of_bind h
    cases h
    exact ⟨he, isWritten_of_expression hv⟩
  · obtain ⟨ts, -, h⟩ := ok_of_bind h
    cases h
    exact he

mutual

theorem areWritten_of_block : ∀ {fuel : Nat} {ts : List Token} {r : List Stmt × List Token},
    block stop fuel ts = .ok r → Stmt.AreWritten r.1
  | 0, _, _, h => by
    rw [block] at h
    exact (fail_ne_ok h).elim
  | fuel + 1, ts, r, h => by
    rw [block] at h
    split at h
    · cases h
      trivial
    · obtain ⟨⟨x, ts⟩, hx, h⟩ := ok_of_bind h
      obtain ⟨⟨xs, ts⟩, hxs, h⟩ := ok_of_bind h
      cases h
      exact ⟨isWritten_of_statement hx, areWritten_of_block hxs⟩

theorem isWritten_of_statement : ∀ {fuel : Nat} {ts : List Token} {r : Stmt × List Token},
    statement stop fuel ts = .ok r → r.1.IsWritten
  | 0, _, _, h => by
    rw [statement] at h
    exact (fail_ne_ok h).elim
  | fuel + 1, ts, r, h => by
    rw [statement] at h
    split at h
    · exact isWritten_of_localDeclaration h
    split at h
    · obtain ⟨⟨c, ts⟩, hc, h⟩ := ok_of_bind h
      obtain ⟨ts, -, h⟩ := ok_of_bind h
      obtain ⟨⟨t, ts⟩, ht, h⟩ := ok_of_bind h
      simp only at h
      split at h
      · obtain ⟨⟨e, ts⟩, he, h⟩ := ok_of_bind h
        obtain ⟨ts, -, h⟩ := ok_of_bind h
        cases h
        exact ⟨isWritten_of_expression hc, areWritten_of_block ht, areWritten_of_block he⟩
      · obtain ⟨⟨e, ts⟩, he, h⟩ := ok_of_bind h
        obtain ⟨ts, -, h⟩ := ok_of_bind h
        cases he
        cases h
        exact ⟨isWritten_of_expression hc, areWritten_of_block ht, trivial⟩
    split at h
    · obtain ⟨⟨c, ts⟩, hc, h⟩ := ok_of_bind h
      obtain ⟨⟨cs, ts⟩, hcs, h⟩ := ok_of_bind h
      obtain ⟨ts, -, h⟩ := ok_of_bind h
      cases h
      exact ⟨isWritten_of_expression hc, areWritten_of_cases hcs⟩
    split at h
    · obtain ⟨⟨c, ts⟩, hc, h⟩ := ok_of_bind h
      obtain ⟨ts, -, h⟩ := ok_of_bind h
      obtain ⟨⟨b, ts⟩, hb, h⟩ := ok_of_bind h
      obtain ⟨ts, -, h⟩ := ok_of_bind h
      cases h
      exact ⟨isWritten_of_expression hc, areWritten_of_block hb⟩
    split at h
    · obtain ⟨⟨v, ts⟩, hv, h⟩ := ok_of_bind h
      obtain ⟨ts, -, h⟩ := ok_of_bind h
      cases h
      have : v.IsWritten := isWritten_of_expression hv
      exact this
    · exact isWritten_of_simpleStatement h

theorem areWritten_of_cases : ∀ {fuel : Nat} {ts : List Token} {r : List Case × List Token},
    cases stop fuel ts = .ok r → Case.AreWritten r.1
  | 0, _, _, h => by
    rw [Parser.cases] at h
    exact (fail_ne_ok h).elim
  | fuel + 1, ts, r, h => by
    rw [Parser.cases] at h
    split at h
    · obtain ⟨⟨v, ts⟩, hv, h⟩ := ok_of_bind h
      obtain ⟨ts, -, h⟩ := ok_of_bind h
      obtain ⟨⟨b, ts⟩, hb, h⟩ := ok_of_bind h
      obtain ⟨⟨cs, ts⟩, hcs, h⟩ := ok_of_bind h
      cases h
      refine ⟨?_, areWritten_of_cases hcs⟩
      exact ⟨isWritten_of_expression hv, areWritten_of_block hb⟩
    · obtain ⟨ts, -, h⟩ := ok_of_bind h
      obtain ⟨⟨b, ts⟩, hb, h⟩ := ok_of_bind h
      cases h
      have : Stmt.AreWritten b := areWritten_of_block hb
      exact ⟨this, trivial⟩

end

/-! ### Declarations -/

theorem mayBeWritten_of_global {keyword : String} {ts : List Token}
    {r : GlobalDecl × List Token} (h : global stop keyword ts = .ok r) :
    Expr.MayBeWritten r.1.value := by
  obtain ⟨⟨n, ts⟩, -, h⟩ := ok_of_bind h
  obtain ⟨⟨t, ts⟩, -, h⟩ := ok_of_bind h
  simp only at h
  split at h
  · obtain ⟨⟨e, ts⟩, he, h⟩ := ok_of_bind h
    obtain ⟨⟨v, ts⟩, hv, h⟩ := ok_of_bind h
    obtain ⟨ts, -, h⟩ := ok_of_bind h
    cases hv
    cases h
    exact isWritten_of_listLiteral he
  · obtain ⟨⟨v, ts⟩, hv, h⟩ := ok_of_bind h
    obtain ⟨ts, -, h⟩ := ok_of_bind h
    cases h
    exact mayBeWritten_of_initializer hv

theorem areWritten_of_function {ts : List Token} {r : FuncDecl × List Token}
    (h : function stop ts = .ok r) : Stmt.AreWritten r.1.body := by
  obtain ⟨⟨n, ts⟩, -, h⟩ := ok_of_bind h
  obtain ⟨ts, -, h⟩ := ok_of_bind h
  simp only at h
  -- with and without parameters
  split at h
  all_goals
    obtain ⟨⟨ps, ts⟩, -, h⟩ := ok_of_bind h
    obtain ⟨ts, -, h⟩ := ok_of_bind h
    obtain ⟨⟨r, ts⟩, -, h⟩ := ok_of_bind h
    obtain ⟨ts, -, h⟩ := ok_of_bind h
    obtain ⟨⟨b, ts⟩, hb, h⟩ := ok_of_bind h
    obtain ⟨ts, -, h⟩ := ok_of_bind h
    cases h
    exact areWritten_of_block hb

theorem isWritten_of_globals : ∀ {fuel : Nat} {ts : List Token} {r : List Global × List Token},
    globals stop fuel ts = .ok r → ∀ g ∈ r.1, g.IsWritten
  | 0, _, _, h => by
    cases h
    simp
  | fuel + 1, ts, r, h => by
    rw [globals] at h
    split at h
    · obtain ⟨⟨d, ts⟩, hd, h⟩ := ok_of_bind h
      obtain ⟨⟨gs, ts⟩, hgs, h⟩ := ok_of_bind h
      cases h
      intro g hg
      rcases List.mem_cons.mp hg with rfl | hg
      · exact mayBeWritten_of_global hd
      · exact isWritten_of_globals hgs g hg
    · cases h
      simp

theorem isWritten_of_functions : ∀ {fuel : Nat} {ts : List Token} {r : List Func × List Token},
    functions stop fuel ts = .ok r → ∀ f ∈ r.1, f.IsWritten
  | 0, _, _, h => by
    cases h
    simp
  | fuel + 1, ts, r, h => by
    rw [functions] at h
    split at h
    · obtain ⟨⟨d, ts⟩, hd, h⟩ := ok_of_bind h
      obtain ⟨⟨fs, ts⟩, hfs, h⟩ := ok_of_bind h
      cases h
      intro f hf
      rcases List.mem_cons.mp hf with rfl | hf
      · exact areWritten_of_function hd
      · exact isWritten_of_functions hfs f hf
    · cases h
      simp

theorem isWritten_of_program {ts : List Token} {r : Program × List Token}
    (h : program stop ts = .ok r) : r.1.IsWritten := by
  obtain ⟨⟨gs, ts⟩, hgs, h⟩ := ok_of_bind h
  obtain ⟨⟨fs, ts⟩, hfs, h⟩ := ok_of_bind h
  simp only at h
  split at h
  · cases h
    exact ⟨isWritten_of_globals hgs, isWritten_of_functions hfs⟩
  · exact (fail_ne_ok h).elim

end Parser

/-- **Programs that come from texts are written.** -/
theorem isWritten_of_readProgram {text : String} {p : Program} (h : readProgram text = .ok p) :
    p.IsWritten := by
  obtain ⟨ts, -, h⟩ := ok_of_bind h
  obtain ⟨⟨q, rest⟩, hq, h⟩ := ok_of_bind h
  cases h
  unfold Except.mapError at hq
  split at hq
  · cases hq
  · next r hr =>
    cases hq
    exact Parser.isWritten_of_program hr

end Scriptlet
