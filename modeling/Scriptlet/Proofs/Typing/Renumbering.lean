import Scriptlet.Proofs.Typing.Declared

/-! # Derivations that differ in their numbers

Analysis numbers declarations in the order in which it walks them. If it walks a part of a program
in two contexts that are the same up to the numbers of their declarations, what it writes into the
slots is the same up to these numbers.

* `renumber ρ`: the numbers of declarations in slots are changed by `ρ`.
* `Context.Matches`: two contexts are the same up to the numbers of declarations, and so are the
  numbers that they will give out.
* `Stmt.Typed.renumber`, `FuncDecl.Typed.renumber`, `Global.ListTyped.renumber`: parts of programs
  that were written alike have records that are the same up to the numbers, in contexts that match.
-/

namespace Scriptlet

/-! ### New numbers -/

/-- An origin with another number of its declaration. -/
def Origin.renumber (ρ : Nat → Nat) (o : Origin) : Origin :=
  { o with declaration := ρ o.declaration }

/-- A variable with another number of its declaration. -/
def Variable.renumber (ρ : Nat → Nat) (v : Variable) : Variable :=
  { v with origin := v.origin.renumber ρ }

/-- A signature with another number of its declaration. -/
def Signature.renumber (ρ : Nat → Nat) (f : Signature) : Signature :=
  { f with declaration := ρ f.declaration }

mutual

/-- An expression with other numbers of declarations in its slots. -/
def Expr.renumber (ρ : Nat → Nat) : Expr → Expr
  | .literal v k t => .literal v k t
  | .group e t => .group (e.renumber ρ) t
  | .binary op l r t => .binary op (l.renumber ρ) (r.renumber ρ) t
  | .name x v t => .name x (v.map (Variable.renumber ρ)) t
  | .index x o v t => .index x (o.renumber ρ) (v.map (Variable.renumber ρ)) t
  | .call x args f t => .call x (Expr.renumberAll ρ args) (f.map (Signature.renumber ρ)) t
  | .list vs t => .list (Expr.renumberAll ρ vs) t
  | .hole h => .hole h
termination_by structural e => e

/-- Expressions with other numbers of declarations in their slots. -/
def Expr.renumberAll (ρ : Nat → Nat) : List Expr → List Expr
  | [] => []
  | e :: es => e.renumber ρ :: Expr.renumberAll ρ es
termination_by structural es => es

end

mutual

/-- A statement with other numbers of declarations in its slots. -/
def Stmt.renumber (ρ : Nat → Nat) : Stmt → Stmt
  | .expr e => .expr (e.renumber ρ)
  | .declare x n value v =>
    .declare x n (value.map (Expr.renumber ρ)) (v.map (Variable.renumber ρ))
  | .assign r e => .assign (r.renumber ρ) (e.renumber ρ)
  | .branch c t e => .branch (c.renumber ρ) (Stmt.renumberBlock ρ t) (Stmt.renumberBlock ρ e)
  | .switch c cs => .switch (c.renumber ρ) (Case.renumberAll ρ cs)
  | .loop c b => .loop (c.renumber ρ) (Stmt.renumberBlock ρ b)
  | .ret e => .ret (e.renumber ρ)
  | .hole h => .hole h
termination_by structural x => x

/-- A block with other numbers of declarations in its slots. -/
def Stmt.renumberBlock (ρ : Nat → Nat) : List Stmt → List Stmt
  | [] => []
  | x :: xs => x.renumber ρ :: Stmt.renumberBlock ρ xs
termination_by structural xs => xs

/-- A case with other numbers of declarations in its slots. -/
def Case.renumber (ρ : Nat → Nat) : Case → Case
  | .equals e b => .equals (e.renumber ρ) (Stmt.renumberBlock ρ b)
  | .otherwise b => .otherwise (Stmt.renumberBlock ρ b)
  | .blockless e => .blockless (e.map (Expr.renumber ρ))
  | .hole h => .hole h
termination_by structural c => c

/-- Cases with other numbers of declarations in their slots. -/
def Case.renumberAll (ρ : Nat → Nat) : List Case → List Case
  | [] => []
  | c :: cs => c.renumber ρ :: Case.renumberAll ρ cs
termination_by structural cs => cs

end

/-- A declaration of a global with other numbers of declarations in its slots. -/
def GlobalDecl.renumber (ρ : Nat → Nat) (d : GlobalDecl) : GlobalDecl :=
  { d with
    value := d.value.map (Expr.renumber ρ)
    declared := d.declared.map (Variable.renumber ρ) }

/-- A member of the globals with other numbers of declarations in its slots. -/
def Global.renumber (ρ : Nat → Nat) : Global → Global
  | .decl d => .decl (d.renumber ρ)
  | .fragment x n value => .fragment x n (value.map (Option.map (Expr.renumber ρ)))
  | .hole h => .hole h

/-- A declaration of a function with other numbers of declarations in its slots. -/
def FuncDecl.renumber (ρ : Nat → Nat) (d : FuncDecl) : FuncDecl :=
  { d with
    body := Stmt.renumberBlock ρ d.body
    signature := d.signature.map (Signature.renumber ρ) }

/-- A member of the functions with other numbers of declarations in its slots. -/
def Func.renumber (ρ : Nat → Nat) : Func → Func
  | .decl d => .decl (d.renumber ρ)
  | .hole h => .hole h

variable {ρ : Nat → Nat} {hi : Nat} {Γ Δ Γ' Δ' : Context}

/-! ### Contexts that match -/

/-- Whether the functions of two contexts are the same up to the numbers of declarations, as far as
both contexts know them. -/
def Context.Agrees (ρ : Nat → Nat) (Γ Δ : Context) : Prop :=
  ∀ k n f g, Γ.findFunction? k n = some f → Δ.findFunction? k n = some g → g = f.renumber ρ

/-- Whether two contexts are the same up to the numbers of declarations, and so are the numbers that
they will give out, up to a bound. -/
structure Context.Matches (ρ : Nat → Nat) (hi : Nat) (Γ Δ : Context) : Prop where
  vars : Δ.vars = Γ.vars.map (Variable.renumber ρ)
  funs : Γ.Agrees ρ Δ
  next : ∀ i, Γ.next + i < hi → ρ (Γ.next + i) = Δ.next + i

namespace Context.Matches

theorem findVariable? (h : Γ.Matches ρ hi Δ) (k : Key) :
    Δ.findVariable? k = (Γ.findVariable? k).map (Variable.renumber ρ) := by
  rw [Context.findVariable?, Context.findVariable?, h.vars, List.find?_map]
  rfl

/-- The next declaration gets numbers that match. -/
theorem next_self (h : Γ.Matches ρ hi Δ) (hlt : Γ.next < hi) : ρ Γ.next = Δ.next :=
  h.next 0 hlt

theorem declare (h : Γ.Matches ρ hi Δ) (v : Variable) :
    (Γ.declare v).Matches ρ hi (Δ.declare (v.renumber ρ)) := by
  refine ⟨congrArg (v.renumber ρ :: ·) h.vars, h.funs, fun i hi => ?_⟩
  have hnext := h.next (1 + i)
  simp only [Context.declare, Nat.add_assoc] at hi ⊢
  exact hnext hi

theorem leave (h : Γ.Matches ρ hi Δ) (h' : Γ'.Matches ρ hi Δ') :
    (Γ.leave Γ').Matches ρ hi (Δ.leave Δ') :=
  ⟨h.vars, h.funs, h'.next⟩

end Context.Matches

/-! ### Expressions -/

theorem LiteralRule.unique {v : Datum} {k : LiteralKind} {t s : Ty} (h : LiteralRule v k t)
    (h' : LiteralRule v k s) : s = t := by
  cases h <;> cases h' <;> rfl

theorem OperatorRule.unique {op : String} {l r t s : Ty} (h : OperatorRule op l r t)
    (h' : OperatorRule op l r s) : s = t :=
  Except.ok.inj ((binaryType_of_rule h').symm.trans (binaryType_of_rule h))

theorem Expr.length_renumberAll (ρ : Nat → Nat) (es : List Expr) :
    (Expr.renumberAll ρ es).length = es.length := by
  induction es with
  | nil => rw [Expr.renumberAll]
  | cons e es ih => rw [Expr.renumberAll, List.length_cons, List.length_cons, ih]

/-- A name means the same up to the numbers of declarations. -/
theorem Context.Matches.variable_eq (hΓ : Γ.Matches ρ hi Δ) {x : Name} {k l : Key} {v w : Variable}
    (hk : x.key = .ok k) (hv : Γ.findVariable? k = some v) (hl : x.key = .ok l)
    (hw : Δ.findVariable? l = some w) : w = v.renumber ρ := by
  cases hk.symm.trans hl
  rw [hΓ.findVariable?, hv] at hw
  exact (Option.some.inj hw).symm

mutual

/-- **Expressions that were written alike have the same types and the same meanings**, up to the
numbers of declarations, in contexts that match. -/
theorem Expr.HasType.renumber (hΓ : Γ.Matches ρ hi Δ) : ∀ {e e' : Expr} {t t' : Ty},
    e.HasType Γ t → e'.HasType Δ t' → e'.erase = e.erase → e' = e.renumber ρ ∧ t' = t
  | _, _, _, _, .literal hrule, h', herase => by
    cases h' with
    | literal hrule' =>
      obtain ⟨rfl, rfl, -⟩ := Expr.literal.inj herase
      obtain rfl := hrule.unique hrule'
      exact ⟨rfl, rfl⟩
    | _ => cases herase
  | _, _, _, _, .group he, h', herase => by
    cases h' with
    | group he' =>
      obtain ⟨rfl, rfl⟩ := he.renumber hΓ he' (Expr.group.inj herase).1
      exact ⟨rfl, rfl⟩
    | _ => cases herase
  | _, _, _, _, .binary hl hr hrule, h', herase => by
    cases h' with
    | binary hl' hr' hrule' =>
      obtain ⟨rfl, hlerase, hrerase, -⟩ := Expr.binary.inj herase
      obtain ⟨rfl, rfl⟩ := hl.renumber hΓ hl' hlerase
      obtain ⟨rfl, rfl⟩ := hr.renumber hΓ hr' hrerase
      obtain rfl := hrule.unique hrule'
      exact ⟨rfl, rfl⟩
    | _ => cases herase
  | _, _, _, _, .name hk hv ht, h', herase => by
    cases h' with
    | name hk' hv' ht' =>
      obtain ⟨rfl, -⟩ := Expr.name.inj herase
      obtain rfl := hΓ.variable_eq hk hv hk' hv'
      obtain rfl := ht.symm.trans ht'
      exact ⟨rfl, rfl⟩
    | _ => cases herase
  | _, _, _, _, .index ho hi hk hv ht, h', herase => by
    cases h' with
    | index ho' hi' hk' hv' ht' =>
      obtain ⟨rfl, hoerase, -⟩ := Expr.index.inj herase
      obtain ⟨rfl, rfl⟩ := ho.renumber hΓ ho' hoerase
      obtain rfl := hΓ.variable_eq hk hv hk' hv'
      obtain rfl := Ty.list.inj (ht.symm.trans ht')
      exact ⟨rfl, rfl⟩
    | _ => cases herase
  | _, _, _, _, .call hargs hk hf hparams ht, h', herase => by
    cases h' with
    | call hargs' hk' hf' hparams' ht' =>
      obtain ⟨rfl, hargserase, -⟩ := Expr.call.inj herase
      obtain ⟨rfl, rfl⟩ := hargs.renumber hΓ hargs' hargserase
      cases hk.symm.trans hk'
      rw [Expr.length_renumberAll] at hf'
      obtain rfl := hΓ.funs _ _ _ _ hf hf'
      obtain rfl := ht.symm.trans ht'
      exact ⟨rfl, rfl⟩
    | _ => cases herase
  | _, _, _, _, .list hes hts, h', herase => by
    cases h' with
    | list hes' hts' =>
      obtain ⟨hvalues, htypes⟩ := hes.renumber hΓ hes' (Expr.list.inj herase).1
      obtain ⟨rfl, rfl⟩ := List.cons.inj htypes
      exact ⟨by rw [Expr.renumber, hvalues], rfl⟩
    | _ => cases herase

theorem Expr.HaveTypes.renumber (hΓ : Γ.Matches ρ hi Δ) : ∀ {es es' : List Expr} {ts ts' : List Ty},
    Expr.HaveTypes Γ es ts → Expr.HaveTypes Δ es' ts' → Expr.eraseAll es' = Expr.eraseAll es →
      es' = Expr.renumberAll ρ es ∧ ts' = ts
  | _, _, _, _, .nil, h', herase => by
    cases h' with
    | nil => exact ⟨rfl, rfl⟩
    | cons _ _ => cases herase
  | _, _, _, _, .cons he hes, h', herase => by
    cases h' with
    | nil => cases herase
    | cons he' hes' =>
      obtain ⟨heerase, hesrase⟩ := List.cons.inj herase
      obtain ⟨rfl, rfl⟩ := he.renumber hΓ he' heerase
      obtain ⟨rfl, rfl⟩ := hes.renumber hΓ hes' hesrase
      exact ⟨rfl, rfl⟩

end

/-! ### Statements -/

theorem Declares.renumber (hΓ : Γ.Matches ρ hi Δ) {n : Option Name} {value value' : Option Expr}
    {t t' : Ty} (h : Declares Γ n value t) (h' : Declares Δ n value' t')
    (herase : value'.map Expr.erase = value.map Expr.erase) :
    value' = value.map (Expr.renumber ρ) ∧ t' = t := by
  cases h with
  | written hn =>
    cases h' with
    | written hn' => exact ⟨rfl, hn.unique hn'⟩
    | checked _ _ _ => cases herase
  | inferred he =>
    cases h' with
    | inferred he' =>
      obtain ⟨rfl, rfl⟩ := he.renumber hΓ he' (Option.some.inj herase)
      exact ⟨rfl, rfl⟩
  | checked hn he _ =>
    cases h' with
    | written _ => cases herase
    | checked hn' he' _ =>
      obtain ⟨rfl, -⟩ := he.renumber hΓ he' (Option.some.inj herase)
      exact ⟨rfl, hn.unique hn'⟩

mutual

/-- **Statements that were written alike are recorded alike**, up to the numbers of declarations,
and they lead to contexts that match. -/
theorem Stmt.Typed.renumber : ∀ {Γ Γ' Δ Δ' : Context} {x x' : Stmt}, Stmt.Typed Γ x Γ' →
    Stmt.Typed Δ x' Δ' → x'.erase = x.erase → Γ.Matches ρ hi Δ → Γ'.next ≤ hi →
      x' = x.renumber ρ ∧ Γ'.Matches ρ hi Δ'
  | _, _, _, _, _, _, .expr he, h', herase, hΓ, _ => by
    cases h' with
    | expr he' =>
      obtain ⟨rfl, -⟩ := he.renumber hΓ he' (Stmt.expr.inj herase)
      exact ⟨rfl, hΓ⟩
    | _ => cases herase
  | _, _, _, _, _, _, .declare ht hk hv, h', herase, hΓ, hle => by
    cases h' with
    | declare ht' hk' hv' =>
      obtain ⟨rfl, rfl, hvalue, -⟩ := Stmt.declare.inj herase
      obtain ⟨rfl, rfl⟩ := ht.renumber hΓ ht' hvalue
      have hvariable := hv'
      rw [← hΓ.next_self hle] at hvariable
      subst hv hvariable
      exact ⟨rfl, hΓ.declare _⟩
    | _ => cases herase
  | _, _, _, _, _, _, .assign hr hv hmut he hts, h', herase, hΓ, _ => by
    cases h' with
    | assign hr' hv' hmut' he' hts' =>
      obtain ⟨hrerase, heerase⟩ := Stmt.assign.inj herase
      obtain ⟨rfl, -⟩ := hr.renumber hΓ hr' hrerase
      obtain ⟨rfl, -⟩ := he.renumber hΓ he' heerase
      exact ⟨rfl, hΓ⟩
    | _ => cases herase
  | _, _, _, _, _, _, .branch hc hs hthen helse, h', herase, hΓ, hle => by
    cases h' with
    | branch hc' hs' hthen' helse' =>
      obtain ⟨hcerase, hterase, heerase⟩ := Stmt.branch.inj herase
      obtain ⟨rfl, -⟩ := hc.renumber hΓ hc' hcerase
      have hmiddle := helse.numbered.le
      obtain ⟨hthen, hΓ₁⟩ := hthen.renumber hthen' hterase hΓ (hmiddle.trans hle)
      obtain ⟨rfl, hΓ₂⟩ := helse.renumber helse' heerase (hΓ.leave hΓ₁) hle
      exact ⟨by rw [Stmt.renumber, hthen], hΓ.leave hΓ₂⟩
    | _ => cases herase
  | _, _, _, _, _, _, .switch hc hcs, h', herase, hΓ, hle => by
    cases h' with
    | switch hc' hcs' =>
      obtain ⟨hcerase, hcserase⟩ := Stmt.switch.inj herase
      obtain ⟨rfl, htype⟩ := hc.renumber hΓ hc' hcerase
      rw [htype] at hcs'
      obtain ⟨rfl, hΓ'⟩ := hcs.renumber hcs' hcserase hΓ hle
      exact ⟨rfl, hΓ'⟩
    | _ => cases herase
  | _, _, _, _, _, _, .loop hc hs hb, h', herase, hΓ, hle => by
    cases h' with
    | loop hc' hs' hb' =>
      obtain ⟨hcerase, hberase⟩ := Stmt.loop.inj herase
      obtain ⟨rfl, -⟩ := hc.renumber hΓ hc' hcerase
      obtain ⟨rfl, hΓ'⟩ := hb.renumber hb' hberase hΓ hle
      exact ⟨rfl, hΓ.leave hΓ'⟩
    | _ => cases herase
  | _, _, _, _, _, _, .ret he, h', herase, hΓ, _ => by
    cases h' with
    | ret he' =>
      obtain ⟨rfl, -⟩ := he.renumber hΓ he' (Stmt.ret.inj herase)
      exact ⟨rfl, hΓ⟩
    | _ => cases herase
termination_by structural _ _ _ _ _ _ h => h

theorem Stmt.BlockTyped.renumber : ∀ {Γ Γ' Δ Δ' : Context} {xs xs' : List Stmt},
    Stmt.BlockTyped Γ xs Γ' → Stmt.BlockTyped Δ xs' Δ' →
      Stmt.eraseBlock xs' = Stmt.eraseBlock xs → Γ.Matches ρ hi Δ → Γ'.next ≤ hi →
        xs' = Stmt.renumberBlock ρ xs ∧ Γ'.Matches ρ hi Δ'
  | _, _, _, _, _, _, .nil, h', herase, hΓ, _ => by
    cases h' with
    | nil => exact ⟨rfl, hΓ⟩
    | cons _ _ => cases herase
  | _, _, _, _, _, _, .cons hx hxs, h', herase, hΓ, hle => by
    cases h' with
    | nil => cases herase
    | cons hx' hxs' =>
      obtain ⟨hxerase, hxserase⟩ := List.cons.inj herase
      obtain ⟨rfl, hΓ₁⟩ := hx.renumber hx' hxerase hΓ (hxs.numbered.le.trans hle)
      obtain ⟨rfl, hΓ₂⟩ := hxs.renumber hxs' hxserase hΓ₁ hle
      exact ⟨rfl, hΓ₂⟩
termination_by structural _ _ _ _ _ _ h => h

theorem Case.Typed.renumber : ∀ {Γ Γ' Δ Δ' : Context} {t : Ty} {c c' : Case},
    Case.Typed Γ t c Γ' → Case.Typed Δ t c' Δ' → c'.erase = c.erase → Γ.Matches ρ hi Δ →
      Γ'.next ≤ hi → c' = c.renumber ρ ∧ Γ'.Matches ρ hi Δ'
  | _, _, _, _, _, _, _, .equals he hts hb, h', herase, hΓ, hle => by
    cases h' with
    | equals he' hts' hb' =>
      obtain ⟨heerase, hberase⟩ := Case.equals.inj herase
      obtain ⟨rfl, -⟩ := he.renumber hΓ he' heerase
      obtain ⟨rfl, hΓ'⟩ := hb.renumber hb' hberase hΓ hle
      exact ⟨rfl, hΓ.leave hΓ'⟩
    | otherwise _ => cases herase
  | _, _, _, _, _, _, _, .otherwise hb, h', herase, hΓ, hle => by
    cases h' with
    | equals _ _ _ => cases herase
    | otherwise hb' =>
      obtain ⟨rfl, hΓ'⟩ := hb.renumber hb' (Case.otherwise.inj herase) hΓ hle
      exact ⟨rfl, hΓ.leave hΓ'⟩
termination_by structural _ _ _ _ _ _ _ h => h

theorem Case.ListTyped.renumber : ∀ {Γ Γ' Δ Δ' : Context} {t : Ty} {cs cs' : List Case},
    Case.ListTyped Γ t cs Γ' → Case.ListTyped Δ t cs' Δ' → Case.eraseAll cs' = Case.eraseAll cs →
      Γ.Matches ρ hi Δ → Γ'.next ≤ hi → cs' = Case.renumberAll ρ cs ∧ Γ'.Matches ρ hi Δ'
  | _, _, _, _, _, _, _, .nil, h', herase, hΓ, _ => by
    cases h' with
    | nil => exact ⟨rfl, hΓ⟩
    | cons _ _ => cases herase
  | _, _, _, _, _, _, _, .cons hc hcs, h', herase, hΓ, hle => by
    cases h' with
    | nil => cases herase
    | cons hc' hcs' =>
      obtain ⟨hcerase, hcserase⟩ := List.cons.inj herase
      obtain ⟨rfl, hΓ₁⟩ := hc.renumber hc' hcerase hΓ (hcs.numbered.le.trans hle)
      obtain ⟨rfl, hΓ₂⟩ := hcs.renumber hcs' hcserase hΓ₁ hle
      exact ⟨rfl, hΓ₂⟩
termination_by structural _ _ _ _ _ _ _ h => h

end

/-! ### Globals -/

theorem isItemized_of_erase_eq {e e' : Expr} (h : e'.erase = e.erase) :
    e'.isItemized = e.isItemized := by
  rw [← Analysis.isItemized_erase, h, Analysis.isItemized_erase]

theorem GlobalDecl.exists_of_erase_eq {d d' : GlobalDecl} (h : d'.erase = d.erase) :
    ∃ value declared, d' = { d with value, declared } ∧
      value.map Expr.erase = d.value.map Expr.erase := by
  obtain ⟨x, mutable, n, value, isList, slot⟩ := d
  obtain ⟨hx, hmutable, hn, hvalue, hlist, -⟩ := GlobalDecl.mk.inj h
  cases hx
  cases hmutable
  cases hn
  cases hlist
  exact ⟨d'.value, d'.declared, rfl, hvalue⟩

theorem GlobalDecl.Declares.renumber (hΓ : Γ.Matches ρ hi Δ) {d : GlobalDecl}
    {value : Option Expr} {slot : Option Variable} {t t' : Ty} (h : d.Declares Γ t)
    (h' : { d with value, declared := slot }.Declares Δ t')
    (herase : value.map Expr.erase = d.value.map Expr.erase) :
    value = d.value.map (Expr.renumber ρ) ∧ t' = t := by
  -- a list of items is held against the type of its elements on both sides
  have hform {e e' : Expr} (he : e.erase = e'.erase) (hitems : e'.isItemized = true) :
      e.isItemized = false → False := by
    rw [isItemized_of_erase_eq he, hitems]
    exact nofun
  cases h with
  | written hd hn hnone =>
    rw [hnone] at herase ⊢
    obtain rfl := Option.map_eq_none_iff.mp herase
    cases h' with
    | written hd' hn' _ =>
      cases hd.symm.trans hd'
      obtain rfl := hn.unique hn'
      exact ⟨rfl, rfl⟩
    | inferred _ hsome _ => cases hsome
    | checked _ _ hsome _ _ _ => cases hsome
    | items _ _ _ hsome _ _ => cases hsome
  | inferred hd hsome he =>
    rw [hsome] at herase ⊢
    obtain ⟨e', rfl, heerase⟩ := Option.map_eq_some_iff.mp herase
    cases h' with
    | written hd' _ _ => cases hd.symm.trans hd'
    | inferred _ hvalue' he' =>
      cases hvalue'
      obtain ⟨rfl, rfl⟩ := he.renumber hΓ he' heerase
      exact ⟨rfl, rfl⟩
    | checked hd' _ _ _ _ _ => cases hd.symm.trans hd'
    | items hd' _ _ _ _ _ => cases hd.symm.trans hd'
  | checked hd hn hsome hitems he _ =>
    rw [hsome] at herase ⊢
    obtain ⟨e', rfl, heerase⟩ := Option.map_eq_some_iff.mp herase
    cases h' with
    | written _ _ hnone => cases hnone
    | inferred hd' _ _ => cases hd.symm.trans hd'
    | checked hd' hn' hvalue' _ he' _ =>
      cases hd.symm.trans hd'
      cases hvalue'
      obtain rfl := hn.unique hn'
      obtain ⟨rfl, -⟩ := he.renumber hΓ he' heerase
      exact ⟨rfl, rfl⟩
    | items _ _ hlist hvalue' _ _ =>
      cases hvalue'
      exact (hform heerase.symm rfl (hitems hlist)).elim
  | items hd hn hlist hsome hes _ =>
    rw [hsome] at herase ⊢
    obtain ⟨e', rfl, heerase⟩ := Option.map_eq_some_iff.mp herase
    cases h' with
    | written _ _ hnone => cases hnone
    | inferred hd' _ _ => cases hd.symm.trans hd'
    | checked _ _ hvalue' hitems _ _ =>
      cases hvalue'
      exact (hform heerase rfl (hitems hlist)).elim
    | items hd' hn' _ hvalue' hes' _ =>
      cases hd.symm.trans hd'
      cases hvalue'
      obtain ⟨rfl, -⟩ := hes.renumber hΓ hes' (Expr.list.inj heerase).1
      obtain rfl := hn.unique hn'
      exact ⟨rfl, rfl⟩

theorem GlobalDecl.Typed.renumber {d d' : GlobalDecl} (h : d.Typed Γ Γ') (h' : d'.Typed Δ Δ')
    (herase : d'.erase = d.erase) (hΓ : Γ.Matches ρ hi Δ) (hle : Γ'.next ≤ hi) :
    d' = d.renumber ρ ∧ Γ'.Matches ρ hi Δ' := by
  obtain ⟨value, slot, rfl, hvalue⟩ := GlobalDecl.exists_of_erase_eq herase
  obtain ⟨ht, -, hv, hslot⟩ := h
  obtain ⟨ht', -, hv', hslot'⟩ := h'
  obtain ⟨rfl, rfl⟩ := ht.renumber hΓ ht' hvalue
  rw [← hΓ.next_self hle] at hv'
  subst hv hv'
  refine ⟨?_, hΓ.declare _⟩
  rw [GlobalDecl.renumber, hslot]
  exact congrArg (fun slot => { d with value := d.value.map (Expr.renumber ρ), declared := slot })
    hslot'

/-- **Globals that were written alike are recorded alike**, up to the numbers of declarations. -/
theorem Global.ListTyped.renumber : ∀ {Γ Γ' Δ Δ' : Context} {gs gs' : List Global},
    Global.ListTyped Γ gs Γ' → Global.ListTyped Δ gs' Δ' →
      gs'.map Global.erase = gs.map Global.erase → Γ.Matches ρ hi Δ → Γ'.next ≤ hi →
        gs' = gs.map (Global.renumber ρ) ∧ Γ'.Matches ρ hi Δ'
  | _, _, _, _, _, _, .nil, h', herase, hΓ, _ => by
    cases h' with
    | nil => exact ⟨rfl, hΓ⟩
    | cons _ _ => cases herase
  | _, _, _, _, _, _, .cons hd hgs, h', herase, hΓ, hle => by
    cases h' with
    | nil => cases herase
    | cons hd' hgs' =>
      obtain ⟨hderase, hgserase⟩ := List.cons.inj herase
      have hle₁ := hgs.numbered.le.trans hle
      obtain ⟨rfl, hΓ₁⟩ := hd.renumber hd' (Global.decl.inj hderase) hΓ hle₁
      obtain ⟨rfl, hΓ₂⟩ := hgs.renumber hgs' hgserase hΓ₁ hle
      exact ⟨rfl, hΓ₂⟩

/-! ### Functions -/

theorem paramVariables_renumber (ρ : Nat → Nat) (n : Nat) :
    ∀ (i : Nat) (ps : List Param) (ts : List Ty),
      paramVariables (ρ n) i ps ts = (paramVariables n i ps ts).map (Variable.renumber ρ)
  | _, [], _ => by rw [paramVariables, paramVariables, List.map_nil] <;> simp
  | _, _ :: _, [] => by rw [paramVariables, paramVariables, List.map_nil] <;> simp
  | i, p :: ps, t :: ts => by
    rw [paramVariables, paramVariables, List.map_append, paramVariables_renumber ρ n (i + 1) ps ts]
    cases Analysis.paramName? p <;> rfl

theorem FuncDecl.exists_of_erase_eq {d d' : FuncDecl} (h : d'.erase = d.erase) :
    ∃ body signature, d' = { d with body, signature } ∧
      Stmt.eraseBlock body = Stmt.eraseBlock d.body := by
  obtain ⟨x, params, n, body, slot⟩ := d
  obtain ⟨hx, hparams, hn, hbody, -⟩ := FuncDecl.mk.inj h
  cases hx
  cases hparams
  cases hn
  exact ⟨d'.body, d'.signature, rfl, hbody⟩

/-- Functions that were written alike have the same signatures. -/
theorem FuncDecl.Typed.signature_renumber {d d' : FuncDecl} (h : d.Typed Γ Γ') (h' : d'.Typed Δ Δ')
    (herase : d'.erase = d.erase) (hnext : ρ Γ.next = Δ.next) :
    d'.signature = d.signature.map (Signature.renumber ρ) := by
  obtain ⟨body, slot, rfl, -⟩ := FuncDecl.exists_of_erase_eq herase
  obtain ⟨hps, hr, -, hf, hslot, -, -, -⟩ := h
  obtain ⟨hps', hr', -, hf', hslot', -, -, -⟩ := h'
  obtain rfl := Param.rightUnique_hasType.forall₂ hps hps'
  obtain rfl := hr.unique hr'
  rw [hslot, hslot', hf, hf', ← hnext]
  rfl

/-- **Functions that were written alike are recorded alike**, up to the numbers of declarations, if
the calls in them mean the same. -/
theorem FuncDecl.Typed.renumber {d d' : FuncDecl} (h : d.Typed Γ Γ') (h' : d'.Typed Δ Δ')
    (herase : d'.erase = d.erase) (hvars : Δ.vars = Γ.vars.map (Variable.renumber ρ))
    (hfuns : Γ'.Agrees ρ Δ')
    (hnext : ∀ i, Γ.next + i < Γ'.next → ρ (Γ.next + i) = Δ.next + i) : d' = d.renumber ρ := by
  have hlt : Γ.next < Γ'.next := by
    obtain ⟨-, -, -, -, -, -, hbody, -⟩ := h
    exact hbody.numbered.le
  have hfirst : ρ Γ.next = Δ.next := hnext 0 hlt
  have hsignature := h.signature_renumber h' herase hfirst
  obtain ⟨body, slot, rfl, hbodyerase⟩ := FuncDecl.exists_of_erase_eq herase
  obtain @⟨ps, r, k, f, Γ₁, hps, -, -, -, -, -, hbody, -⟩ := h
  obtain @⟨ps', r', k', f', Δ₁, hps', -, -, -, -, -, hbody', -⟩ := h'
  obtain rfl := Param.rightUnique_hasType.forall₂ hps hps'
  have hmatches : ((Γ.declareFunction f).enter (paramVariables Γ.next 0 d.params ps)).Matches ρ
      Γ₁.next ((Δ.declareFunction f').enter (paramVariables Δ.next 0 d.params ps)) := by
    refine ⟨?_, hfuns, fun i hi => ?_⟩
    · simp only [Context.enter, Context.declareFunction, List.map_append, List.map_reverse, hvars,
        ← hfirst, paramVariables_renumber]
    · have hnext := hnext (1 + i)
      simp only [Context.enter, Context.declareFunction, Nat.add_assoc] at hi ⊢
      exact hnext hi
  obtain ⟨rfl, -⟩ := hbody.renumber hbody' hbodyerase hmatches le_rfl
  rw [FuncDecl.renumber, ← hsignature]

end Scriptlet
