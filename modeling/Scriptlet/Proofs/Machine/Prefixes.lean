import Mathlib.Logic.Relation
import Mathlib.Order.Nat
import Scriptlet.Proofs.Machine.Outcomes

/-! # Shorter and longer runs

A longer run does what a shorter one does and then goes on. So two runs of the same code with
different numbers of steps are held against each other: either both end alike, or the shorter one
has paused, and then the scopes of the longer one come out of its scopes by further changes.

* `Tracks S x y m`: from a state with any two numbers of steps, `y` repeats what `x` does, and
  changes scopes by `S` only.
* `IsInstant x`: the computation spends no steps, so it tracks itself. -/

namespace Scriptlet.Machine

open Relation (ReflTransGen)

variable {α β : Type} {S : Forest Binding Callable → Forest Binding Callable → Prop} {m : Machine}

/-- Whether an outcome repeats another up to the steps that are left. -/
def Repeats (outcome longer : Except Stop α × Machine) : Prop :=
  ∃ n p, n ≤ longer.2.steps ∧ outcome = (longer.1, { longer.2 with steps := n, place := p })

/-- Whether a computation with more steps repeats another one, unless that one has paused; and
whether it changes scopes by `S` only, before that point and after it. -/
def Tracks (S : Forest Binding Callable → Forest Binding Callable → Prop) (x y : Exec α)
    (m : Machine) : Prop :=
  ∀ n₁ n₂ p₁ p₂, n₁ ≤ n₂ →
    let outcome := x.run { m with steps := n₁, place := p₁ }
    let longer := y.run { m with steps := n₂, place := p₂ }
    ReflTransGen S m.scopes longer.2.scopes ∧
      (Repeats outcome longer ∨
        outcome.1 = .error .paused ∧ ReflTransGen S outcome.2.scopes longer.2.scopes)

namespace Tracks

variable {x y : Exec α} {f g : α → Exec β}

theorem mono {S' : Forest Binding Callable → Forest Binding Callable → Prop}
    (h : Tracks S x y m) (hS : ∀ a b, S a b → S' a b) : Tracks S' x y m := by
  intro n₁ n₂ p₁ p₂ hn
  obtain ⟨hscopes, hcase⟩ := h n₁ n₂ p₁ p₂ hn
  refine ⟨ReflTransGen.mono hS _ _ hscopes, ?_⟩
  rcases hcase with hsame | ⟨hpaused, hlater⟩
  · exact Or.inl hsame
  · exact Or.inr ⟨hpaused, ReflTransGen.mono hS _ _ hlater⟩

/-- What a computation does with the scopes, on its own. -/
theorem scopes (h : Tracks S x y m) (n : Nat) (p : Option Place) :
    ReflTransGen S m.scopes (y.run { m with steps := n, place := p }).2.scopes :=
  (h n n p p le_rfl).1

/-- The computation that comes next starts where the longer one got. -/
theorem bind_run (hx : Tracks S x y m)
    (hf : ∀ n p a m', y.run { m with steps := n, place := p } = (.ok a, m') →
      ReflTransGen S m.scopes m'.scopes → Tracks S (f a) (g a) m') :
    Tracks S (x >>= f) (y >>= g) m := by
  intro n₁ n₂ p₁ p₂ hn outcome longer
  obtain ⟨hscopes, hcase⟩ := hx n₁ n₂ p₁ p₂ hn
  have hf := hf n₂ p₂
  simp only [outcome, longer, run_bind]
  generalize y.run { m with steps := n₂, place := p₂ } = longer at hscopes hcase hf
  generalize x.run { m with steps := n₁, place := p₁ } = outcome at hcase
  obtain ⟨r, m₂⟩ := longer
  rcases hcase with ⟨k, p, hk, rfl⟩ | ⟨hpaused, hlater⟩
  · cases r with
    | error e => exact ⟨hscopes, Or.inl ⟨k, p, hk, rfl⟩⟩
    | ok a =>
      obtain ⟨hscopes', hcase'⟩ := hf a m₂ rfl hscopes k m₂.steps p m₂.place hk
      exact ⟨hscopes.trans hscopes', hcase'⟩
  · obtain ⟨r₁, m₁⟩ := outcome
    obtain rfl : r₁ = .error .paused := hpaused
    cases r with
    | error e => exact ⟨hscopes, Or.inr ⟨rfl, hlater⟩⟩
    | ok a =>
      have hscopes' := (hf a m₂ rfl hscopes).scopes m₂.steps m₂.place
      exact ⟨hscopes.trans hscopes', Or.inr ⟨rfl, hlater.trans hscopes'⟩⟩

theorem bind (hx : Tracks S x y m)
    (hf : ∀ a m', ReflTransGen S m.scopes m'.scopes → Tracks S (f a) (g a) m') :
    Tracks S (x >>= f) (y >>= g) m :=
  hx.bind_run fun _ _ a m' _ hscopes => hf a m' hscopes

end Tracks

/-! ### Rules for steps -/

theorem tracks_pause {y : Exec α} (h : Tracks S y y m) (p : Place) : Tracks S (pause p) y m :=
  fun n₁ n₂ p₁ p₂ hn => ⟨(h n₁ n₂ p₁ p₂ hn).1, Or.inr ⟨rfl, (h n₁ n₂ p₁ p₂ hn).1⟩⟩

theorem tracks_pause_pause (p : Place) : Tracks S (pause p : Exec α) (pause p) m :=
  fun n₁ _ _ _ hn => ⟨.refl, Or.inl ⟨n₁, some p, hn, rfl⟩⟩

theorem tracks_tick (p : Place) : Tracks S (tick p) (tick p) m := by
  intro n₁ n₂ p₁ p₂ hn
  cases n₁ with
  | zero =>
    cases n₂ with
    | zero => exact ⟨.refl, Or.inl ⟨0, some p, le_rfl, rfl⟩⟩
    | succ n₂ => exact ⟨.refl, Or.inr ⟨rfl, .refl⟩⟩
  | succ n₁ =>
    obtain ⟨n₂, rfl⟩ : ∃ n, n₂ = n + 1 := ⟨n₂ - 1, by omega⟩
    exact ⟨.refl, Or.inl ⟨n₁, p₁, Nat.le_of_succ_le_succ hn, rfl⟩⟩

/-- What comes next may read everything but the steps that are left. -/
theorem tracks_get {f g : Machine → Exec β}
    (h : ∀ n₁ n₂ p₁ p₂, Tracks S (f { m with steps := n₁, place := p₁ })
      (g { m with steps := n₂, place := p₂ }) m) : Tracks S (get >>= f) (get >>= g) m :=
  fun n₁ n₂ p₁ p₂ hn => h n₁ n₂ p₁ p₂ n₁ n₂ p₁ p₂ hn

/-- Whether a computation does not depend on the steps that are left, and spends none. -/
def IsInstant (x : Exec α) : Prop :=
  ∀ m n p, ∃ p', x.run { m with steps := n, place := p } =
    ((x.run m).1, { (x.run m).2 with steps := n, place := p' })

theorem IsInstant.bind {x : Exec α} {f : α → Exec β} (hx : IsInstant x)
    (hf : ∀ a, IsInstant (f a)) : IsInstant (x >>= f) := by
  intro m n p
  obtain ⟨p', hx⟩ := hx m n p
  rw [run_bind, run_bind, hx]
  generalize x.run m = outcome
  obtain ⟨r, m₁⟩ := outcome
  cases r with
  | error e => exact ⟨p', rfl⟩
  | ok a => exact hf a m₁ n p'

theorem isInstant_lift (r : Except Failure α) : IsInstant (lift r) := by
  cases r <;> exact fun _ _ p => ⟨p, rfl⟩

theorem isInstant_traced (vs : List Value) (r : Except Failure α) : IsInstant (traced vs r) := by
  cases r with
  | ok a => exact fun _ _ p => ⟨p, rfl⟩
  | error f => exact fun _ _ _ => ⟨some (.line vs), rfl⟩

theorem isInstant_define (s : Nat) (x : Name) (b : Binding) : IsInstant (define s x b) :=
  (isInstant_lift _).bind fun _ _ _ p => ⟨p, rfl⟩

theorem isInstant_bindArguments (s : Nat) (f : Option Signature) : ∀ i ps vs,
    IsInstant (bindArguments s f i ps vs)
  | i, p :: ps, v :: vs => by
    have hrest := isInstant_bindArguments s f (i + 1) ps vs
    cases p with
    | hole h => exact fun _ _ p => ⟨p, rfl⟩
    | typed n t => exact (isInstant_define s n _).bind fun _ => hrest
    | untyped n => exact (isInstant_define s n _).bind fun _ => hrest
  | _, [], _ => fun _ _ p => ⟨p, rfl⟩
  | _, _ :: _, [] => fun _ _ p => ⟨p, rfl⟩

theorem tracks_of_isInstant {x : Exec α} (hx : IsInstant x)
    (hscopes : ReflTransGen S m.scopes (x.run m).2.scopes) : Tracks S x x m := by
  intro n₁ n₂ p₁ p₂ hn outcome longer
  obtain ⟨p₁', h₁⟩ := hx m n₁ p₁
  obtain ⟨p₂', h₂⟩ := hx m n₂ p₂
  simp only [outcome, longer, h₁, h₂]
  exact ⟨hscopes, Or.inl ⟨n₁, p₁', hn, rfl⟩⟩

theorem tracks_pure (a : α) : Tracks S (pure a) (pure a) m :=
  tracks_of_isInstant (fun _ _ p => ⟨p, rfl⟩) .refl

theorem tracks_fail (f : Failure) : Tracks S (fail f : Exec α) (fail f) m :=
  tracks_of_isInstant (fun _ _ p => ⟨p, rfl⟩) .refl

theorem tracks_lift (r : Except Failure α) : Tracks S (lift r) (lift r) m := by
  refine tracks_of_isInstant (isInstant_lift r) ?_
  cases r <;> exact .refl

/-- What comes next starts from the same state. -/
theorem tracks_lift_bind {r : Except Failure α} {f g : α → Exec β}
    (h : ∀ a, r = .ok a → Tracks S (f a) (g a) m) : Tracks S (lift r >>= f) (lift r >>= g) m := by
  cases r with
  | ok a => exact h a rfl
  | error e => exact fun n₁ _ p₁ _ hn => ⟨.refl, Or.inl ⟨n₁, p₁, hn, rfl⟩⟩

/-- A change of everything but the scopes and the steps. -/
theorem tracks_modifyGet {f : Machine → α × Machine}
    (hf : ∀ m n p, f { m with steps := n, place := p } =
      ((f m).1, { (f m).2 with steps := n, place := p }))
    (hscopes : (f m).2.scopes = m.scopes) : Tracks S (modifyGet f) (modifyGet f) m := by
  refine tracks_of_isInstant (fun m n p => ⟨p, ?_⟩) ?_
  · change (Except.ok (f { m with steps := n, place := p }).1, _) = _
    rw [hf]
    rfl
  · change ReflTransGen S m.scopes (f m).2.scopes
    rw [hscopes]

theorem tracks_text (v : Value) : Tracks S (text v) (text v) m :=
  tracks_get fun _ _ _ _ => tracks_lift _

theorem tracks_traced (vs : List Value) (r : Except Failure α) :
    Tracks S (traced vs r) (traced vs r) m := by
  refine tracks_of_isInstant (isInstant_traced vs r) ?_
  cases r <;> exact .refl

theorem tracks_tracedText (v : Value) : Tracks S (tracedText v) (tracedText v) m :=
  tracks_get fun _ _ _ _ => tracks_traced _ _

theorem tracks_tracedTexts (vs : List Value) : Tracks S (tracedTexts vs) (tracedTexts vs) m :=
  tracks_get fun _ _ _ _ => (tracks_traced _ _).bind fun _ _ _ => tracks_traced _ _

theorem isInstant_say (tracer : Tracer) (line : Text) : IsInstant (say tracer line) := by
  unfold say
  cases tracer.write line with
  | ok s => exact fun _ _ p => ⟨p, rfl⟩
  | error f => exact fun _ _ _ => ⟨some (.unwritten line), rfl⟩

theorem isInstant_print (line : Text) : IsInstant (print line) := by
  unfold print
  cases line.written with
  | ok s => exact fun _ _ p => ⟨p, rfl⟩
  | error flaw => exact fun _ _ p => ⟨p, rfl⟩

theorem tracks_say (tracer : Tracer) (line : Text) :
    Tracks S (say tracer line) (say tracer line) m := by
  refine tracks_of_isInstant (isInstant_say tracer line) ?_
  unfold say
  cases tracer.write line <;> exact .refl

theorem tracks_print (line : Text) : Tracks S (print line) (print line) m := by
  refine tracks_of_isInstant (isInstant_print line) ?_
  unfold print
  cases line.written <;> exact .refl

/-- A line of the trace before something else. -/
theorem tracks_line {c : Prop} [Decidable c] {line : Exec Text} (hline : Tracks S line line m)
    (tracer : Tracer) (f : Text → Text) {x y : Exec β}
    (h : ∀ m', ReflTransGen S m.scopes m'.scopes → Tracks S x y m') :
    Tracks S
      (if c then do
        let s ← line
        say tracer (f s)
        x
      else x)
      (if c then do
        let s ← line
        say tracer (f s)
        y
      else y) m := by
  split_ifs
  · refine hline.bind fun s m₁ h₁ => (tracks_say tracer (f s)).bind fun _ m₂ h₂ => ?_
    exact h m₂ (h₁.trans h₂)
  · exact h m .refl

end Scriptlet.Machine
