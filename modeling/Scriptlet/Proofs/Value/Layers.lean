import Scriptlet.Proofs.Value.Containment
import Scriptlet.Proofs.Value.HeapTyping

/-! # Layered heaps

As long as no item of a list is replaced, the items of a list are older than the list. Then no list
contains itself, and whatever walks over a value gets to the end of it: the bounds on the depth of
such walks are never reached.

* `IsLayered.isTraversable`: in a layered heap all walks over all values end.
* `isOlder_of_binary`: operators give no lists. -/

namespace Scriptlet

variable {h : Heap} {v w : Value} {n d d' : Nat}

/-- Whether a value, if it is a list, is one of the first lists. -/
def Value.IsOlder (n : Nat) : Value → Prop
  | .list a => a < n
  | _ => True

theorem Value.IsOlder.mono {n' : Nat} (hv : v.IsOlder n) (hn : n ≤ n') : v.IsOlder n' := by
  cases v with
  | list a => exact Nat.lt_of_lt_of_le hv hn
  | _ => trivial

namespace Heap

/-- Whether the items of all lists are older than the lists. -/
def IsLayered (h : Heap) : Prop :=
  ∀ a, ∀ x ∈ h.items a, x.IsOlder a

theorem IsLayered.empty : ({} : Heap).IsLayered := by
  intro a x hx
  exact absurd (lt_size_of_mem_items hx) (Nat.not_lt_zero a)

/-- A new list is layered above its items. -/
theorem IsLayered.alloc (hh : h.IsLayered) {vs : List Value}
    (hvs : ∀ v ∈ vs, v.IsOlder h.cells.size) : (h.alloc vs.toArray).2.IsLayered := by
  intro a x hx
  have ha := lt_size_of_mem_items hx
  rw [size_alloc] at ha
  rcases Nat.lt_succ_iff_lt_or_eq.mp ha with ha | rfl
  · rw [items_alloc_of_lt _ ha] at hx
    exact hh a x hx
  · rw [items_alloc_self] at hx
    exact hvs x (by simpa using hx)

/-! ### Walks -/

/-- What a list contains is older than the list. -/
theorem IsLayered.isOlder_of_transGen (hh : h.IsLayered) {a : Nat}
    (hw : Relation.TransGen h.HasItem (.list a) w) : w.IsOlder a := by
  induction hw with
  | single hx =>
    obtain ⟨b, hb, hx⟩ := hx
    cases hb
    exact hh a _ hx
  | tail _ hx ih =>
    obtain ⟨b, rfl, hx⟩ := hx
    exact (hh b _ hx).mono (Nat.le_of_lt ih)

theorem IsLayered.isFounded (hh : h.IsLayered) (v : Value) : h.IsFounded v := by
  intro w _ hw
  obtain ⟨x, ⟨a, rfl, -⟩, -⟩ := (Relation.TransGen.head'_iff).mp hw
  exact Nat.lt_irrefl a (hh.isOlder_of_transGen hw)

theorem mapM_congr {α β ε : Type} {f g : α → Except ε β} :
    ∀ {xs : List α}, (∀ x ∈ xs, f x = g x) → xs.mapM f = xs.mapM g
  | [], _ => rfl
  | x :: xs, hfg => by
    obtain ⟨hx, hxs⟩ := List.forall_mem_cons.mp hfg
    rw [List.mapM_cons, List.mapM_cons, hx, mapM_congr hxs]

theorem allM_congr {α ε : Type} {f g : α → Except ε Bool} :
    ∀ {xs : List α}, (∀ x ∈ xs, f x = g x) → xs.allM f = xs.allM g
  | [], _ => rfl
  | x :: xs, hfg => by
    obtain ⟨hx, hxs⟩ := List.forall_mem_cons.mp hfg
    rw [List.allM, List.allM, hx, allM_congr hxs]

/-- Whether a function of a depth and a value is a walk: how deep it may go makes a difference only
for the items of lists. -/
structure IsWalk {γ : Type} (h : Heap) (f : Nat → Value → γ) : Prop where
  flat : ∀ {v d d'}, (∀ a, v ≠ .list a) → f d v = f d' v
  list : ∀ {a d d'}, (∀ x ∈ h.items a, f d x = f d' x) → f (d + 1) (.list a) = f (d' + 1) (.list a)

theorem isWalk_renderAt (h : Heap) : h.IsWalk h.renderAt where
  flat {v d d'} hv := by
    cases v with
    | list a => exact absurd rfl (hv a)
    | _ => cases d <;> cases d' <;> rfl
  list hitems := by
    rw [renderAt_list, renderAt_list, mapM_congr fun x hx => hitems x (by simpa using hx)]

theorem equalAt_list (d a b : Nat) :
    h.equalAt (d + 1) (.list a) (.list b) =
      if (h.items a).toList.length ≠ (h.items b).toList.length then .ok false
      else ((h.items a).toList.zip (h.items b).toList).allM fun p => h.equalAt d p.1 p.2 := rfl

theorem isWalk_equalAt (h : Heap) : h.IsWalk h.equalAt where
  flat {v d d'} hv := by
    funext w
    cases v with
    | list a => exact absurd rfl (hv a)
    | _ => cases w <;> cases d <;> cases d' <;> rfl
  list hitems := by
    funext w
    cases w with
    | list b =>
      rw [equalAt_list, equalAt_list, allM_congr fun p hp => ?_]
      exact congrFun (hitems p.1 (by simpa using (List.of_mem_zip hp).1)) p.2
    | _ => rfl

/-- A walk that may go as deep as lists are nested goes on to the end. -/
theorem IsWalk.eq_of_nestsWithin {γ : Type} {f : Nat → Value → γ} (hf : h.IsWalk f) :
    ∀ {n v d d'}, h.NestsWithin n v → n ≤ d → n ≤ d' → f d v = f d' v := by
  intro n
  induction n with
  | zero => exact fun hv _ _ => hf.flat hv
  | succ n ih =>
    intro v d d' hv hd hd'
    by_cases hlist : ∃ a, v = .list a
    · obtain ⟨a, rfl⟩ := hlist
      obtain ⟨d, rfl⟩ : ∃ k, d = k + 1 := ⟨d - 1, by omega⟩
      obtain ⟨d', rfl⟩ : ∃ k, d' = k + 1 := ⟨d' - 1, by omega⟩
      exact hf.list fun x hx => ih (hv x ⟨a, rfl, hx⟩) (by omega) (by omega)
    · exact hf.flat fun a ha => hlist ⟨a, ha⟩

/-- No walk over a founded value is cut off at the bound. -/
theorem IsFounded.walk_deep {γ : Type} {f : Nat → Value → γ} (hv : h.IsFounded v)
    (hf : h.IsWalk f) (hd : h.depth ≤ d) : f d v = f h.depth v :=
  hf.eq_of_nestsWithin hv.nestsWithin hd (Nat.le_refl _)

/-- Whether walks over a value end: no list in it contains itself, and to allow them to go deeper
than the bound changes neither texts nor comparisons. -/
structure IsTraversable (h : Heap) (v : Value) : Prop where
  founded : h.IsFounded v
  text : ∀ d, h.depth ≤ d → h.renderAt d v = h.render v
  equal : ∀ d, h.depth ≤ d → ∀ w, h.equalAt d v w = h.equal v w

/-- **In a layered heap all walks over all values end.** -/
theorem IsLayered.isTraversable (hh : h.IsLayered) (v : Value) : h.IsTraversable v where
  founded := hh.isFounded v
  text _ hd := (hh.isFounded v).walk_deep h.isWalk_renderAt hd
  equal _ hd w := congrFun ((hh.isFounded v).walk_deep h.isWalk_equalAt hd) w

end Heap

/-! ### Results of operators -/

namespace Value

theorem isOlder_of_map {α : Type} {x : Except Failure α} {f : α → Value} (hv : x.map f = .ok v)
    (hf : ∀ a, (f a).IsOlder n) : v.IsOlder n := by
  cases x with
  | error e => cases hv
  | ok a =>
    cases hv
    exact hf a

theorem isOlder_of_bind {α : Type} {x : Except Failure α} {f : α → Except Failure Value}
    (hv : (x >>= f) = .ok v) (hf : ∀ a, f a = .ok v → v.IsOlder n) : v.IsOlder n := by
  cases x with
  | error e => cases hv
  | ok a => exact hf a hv

theorem isOlder_of_sum {a b : Value} (hv : sum h a b = .ok v) : v.IsOlder n := by
  unfold sum at hv
  split at hv
  case h_1 | h_2 =>
    -- a text on either side makes both texts
    refine isOlder_of_bind hv fun x hv => isOlder_of_bind hv fun y hv => ?_
    split at hv
    · cases hv
      trivial
    · cases hv
  · cases hv
    trivial
  · split at hv
    · exact isOlder_of_map hv fun _ => trivial
    · cases hv

theorem isOlder_of_arithmetic {op : String} {a b : Value} (hv : arithmetic op a b = .ok v) :
    v.IsOlder n := by
  unfold arithmetic at hv
  split at hv
  · have hdecimal {x : Except Failure Decimal} (hv : (x >>= fun d => pure (.decimal d)) = .ok v) :
        v.IsOlder n := by
      refine isOlder_of_bind hv fun d hv => ?_
      cases hv
      trivial
    split_ifs at hv
    · exact hdecimal hv
    · exact hdecimal hv
    all_goals
      refine isOlder_of_bind hv fun zero hv => ?_
      cases zero with
      | true => cases hv
      | false => exact hdecimal hv
  · cases hv

theorem isOlder_of_power {a b : Value} (hv : power a b = .ok v) : v.IsOlder n := by
  unfold power at hv
  split_ifs at hv
  cases hv
  trivial

theorem isOlder_of_logic {op : String} {a b : Value} (hv : logic op a b = .ok v) :
    v.IsOlder n := by
  unfold logic at hv
  split at hv
  · cases hv
    trivial
  · cases hv

/-- Operators give no lists. -/
theorem isOlder_of_binary {op : String} {a b : Value} (hv : binary h op a b = .ok v) :
    v.IsOlder n := by
  unfold binary at hv
  split_ifs at hv
  · exact isOlder_of_sum hv
  · exact isOlder_of_arithmetic hv
  · exact isOlder_of_power hv
  · exact isOlder_of_map hv fun _ => trivial
  · exact isOlder_of_map hv fun _ => trivial
  · exact isOlder_of_map hv fun _ => trivial
  · exact isOlder_of_map hv fun _ => trivial
  · exact isOlder_of_logic hv

theorem isOlder_ofLiteral (x : Datum) (k : LiteralKind) : (ofLiteral x k).IsOlder n := by
  unfold ofLiteral
  split
  · trivial
  · split <;> trivial
  · split
    · next j =>
      cases j <;> trivial
    · trivial

end Value

end Scriptlet
