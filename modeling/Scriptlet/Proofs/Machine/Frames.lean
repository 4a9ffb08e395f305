import Mathlib.Data.List.Permutation
import Scriptlet.Proofs.Machine.Origins
import Scriptlet.Proofs.Machine.Prefixes
import Scriptlet.Proofs.Scope.Changes
import Scriptlet.Source

/-! # What a run leaves alone

Every part of a program changes scopes within a region: calls open scopes inside the root and work
there, statements also declare variables in the scope they run in and assign to variables of the
scopes around it. All functions of the machine call each other, so this is one statement about all
of them (`Tracking`), by induction on the bounds of two recursions; it also says that the longer of
two runs goes on where the shorter one has paused.

* `tracking`: the statement, for all bounds.
* `run_frames`: what stays as it is once a program is loaded. -/

namespace Scriptlet.Machine

open Relation (ReflTransGen)

variable {α : Type} {m : Machine}

/-! ### Regions of code -/

/-- Whether a part of a program that runs from these scopes may do in a region what calls do. -/
structure Region.Admits (R : Region) (f : Forest Binding Callable) : Prop where
  lt : root < f.size
  young : ∀ t, f.size ≤ t → R.declares t ∧ R.assigns t
  root : ∀ t ∈ f.chain root, R.assigns t

/-- Whether statements may run in a scope within a region. -/
structure Region.Covers (R : Region) (f : Forest Binding Callable) (s : Nat) : Prop where
  lt : s < f.size
  declares : R.declares s
  assigns : ∀ t ∈ f.chain s, R.assigns t

section Regions

variable {R : Region} {f f' : Forest Binding Callable} {s : Nat}

theorem Region.Admits.later (h : R.Admits f) (hf : Changes R f f') : R.Admits f' := by
  have hsize := hf.kept.size_le
  refine ⟨lt_of_lt_of_le h.lt hsize, fun t ht => h.young t (le_trans hsize ht), fun t ht => ?_⟩
  rw [hf.kept.chain_eq _ h.lt] at ht
  exact h.root t ht

theorem Region.Covers.later (h : R.Covers f s) (hf : Changes R f f') : R.Covers f' s := by
  refine ⟨lt_of_lt_of_le h.lt hf.kept.size_le, h.declares, fun t ht => ?_⟩
  rw [hf.kept.chain_eq _ h.lt] at ht
  exact h.assigns t ht

/-- Statements may run in a scope that has just been opened. -/
theorem Region.Admits.covers_open (h : R.Admits f) (hs : ∀ t ∈ f.chain s, R.assigns t)
    (vars : Table Key (Name × Option Binding)) :
    R.Covers ⟨f.scopes.push { enclosing := f.chain s, vars := vars }⟩ f.size := by
  refine ⟨?_, (h.young _ le_rfl).1, fun t ht => ?_⟩
  · simp [Forest.size]
  · have hscope : (f.scopes.push { enclosing := f.chain s, vars := vars })[f.size]? =
        some { enclosing := f.chain s, vars := vars } := Array.getElem?_push_size
    rw [Forest.chain, hscope] at ht
    rcases List.mem_cons.mp ht with rfl | ht
    · exact (h.young _ le_rfl).2
    · exact hs t ht

theorem tracks_declare (hs : R.declares s) (n : Name) {b : Binding} (hb : b.mutable = true) :
    Tracks (Change R) (define s n b) (define s n b) m := by
  refine tracks_of_isInstant (isInstant_define s n b) ?_
  cases hn : n.label with
  | error e =>
    have hrun : (define s n b).run m = (.error (.failed e), m) := by
      rw [define, hn]
      rfl
    rw [hrun]
  | ok l =>
    have hrun : (define s n b).run m =
        (.ok (), { m with scopes := m.scopes.defineVariable s l (some b) }) := by
      rw [define, hn]
      rfl
    rw [hrun]
    exact .single (.declares hs hb)

/-- What is assigned to can be changed, and stands in a scope of the chain. -/
theorem own_of_writable {n : Name} {t : Nat} {b : Binding} (h : writable n s m = .ok (t, b)) :
    ∃ l, n.label = .ok l ∧ t ∈ m.scopes.chain s ∧
      m.scopes.ownVariable? l.key t = some (some b) ∧ b.mutable = true := by
  unfold writable at h
  cases hn : n.label with
  | error e =>
    rw [hn] at h
    cases h
  | ok l =>
    rw [hn] at h
    dsimp only [Bind.bind, Except.bind] at h
    split at h
    · next b' t' hb ht =>
      split_ifs at h with hmut
      cases h
      obtain ⟨u, hu, hown, hholds⟩ := own_of_findVariable? hb
      cases hholds.symm.trans ht
      exact ⟨l, rfl, hu, hown, hmut⟩
    · cases h

/-- An assignment to a variable of the scopes around a scope. -/
theorem tracks_assign {n : Name} {t : Nat} {b : Binding} (v : Value)
    (hs : ∀ u ∈ m.scopes.chain s, R.assigns u) (hw : writable n s m = .ok (t, b)) :
    Tracks (Change R) (define t n { b with value := v }) (define t n { b with value := v }) m := by
  obtain ⟨l, hn, ht, hown, hb⟩ := own_of_writable hw
  refine tracks_of_isInstant (isInstant_define t n _) ?_
  have hrun : (define t n { b with value := v }).run m =
      (.ok (), { m with scopes := m.scopes.defineVariable t l (some { b with value := v }) }) := by
    rw [define, hn]
    rfl
  rw [hrun]
  exact .single (.assigns v (hs t ht) hown hb)

/-! ### Calls -/

theorem push_modify {σ : Type} (xs : Array σ) (x : σ) (g : σ → σ) :
    (xs.push x).modify xs.size g = xs.push (g x) := by
  refine Array.ext_getElem? fun i => ?_
  rw [Array.getElem?_modify, Array.getElem?_push, Array.getElem?_push]
  by_cases hi : i = xs.size
  · rw [if_pos hi.symm, if_pos hi, if_pos hi]
    rfl
  · rw [if_neg (Ne.symm hi), if_neg hi, if_neg hi]

/-- Arguments are bound in the last scope alone. -/
theorem run_bindArguments (g : Option Signature) (xs : Array (Scope Binding Callable)) :
    ∀ (i : Nat) (ps : List Param) (vs : List Value) (sc : Scope Binding Callable) (m : Machine),
      m.scopes = ⟨xs.push sc⟩ → ∃ r vars, (bindArguments xs.size g i ps vs).run m =
        (r, { m with scopes := ⟨xs.push { sc with vars := vars }⟩ })
  | i, p :: ps, v :: vs, sc, m, hm => by
    have hdefine (n : Name) (b : Binding) : ∃ r vars,
        (define xs.size n b >>= fun _ => bindArguments xs.size g (i + 1) ps vs).run m =
          (r, { m with scopes := ⟨xs.push { sc with vars := vars }⟩ }) := by
      cases hn : n.label with
      | error e =>
        refine ⟨.error (.failed e), sc.vars, ?_⟩
        rw [define, hn, ← hm]
        rfl
      | ok l =>
        have hscopes : m.scopes.defineVariable xs.size l (some b) =
            ⟨xs.push { sc with vars := Forest.bind sc.vars l.key l.name (some b) }⟩ := by
          rw [hm, Forest.defineVariable, push_modify]
        obtain ⟨r, vars, hrest⟩ := run_bindArguments g xs (i + 1) ps vs _
          { m with scopes := m.scopes.defineVariable xs.size l (some b) } hscopes
        refine ⟨r, vars, ?_⟩
        rw [define, hn]
        exact hrest
    cases p with
    | hole h =>
      refine ⟨.error (.failed h.partFailure), sc.vars, ?_⟩
      rw [← hm]
      rfl
    | typed n t => exact hdefine n _
    | untyped n => exact hdefine n _
  | _, [], _, sc, m, hm => ⟨.ok (), sc.vars, by rw [← hm]; rfl⟩
  | _, _ :: _, [], sc, m, hm => ⟨.ok (), sc.vars, by rw [← hm]; rfl⟩

/-- A scope for the body of a function, in which the arguments are bound. -/
def enter (u : UserFunction) (vs : List Value) : Exec Nat := do
  let s ← child root
  bindArguments s u.signature 0 u.params vs
  return s

theorem isInstant_enter (u : UserFunction) (vs : List Value) : IsInstant (enter u vs) := by
  unfold enter
  have hchild : IsInstant (child root) := fun _ _ p => ⟨p, rfl⟩
  refine hchild.bind fun s => (isInstant_bindArguments s _ 0 _ vs).bind fun _ => ?_
  exact fun _ _ p => ⟨p, rfl⟩

theorem run_enter (u : UserFunction) (vs : List Value) (m : Machine) :
    ∃ r vars, (enter u vs).run m =
      (r, { m with scopes :=
        ⟨m.scopes.scopes.push { enclosing := m.scopes.chain root, vars := vars }⟩ }) ∧
      ∀ s, r = .ok s → s = m.scopes.size := by
  have hrun : (enter u vs).run m =
      (bindArguments m.scopes.size u.signature 0 u.params vs >>= fun _ => pure m.scopes.size).run
        { m with scopes := m.scopes.addChild root } := rfl
  obtain ⟨r, vars, hbind⟩ := run_bindArguments u.signature m.scopes.scopes 0 u.params vs
    { enclosing := m.scopes.chain root } { m with scopes := m.scopes.addChild root } rfl
  have hbind : (bindArguments m.scopes.size u.signature 0 u.params vs).run
      { m with scopes := m.scopes.addChild root } = _ := hbind
  rw [hrun, run_bind, hbind]
  cases r with
  | error e => exact ⟨.error e, vars, rfl, fun s hs => by cases hs⟩
  | ok a => exact ⟨.ok m.scopes.size, vars, rfl, fun s hs => by cases hs; rfl⟩

end Regions

/-! ### The parts of the machine -/

/-- What is known of two runs within bounds, in a region. -/
structure Tracking (R : Region) (tracer : Tracer) (fuel longer : Nat) : Prop where
  eval : ∀ {m : Machine} (s : Nat) (e : Expr), R.Admits m.scopes →
    Tracks (Change R) (eval tracer fuel s e) (eval tracer longer s e) m
  evalAll : ∀ {m : Machine} (s : Nat) (es : List Expr), R.Admits m.scopes →
    Tracks (Change R) (evalAll tracer fuel s es) (evalAll tracer longer s es) m
  call : ∀ {m : Machine} (c : Callable) (vs : List Value), R.Admits m.scopes →
    Tracks (Change R) (call tracer fuel c vs) (call tracer longer c vs) m
  block : ∀ {m : Machine} {s : Nat} (xs : List Stmt), R.Admits m.scopes → R.Covers m.scopes s →
    Tracks (Change R) (block tracer fuel s xs) (block tracer longer s xs) m
  exec : ∀ {m : Machine} {s : Nat} (x : Stmt), R.Admits m.scopes → R.Covers m.scopes s →
    Tracks (Change R) (exec tracer fuel s x) (exec tracer longer s x) m
  matching : ∀ {m : Machine} (s : Nat) (v : Value) (cs : List Case), R.Admits m.scopes →
    Tracks (Change R) (matching tracer fuel s v cs) (matching tracer longer s v cs) m
  loop : ∀ {m : Machine} {s : Nat} (c : Expr) (b : List Stmt), R.Admits m.scopes →
    R.Covers m.scopes s → Tracks (Change R) (loop tracer fuel s c b) (loop tracer longer s c b) m

section Tracking

variable {R : Region} {tracer : Tracer} {fuel longer s : Nat}

theorem eval_tracks (ih : Tracking R tracer fuel longer) (s : Nat) (e : Expr)
    (hR : R.Admits m.scopes) :
    Tracks (Change R) (eval tracer (fuel + 1) s e) (eval tracer (longer + 1) s e) m := by
  rw [eval.eq_def tracer (fuel + 1), eval.eq_def tracer (longer + 1)]
  dsimp only
  refine (tracks_tick _).bind fun _ m₁ h₁ => ?_
  have hR₁ := hR.later h₁
  cases e with
  | literal v k slot => exact tracks_pure _
  | group e slot => exact ih.eval s e hR₁
  | binary op l r slot =>
    refine (ih.eval s l hR₁).bind fun a m₂ h₂ => ?_
    refine (ih.eval s r (hR₁.later h₂)).bind fun b m₃ h₃ => ?_
    exact tracks_get fun _ _ _ _ => tracks_lift _
  | name x v slot =>
    exact tracks_get fun _ _ _ _ => tracks_lift_bind fun _ _ => tracks_pure _
  | index x o v slot =>
    refine tracks_get fun _ _ _ _ => tracks_lift_bind fun b _ => tracks_lift_bind fun a _ => ?_
    refine (ih.eval s o hR₁).bind fun i m₂ h₂ => ?_
    exact tracks_get fun _ _ _ _ => tracks_lift_bind fun _ _ => tracks_pure _
  | call f args target slot =>
    refine (ih.evalAll s args hR₁).bind fun vs m₂ h₂ => ?_
    refine tracks_get fun _ _ _ _ => tracks_lift_bind fun c _ => ?_
    refine tracks_line (tracks_tracedTexts vs) tracer _ fun m₃ h₃ => ?_
    exact ih.call c vs (hR₁.later (h₂.trans h₃))
  | list es slot =>
    refine (ih.evalAll s es hR₁).bind fun vs m₂ h₂ => ?_
    exact tracks_modifyGet (fun _ _ _ => rfl) rfl
  | hole h => exact tracks_fail _

theorem evalAll_tracks (ih : Tracking R tracer fuel longer) (s : Nat) (es : List Expr)
    (hR : R.Admits m.scopes) :
    Tracks (Change R) (evalAll tracer (fuel + 1) s es) (evalAll tracer (longer + 1) s es) m := by
  cases es with
  | nil =>
    rw [evalAll_nil, evalAll_nil]
    exact tracks_pure _
  | cons e es =>
    rw [evalAll, evalAll]
    refine (tracks_tick _).bind fun _ m₁ h₁ => ?_
    refine (ih.eval s e (hR.later h₁)).bind fun v m₂ h₂ => ?_
    refine (ih.evalAll s es (hR.later (h₁.trans h₂))).bind fun vs m₃ h₃ => ?_
    exact tracks_pure _

/-- The body of a function runs in a scope of its own. -/
theorem enter_tracks (ih : Tracking R tracer fuel longer) (u : UserFunction) (vs : List Value)
    (hR : R.Admits m.scopes) :
    Tracks (Change R) (enter u vs >>= fun s => block tracer fuel s u.body)
      (enter u vs >>= fun s => block tracer longer s u.body) m := by
  obtain ⟨r, vars, hrun, -⟩ := run_enter u vs m
  have hopens : Changes R m.scopes ((enter u vs).run m).2.scopes := by
    rw [hrun]
    exact .single (.opens root vars)
  refine (tracks_of_isInstant (isInstant_enter u vs) hopens).bind_run fun n p s m₁ h₁ hchange => ?_
  obtain ⟨r', vars', hrun', hs⟩ := run_enter u vs { m with steps := n, place := p }
  obtain ⟨hr, hm₁⟩ := Prod.mk.inj (hrun'.symm.trans h₁)
  obtain rfl : s = m.scopes.size := hs s hr
  refine ih.block u.body (hR.later hchange) ?_
  rw [← hm₁]
  exact hR.covers_open hR.root vars'

theorem call_tracks (ih : Tracking R tracer fuel longer) (c : Callable) (vs : List Value)
    (hR : R.Admits m.scopes) :
    Tracks (Change R) (call tracer (fuel + 1) c vs) (call tracer (longer + 1) c vs) m := by
  have hcall (k : Nat) (u : UserFunction) : call tracer (k + 1) (.user u) vs = (do
      tick (.call (.user u) vs)
      let r ← enter u vs >>= fun s => block tracer k s u.body
      return r.getD .nil) := by
    rw [call]
    simp only [enter, bind_assoc, pure_bind]
  cases c with
  | print =>
    rw [call, call]
    refine (tracks_tick _).bind fun _ m₁ h₁ => (tracks_text _).bind fun line m₂ h₂ => ?_
    exact (tracks_print line).bind fun _ _ _ => tracks_pure _
  | host n k =>
    rw [call, call]
    exact (tracks_tick _).bind fun _ m₁ h₁ => tracks_modifyGet (fun _ _ _ => rfl) rfl
  | user u =>
    rw [hcall, hcall]
    refine (tracks_tick _).bind fun _ m₁ h₁ => ?_
    exact (enter_tracks ih u vs (hR.later h₁)).bind fun _ _ _ => tracks_pure _
  | value v =>
    rw [call, call]
    refine (tracks_tick _).bind fun _ m₁ h₁ => ?_
    exact tracks_get fun _ _ _ _ => tracks_lift_bind fun _ _ => tracks_fail _

theorem block_tracks (ih : Tracking R tracer fuel longer) (xs : List Stmt)
    (hR : R.Admits m.scopes) (hs : R.Covers m.scopes s) :
    Tracks (Change R) (block tracer (fuel + 1) s xs) (block tracer (longer + 1) s xs) m := by
  cases xs with
  | nil =>
    rw [block_nil, block_nil]
    exact tracks_pure _
  | cons x xs =>
    rw [block, block]
    refine (tracks_tick _).bind fun _ m₁ h₁ => ?_
    refine (ih.exec x (hR.later h₁) (hs.later h₁)).bind fun r m₂ h₂ => ?_
    cases r with
    | some v => exact tracks_pure _
    | none => exact ih.block xs (hR.later (h₁.trans h₂)) (hs.later (h₁.trans h₂))

/-- A block in a scope of its own. -/
theorem inner_tracks (ih : Tracking R tracer fuel longer) (xs : List Stmt) (hR : R.Admits m.scopes)
    (hs : R.Covers m.scopes s) :
    Tracks (Change R) (do block tracer fuel (← child s) xs) (do block tracer longer (← child s) xs)
      m := by
  have hchild : Tracks (Change R) (child s) (child s) m :=
    tracks_of_isInstant (fun _ _ p => ⟨p, rfl⟩) (.single (.opens s {}))
  refine hchild.bind_run fun n p i m₁ h₁ hchange => ?_
  obtain ⟨hi, hm₁⟩ := Prod.mk.inj h₁
  obtain rfl : m.scopes.size = i := Except.ok.inj hi
  refine ih.block xs (hR.later hchange) ?_
  rw [← hm₁]
  exact hR.covers_open hs.assigns {}

theorem assign_tracks (ih : Tracking R tracer fuel longer) (receiver e : Expr)
    (hR : R.Admits m.scopes) (hs : R.Covers m.scopes s) :
    Tracks (Change R) (exec tracer (fuel + 1) s (.assign receiver e))
      (exec tracer (longer + 1) s (.assign receiver e)) m := by
  rw [exec.eq_def tracer (fuel + 1), exec.eq_def tracer (longer + 1)]
  dsimp only
  refine (tracks_tick _).bind fun _ m₁ h₁ => ?_
  refine (ih.eval s e (hR.later h₁)).bind fun v m₂ h₂ => (tracks_tick _).bind fun _ m₃ h₃ => ?_
  have hchange := h₁.trans (h₂.trans h₃)
  have hs₃ := hs.later hchange
  cases receiver with
  | name n x slot =>
    refine tracks_get fun _ _ _ _ => tracks_lift_bind fun ⟨t, b⟩ hw => ?_
    exact (tracks_assign v hs₃.assigns hw).bind fun _ _ _ => tracks_pure _
  | index n o x slot =>
    refine tracks_get fun _ _ _ _ => tracks_lift_bind fun ⟨t, b⟩ _ => tracks_lift_bind fun a _ => ?_
    refine (ih.eval s o (hR.later hchange)).bind fun i m₄ h₄ => ?_
    refine tracks_get fun _ _ _ _ => tracks_lift_bind fun k _ => ?_
    have hset : Tracks (Change R) (modify fun m => { m with heap := m.heap.set a k v })
        (modify fun m => { m with heap := m.heap.set a k v }) m₄ :=
      tracks_modifyGet (fun _ _ _ => rfl) rfl
    exact hset.bind fun _ _ _ => tracks_pure _
  | _ => exact tracks_fail _

theorem exec_tracks (ih : Tracking R tracer fuel longer) (x : Stmt) (hR : R.Admits m.scopes)
    (hs : R.Covers m.scopes s) :
    Tracks (Change R) (exec tracer (fuel + 1) s x) (exec tracer (longer + 1) s x) m := by
  cases x with
  | assign receiver e => exact assign_tracks ih receiver e hR hs
  | expr e =>
    rw [exec, exec]
    refine (tracks_tick _).bind fun _ m₁ h₁ => (ih.eval s e (hR.later h₁)).bind fun v m₂ h₂ => ?_
    exact tracks_pure _
  | declare n typeName value slot =>
    have hdeclare (v : Value) (m₁ : Machine) :=
      (tracks_declare (m := m₁) hs.declares n (b := ⟨true, v, slot.map (·.origin)⟩) rfl).bind
        fun _ m₂ h₂ => tracks_line (c := 2 ≤ tracer.level) (tracks_tracedText v) tracer
          (fun line => Text.plain "declare " ++ n.toText ++ .plain " = " ++ line)
          fun m₃ h₃ => tracks_pure (none : Option Value)
    rw [exec.eq_def tracer (fuel + 1), exec.eq_def tracer (longer + 1)]
    refine (tracks_tick _).bind fun _ m₁ h₁ => ?_
    cases value with
    | none => exact hdeclare .nil m₁
    | some e => exact (ih.eval s e (hR.later h₁)).bind fun v m₂ h₂ => hdeclare v m₂
  | branch c t e =>
    rw [exec.eq_def tracer (fuel + 1), exec.eq_def tracer (longer + 1)]
    refine (tracks_tick _).bind fun _ m₁ h₁ => (ih.eval s c (hR.later h₁)).bind fun v m₂ h₂ => ?_
    refine tracks_lift_bind fun b _ => tracks_line (tracks_text _) tracer _ fun m₃ h₃ => ?_
    have hchange := h₁.trans (h₂.trans h₃)
    exact inner_tracks ih _ (hR.later hchange) (hs.later hchange)
  | switch c cs =>
    rw [exec.eq_def tracer (fuel + 1), exec.eq_def tracer (longer + 1)]
    refine (tracks_tick _).bind fun _ m₁ h₁ => (ih.eval s c (hR.later h₁)).bind fun v m₂ h₂ => ?_
    have hchange := h₁.trans h₂
    refine (ih.matching s v cs (hR.later hchange)).bind fun r m₃ h₃ => ?_
    have hchange := hchange.trans h₃
    cases r with
    | some b => exact inner_tracks ih b (hR.later hchange) (hs.later hchange)
    | none =>
      refine tracks_lift_bind fun r _ => ?_
      cases r with
      | some b => exact inner_tracks ih b (hR.later hchange) (hs.later hchange)
      | none => exact tracks_pure _
  | loop c b =>
    rw [exec, exec]
    exact (tracks_tick _).bind fun _ m₁ h₁ => ih.loop c b (hR.later h₁) (hs.later h₁)
  | ret e =>
    rw [exec, exec]
    refine (tracks_tick _).bind fun _ m₁ h₁ => (ih.eval s e (hR.later h₁)).bind fun v m₂ h₂ => ?_
    exact tracks_pure _
  | hole h =>
    rw [exec, exec]
    exact (tracks_tick _).bind fun _ _ _ => tracks_fail _

theorem matching_tracks (ih : Tracking R tracer fuel longer) (s : Nat) (v : Value) (cs : List Case)
    (hR : R.Admits m.scopes) :
    Tracks (Change R) (matching tracer (fuel + 1) s v cs) (matching tracer (longer + 1) s v cs)
      m := by
  cases cs with
  | nil =>
    rw [matching_nil, matching_nil]
    exact tracks_pure _
  | cons x cs =>
    have hrest {m' : Machine} (h : Changes R m.scopes m'.scopes) :=
      ih.matching s v cs (hR.later h)
    rw [matching.eq_def tracer (fuel + 1), matching.eq_def tracer (longer + 1)]
    refine (tracks_tick _).bind fun _ m₁ h₁ => ?_
    cases x with
    | equals e b =>
      refine (ih.eval s e (hR.later h₁)).bind fun w m₂ h₂ => ?_
      refine tracks_get fun _ _ _ _ => tracks_lift_bind fun same _ => ?_
      cases same with
      | true => exact tracks_pure _
      | false => exact hrest (h₁.trans h₂)
    | otherwise b => exact hrest h₁
    | blockless e =>
      cases e with
      | none => exact hrest h₁
      | some e =>
        refine (ih.eval s e (hR.later h₁)).bind fun w m₂ h₂ => ?_
        refine tracks_get fun _ _ _ _ => tracks_lift_bind fun same _ => ?_
        cases same with
        | true => exact tracks_fail _
        | false => exact hrest (h₁.trans h₂)
    | hole h => exact tracks_fail _

theorem loop_tracks (ih : Tracking R tracer fuel longer) (c : Expr) (b : List Stmt)
    (hR : R.Admits m.scopes) (hs : R.Covers m.scopes s) :
    Tracks (Change R) (loop tracer (fuel + 1) s c b) (loop tracer (longer + 1) s c b) m := by
  rw [loop, loop]
  refine (tracks_tick _).bind fun _ m₁ h₁ => (ih.eval s c (hR.later h₁)).bind fun v m₂ h₂ => ?_
  refine tracks_lift_bind fun go _ => ?_
  have hchange := h₁.trans h₂
  cases go with
  | false => exact tracks_pure _
  | true =>
    -- the frame of the body and the body itself are one step of the loop
    rw [← bind_assoc, ← bind_assoc]
    refine (inner_tracks ih b (hR.later hchange) (hs.later hchange)).bind fun r m₃ h₃ => ?_
    have hchange := hchange.trans h₃
    cases r with
    | some v => exact tracks_pure _
    | none => exact ih.loop c b (hR.later hchange) (hs.later hchange)

theorem Tracking.succ (ih : Tracking R tracer fuel longer) :
    Tracking R tracer (fuel + 1) (longer + 1) :=
  ⟨eval_tracks ih, evalAll_tracks ih, call_tracks ih, block_tracks ih, exec_tracks ih,
    matching_tracks ih, loop_tracks ih⟩

theorem tracking_self (R : Region) (tracer : Tracer) : ∀ fuel, Tracking R tracer fuel fuel
  | 0 => by
    refine ⟨fun s e _ => ?_, fun s es _ => ?_, fun c vs _ => ?_, fun xs _ _ => ?_, fun x _ _ => ?_,
      fun s v cs _ => ?_, fun c b _ _ => ?_⟩
    · rw [eval]
      exact tracks_pause_pause _
    · rw [evalAll]
      exact tracks_pause_pause _
    · rw [call]
      exact tracks_pause_pause _
    · rw [block]
      exact tracks_pause_pause _
    · rw [exec]
      exact tracks_pause_pause _
    · rw [matching]
      exact tracks_pause_pause _
    · rw [loop]
      exact tracks_pause_pause _
  | fuel + 1 => (tracking_self R tracer fuel).succ

/-- **Longer runs go on where shorter ones have paused**, within all bounds and regions. -/
theorem tracking (R : Region) (tracer : Tracer) : ∀ {fuel longer : Nat}, fuel ≤ longer →
    Tracking R tracer fuel longer
  | 0, longer, _ => by
    have ih := tracking_self R tracer longer
    refine ⟨fun s e hR => ?_, fun s es hR => ?_, fun c vs hR => ?_, fun xs hR hs => ?_,
      fun x hR hs => ?_, fun s v cs hR => ?_, fun c b hR hs => ?_⟩
    · rw [eval.eq_def tracer 0]
      exact tracks_pause (ih.eval s e hR) _
    · rw [evalAll.eq_def tracer 0]
      exact tracks_pause (ih.evalAll s es hR) _
    · rw [call.eq_def tracer 0]
      exact tracks_pause (ih.call c vs hR) _
    · rw [block.eq_def tracer 0]
      exact tracks_pause (ih.block xs hR hs) _
    · rw [exec.eq_def tracer 0]
      exact tracks_pause (ih.exec x hR hs) _
    · rw [matching.eq_def tracer 0]
      exact tracks_pause (ih.matching s v cs hR) _
    · rw [loop.eq_def tracer 0]
      exact tracks_pause (ih.loop c b hR hs) _
  | fuel + 1, 0, h => absurd h (Nat.not_succ_le_zero fuel)
  | fuel + 1, longer + 1, h => (tracking R tracer (Nat.le_of_succ_le_succ h)).succ

end Tracking

/-! ### Programs -/

section Programs

variable {tracer : Tracer} {fuel longer : Nat} {p : Program}

/-- Whether the root scope is there and nothing encloses it, if it was so before. -/
def KeepsRoot (f f' : Forest Binding Callable) : Prop :=
  root < f.size → root < f'.size ∧ f'.chain root = f.chain root

theorem keepsRoot_of_changes {R : Region} {f f' : Forest Binding Callable} (h : Change R f f') :
    KeepsRoot f f' := by
  intro hroot
  have hkept := Kept.of_change h
  exact ⟨lt_of_lt_of_le hroot hkept.size_le, hkept.chain_eq _ hroot⟩

theorem keepsRoot_of_path {f f' : Forest Binding Callable} (h : ReflTransGen KeepsRoot f f') :
    KeepsRoot f f' := by
  induction h with
  | refl => exact fun hroot => ⟨hroot, rfl⟩
  | tail _ hstep ih =>
    intro hroot
    obtain ⟨hroot', hchain⟩ := ih hroot
    obtain ⟨hroot'', hchain'⟩ := hstep hroot'
    exact ⟨hroot'', hchain'.trans hchain⟩

/-- The region in which everything is allowed. -/
def Region.all : Region := ⟨fun _ => True, fun _ => True⟩

theorem tracks_globalValue (hfuel : fuel ≤ longer) (hroot : root < m.scopes.size) (e : Expr) :
    Tracks KeepsRoot (eval tracer fuel root e) (eval tracer longer root e) m := by
  have hR : Region.all.Admits m.scopes := ⟨hroot, fun _ _ => ⟨trivial, trivial⟩, fun _ _ => trivial⟩
  exact ((tracking .all tracer hfuel).eval root e hR).mono fun _ _ => keepsRoot_of_changes

theorem tracks_define (n : Name) (b : Binding) :
    Tracks KeepsRoot (define root n b) (define root n b) m := by
  refine tracks_of_isInstant (isInstant_define root n b) ?_
  unfold define
  cases n.label with
  | error e => exact .refl
  | ok l =>
    refine .single fun hroot => ⟨?_, Forest.chain_defineVariable _⟩
    exact (Forest.size_defineVariable _ _ _ _).symm ▸ hroot

theorem defineGlobal_tracks (hfuel : fuel ≤ longer) (hroot : root < m.scopes.size) (g : Global) :
    Tracks KeepsRoot (defineGlobal tracer fuel g) (defineGlobal tracer longer g) m := by
  cases g with
  | decl d =>
    have hbind (v : Value) (m₁ : Machine) :=
      (tracks_define (m := m₁) d.name ⟨d.mutable, v, d.declared.map (·.origin)⟩).bind
        fun _ m₂ _ => tracks_line (m := m₂) (c := 2 ≤ tracer.level) (tracks_tracedText v) tracer
          (fun line => Text.plain "global " ++ d.name.toText ++ .plain " = " ++ line)
          fun _ _ => tracks_pure ()
    simp only [say_bind_pure] at hbind
    rw [defineGlobal, defineGlobal]
    dsimp only
    cases d.value with
    | none => exact hbind .nil m
    | some e => exact (tracks_globalValue hfuel hroot e).bind fun v m₁ _ => hbind v m₁
  | fragment n typeName value =>
    rw [defineGlobal.eq_def tracer fuel, defineGlobal.eq_def tracer longer]
    dsimp only
    split
    · exact (tracks_globalValue hfuel hroot _).bind fun _ _ _ => tracks_fail _
    · exact tracks_fail _
  | hole h => exact tracks_fail _

theorem defineFunc_tracks (f : Func) :
    Tracks KeepsRoot (defineFunc tracer f) (defineFunc tracer f) m := by
  cases f with
  | decl d =>
    rw [defineFunc]
    refine tracks_lift_bind fun k _ => ?_
    have hdefine : Tracks KeepsRoot
        (defineFunction root d.name k (.user ⟨d.name, d.params, d.body, d.signature⟩))
        (defineFunction root d.name k (.user ⟨d.name, d.params, d.body, d.signature⟩)) m := by
      refine tracks_lift_bind fun l _ => ?_
      refine tracks_of_isInstant (fun _ _ p => ⟨p, rfl⟩) ?_
      refine .single fun hroot => ⟨?_, Forest.chain_defineFunction _⟩
      exact (Forest.size_defineFunction _ _ _ _ _).symm ▸ hroot
    refine hdefine.bind fun _ m₁ _ => ?_
    split_ifs
    · exact tracks_say _ _
    · exact tracks_pure _
  | hole h => exact tracks_fail _

theorem tracks_forM {f g : α → Exec PUnit}
    (h : ∀ a (m : Machine), root < m.scopes.size → Tracks KeepsRoot (f a) (g a) m) :
    ∀ (as : List α) {m : Machine}, root < m.scopes.size →
      Tracks KeepsRoot (as.forM f) (as.forM g) m
  | [], _, _ => tracks_pure _
  | a :: as, m, hroot => by
    refine (h a m hroot).bind fun _ m₁ h₁ => ?_
    exact tracks_forM h as (keepsRoot_of_path h₁ hroot).1

theorem load_tracks (hfuel : fuel ≤ longer) (p : Program) (hroot : root < m.scopes.size) :
    Tracks KeepsRoot (load tracer fuel p) (load tracer longer p) m := by
  unfold load
  have hglobals := tracks_forM (f := defineGlobal tracer fuel) (g := defineGlobal tracer longer)
    (fun g m hroot => defineGlobal_tracks hfuel hroot g) p.globals hroot
  refine hglobals.bind fun _ m₁ h₁ => ?_
  have hroot₁ := (keepsRoot_of_path h₁ hroot).1
  exact tracks_forM (fun f m _ => defineFunc_tracks f) p.functions hroot₁

/-- What a program does once it is loaded. -/
def callMain (tracer : Tracer) (fuel : Nat) : Exec Value := do
  let main ← lift ((← get).scopes.lookupFunction root (.text "main") 0)
  let v ← call tracer fuel main []
  let shown ← text v
  if 1 ≤ tracer.level then say tracer (.plain "main returned " ++ shown)
  return v

theorem run_eq (tracer : Tracer) (fuel : Nat) (p : Program) :
    run tracer fuel p = load tracer fuel p >>= fun _ => callMain tracer fuel := rfl

theorem callMain_tracks {R : Region} (hfuel : fuel ≤ longer) (hR : R.Admits m.scopes) :
    Tracks (Change R) (callMain tracer fuel) (callMain tracer longer) m := by
  unfold callMain
  refine tracks_get fun _ _ _ _ => tracks_lift_bind fun main _ => ?_
  refine ((tracking R tracer hfuel).call main [] hR).bind fun v m₁ _ => ?_
  refine (tracks_text v).bind fun shown m₂ _ => ?_
  split_ifs
  · exact (tracks_say _ _).bind fun _ _ _ => tracks_pure _
  · exact tracks_pure _

/-- The state in which a program is loaded. -/
abbrev loadedState (tracer : Tracer) (p : Program) (steps : Nat) : Machine :=
  (execute Machine.fresh steps fun fuel => load tracer fuel p).2

/-- The state in which a run of a program stops. -/
abbrev finalState (tracer : Tracer) (p : Program) (steps : Nat) : Machine :=
  (execute Machine.fresh steps fun fuel => run tracer fuel p).2

variable {loaded steps later : Nat}

/-- A longer run comes to the same state when the program is loaded, with more steps left. -/
theorem load_of_le
    (hload : (execute Machine.fresh loaded fun fuel => load tracer fuel p).1 = .ok ())
    (hsteps : loaded ≤ steps) :
    ∃ n q, (loadedState tracer p loaded).steps ≤ n ∧
      (load tracer steps p).run { Machine.fresh with steps := steps } =
        (.ok (), { loadedState tracer p loaded with steps := n, place := q }) := by
  have htracks : Tracks KeepsRoot (load tracer loaded p) (load tracer steps p) Machine.fresh :=
    load_tracks hsteps p Nat.one_pos
  obtain ⟨-, hcase⟩ := htracks loaded steps none none hsteps
  have hstart : (load tracer loaded p).run { Machine.fresh with steps := loaded } =
      (.ok (), loadedState tracer p loaded) := Prod.ext hload rfl
  rcases hcase with ⟨n, q, hn, hsame⟩ | ⟨hpaused, -⟩
  · generalize hlonger : (load tracer steps p).run { Machine.fresh with steps := steps } = longer
    have hsame : (load tracer loaded p).run { Machine.fresh with steps := loaded } =
        (longer.1, { longer.2 with steps := n, place := q }) := hlonger ▸ hsame
    have hn : n ≤ longer.2.steps := hlonger ▸ hn
    obtain ⟨hr, hm⟩ := Prod.mk.inj (hstart.symm.trans hsame)
    refine ⟨longer.2.steps, longer.2.place, ?_, ?_⟩
    · rw [hm]
      exact hn
    · rw [hm, hr]
      rfl
  · cases hload.symm.trans hpaused

/-- **A run goes on where a shorter one has paused**, from the state in which the program is loaded
and within every region that admits it. -/
theorem changes_of_le {R : Region}
    (hload : (execute Machine.fresh loaded fun fuel => load tracer fuel p).1 = .ok ())
    (hsteps : loaded ≤ steps) (hlater : steps ≤ later)
    (hR : R.Admits (loadedState tracer p loaded).scopes) :
    Changes R (loadedState tracer p loaded).scopes (finalState tracer p steps).scopes ∧
      Changes R (finalState tracer p steps).scopes (finalState tracer p later).scopes := by
  obtain ⟨n₁, q₁, -, h₁⟩ := load_of_le hload hsteps
  have hagain : (execute Machine.fresh steps fun fuel => load tracer fuel p).1 = .ok () :=
    congrArg Prod.fst h₁
  obtain ⟨n₂, q₂, hn, h₂⟩ := load_of_le hagain hlater
  have hstate : loadedState tracer p steps =
      { loadedState tracer p loaded with steps := n₁, place := q₁ } := congrArg Prod.snd h₁
  rw [hstate] at hn h₂
  have hfinal {k n : Nat} {q : Option Place}
      (h : (load tracer k p).run { Machine.fresh with steps := k } =
        (.ok (), { loadedState tracer p loaded with steps := n, place := q })) :
      finalState tracer p k = ((callMain tracer k).run
        { loadedState tracer p loaded with steps := n, place := q }).2 := by
    change ((run tracer k p).run { Machine.fresh with steps := k }).2 = _
    rw [run_eq, run_bind, h]
  have htracks {k : Nat} (hk : steps ≤ k) :
      Tracks (Change R) (callMain tracer steps) (callMain tracer k) (loadedState tracer p loaded) :=
    callMain_tracks hk hR
  obtain ⟨-, hcase⟩ := htracks hlater n₁ n₂ q₁ q₂ hn
  rw [hfinal h₁, hfinal h₂]
  refine ⟨(htracks le_rfl).scopes n₁ q₁, ?_⟩
  rcases hcase with ⟨n, q, -, hsame⟩ | ⟨-, hchanges⟩
  · rw [hsame]
  · exact hchanges

/-- The region of what a program does once it is loaded: the globals can be assigned to. -/
def Region.after (f : Forest Binding Callable) : Region :=
  ⟨fun t => f.size ≤ t, fun t => t = root ∨ f.size ≤ t⟩

theorem Region.admits_after {f : Forest Binding Callable} (hroot : root < f.size)
    (hchain : f.chain root = [root]) : (Region.after f).Admits f := by
  refine ⟨hroot, fun t ht => ⟨ht, Or.inr ht⟩, fun t ht => ?_⟩
  rw [hchain] at ht
  exact Or.inl (List.mem_singleton.mp ht)

theorem chain_root (tracer : Tracer) (p : Program) (loaded : Nat) :
    root < (loadedState tracer p loaded).scopes.size ∧
      (loadedState tracer p loaded).scopes.chain root = [root] := by
  have htracks : Tracks KeepsRoot (load tracer loaded p) (load tracer loaded p) Machine.fresh :=
    load_tracks le_rfl p Nat.one_pos
  exact keepsRoot_of_path (htracks.scopes loaded none) Nat.one_pos

end Programs

/-! ### The result -/

/-- **What a run leaves alone.** Take any state of a run after the program was loaded, paused or
ended. The root scope has the names, the flags and the functions that it had then. In every later
state of the run, a binding that cannot be changed is as it was, unless a declaration in the same
inner scope has put another one in its place, which can be changed. The evaluation of an expression,
however it ends, leaves all inner scopes that were there as they were. And the execution of a
statement in a scope leaves all other scopes that were there with the same names and flags. -/
theorem run_frames {p : Program} {tracer : Tracer} {loaded : Nat}
    (hload : (execute Machine.fresh loaded fun fuel => load tracer fuel p).1 = .ok ())
    {steps : Nat} (hsteps : loaded ≤ steps) :
    let m := finalState tracer p steps
    outline? m.scopes root = outline? (loadedState tracer p loaded).scopes root ∧
      (∀ later, steps ≤ later → ∀ s k b, m.scopes.ownVariable? k s = some (some b) →
        b.mutable = false →
          ∃ b', (finalState tracer p later).scopes.ownVariable? k s = some (some b') ∧
            (b' = b ∨ s ≠ root ∧ b'.mutable = true)) ∧
      (∀ fuel n s e t, t < m.scopes.size → t ≠ root →
        ((eval tracer fuel s e).run { m with steps := n }).2.scopes.scopes[t]? =
          m.scopes.scopes[t]?) ∧
      ∀ fuel n s x t, s < m.scopes.size → t < m.scopes.size → t ≠ s →
        outline? ((exec tracer fuel s x).run { m with steps := n }).2.scopes t =
          outline? m.scopes t := by
  intro m
  obtain ⟨hroot, hchain⟩ := chain_root tracer p loaded
  generalize hstart : (loadedState tracer p loaded).scopes = start at hroot hchain
  have hR : (Region.after start).Admits (loadedState tracer p loaded).scopes := by
    rw [hstart]
    exact Region.admits_after hroot hchain
  have hstatic : ¬ (Region.after start).declares root := by
    change ¬ start.size ≤ root
    omega
  have hkept : Kept (Region.after start) start m.scopes :=
    hstart ▸ (changes_of_le hload hsteps le_rfl hR).1.kept
  have hroot' : root < m.scopes.size := lt_of_lt_of_le hroot hkept.size_le
  refine ⟨?_, fun later hlater s k b hb hmut => ?_, fun fuel n s e t ht hinner => ?_,
    fun fuel n s x t hs ht hother => ?_⟩
  · exact hkept.outline_eq root hroot hstatic
  · have hkept' := (changes_of_le hload hsteps hlater hR).2.kept
    obtain ⟨b', hb', hsame, hflag⟩ := hkept'.binding s k b hb
    refine ⟨b', hb', ?_⟩
    cases hmut' : b'.mutable with
    | false => exact Or.inl (hsame hmut')
    | true =>
      refine Or.inr ⟨?_, rfl⟩
      rintro rfl
      cases hmut'.symm.trans ((hflag hstatic).trans hmut)
  · have hR' : (Region.after m.scopes).Admits m.scopes :=
      Region.admits_after hroot' ((hkept.chain_eq root hroot).trans hchain)
    have htracks := (tracking_self (Region.after m.scopes) tracer fuel).eval s e hR'
    refine (Changes.kept (htracks.scopes n m.place)).untouched t ht ?_ ?_
    · exact Nat.not_le_of_lt ht
    · exact fun h => h.elim hinner (Nat.not_le_of_lt ht)
  · let R : Region := ⟨fun u => u = s ∨ m.scopes.size ≤ u, fun _ => True⟩
    have hR' : R.Admits m.scopes := ⟨hroot', fun _ hu => ⟨Or.inr hu, trivial⟩, fun _ _ => trivial⟩
    have hs' : R.Covers m.scopes s := ⟨hs, Or.inl rfl, fun _ _ => trivial⟩
    have htracks := (tracking_self R tracer fuel).exec x hR' hs'
    refine (Changes.kept (htracks.scopes n m.place)).outline_eq t ht ?_
    exact fun h => h.elim hother (Nat.not_le_of_lt ht)

/-- A callee that assigns to a global, whose name its caller has given to a variable of its own. -/
theorem run_frames_callee :
    ∃ p, readProgram
        "VAR n = TRUE; FUN f(x) DO n = x; LET x = n; END FUN main() DO LET n = FALSE; f(n); END" =
        .ok p ∧
      (execute Machine.fresh 4 fun fuel => load 0 fuel p).1 = .ok () ∧
      outline? (finalState 0 p 40).scopes root = outline? (loadedState 0 p 4).scopes root :=
  ⟨_, by cbv, by decide +kernel, (@run_frames _ 0 4 (by decide +kernel) 40 (by decide)).1⟩

end Scriptlet.Machine
