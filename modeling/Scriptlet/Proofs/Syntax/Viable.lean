import Scriptlet.Proofs.Syntax.Completeness
import Scriptlet.Proofs.Syntax.Compositions

/-! # Where tokens stop being readable

A reader fails at the first token that nothing it reads can have there. It looks at one token after
those it has taken, so what it does in front of a token does not depend on what stands behind that
token; and whatever it has taken can be completed, because every part of the grammar that is left
open can be closed with few words. `Result` says both of one run: a reader that succeeds reads the
same off its tokens wherever something stands next that it looks at in the same way or that may
follow (`Rereads`), a reader that fails does so at a token (`Refuses`), and what it has taken can be
completed by `fillers` (`Completes`). `ViableAt` says it of all runs with some fuel, and it is
passed on by the compositions of readers. -/

namespace Scriptlet

/-- The offset of a failure, if it has one. -/
def ParseError.offset? : ParseError → Option Nat
  | .unexpected _ _ o => some o
  | .invalidEscape o => some o
  | .badInteger _ _ => none
  | .badDecimal _ => none

namespace Parser

open Grammar (Lexed IsLexical Avoids EndsBlock take?_eq_none_iff)
open Reader

/-! ### Runs -/

/-- Whether fuel is enough for tokens: sixteen for each of them, and some for the way to the
first. -/
def Enough (margin fuel : Nat) (ts : List Token) : Prop :=
  16 * ts.length + margin ≤ fuel

/-- The tokens that complete what is left open: those of `x ( ) [ ] : ; DO END DEFAULT`. -/
def fillers : List Token :=
  [⟨.identifier, "x", 0⟩, ⟨.operator, "(", 2⟩, ⟨.operator, ")", 4⟩, ⟨.operator, "[", 6⟩,
    ⟨.operator, "]", 8⟩, ⟨.operator, ":", 10⟩, ⟨.operator, ";", 12⟩, ⟨.identifier, "DO", 14⟩,
    ⟨.identifier, "END", 17⟩, ⟨.identifier, "DEFAULT", 21⟩]

/-- Whether the next token has one of some texts. -/
def Heads (ws : List String) (ts : List Token) : Prop :=
  ∃ t ∈ ts.head?, t.text ∈ ws

theorem Heads.avoids {ws vs : List String} {ts : List Token} (h : Heads ws ts)
    (hws : ∀ w ∈ ws, w ∉ vs) : Avoids vs ts := by
  obtain ⟨t, ht, hmem⟩ := h
  intro u hu
  cases ht.symm.trans hu
  exact hws _ hmem

theorem Heads.endsBlock {ws : List String} {ts : List Token} (h : Heads ws ts)
    (hws : ws ⊆ ["END", "ELSE", "CASE", "DEFAULT"]) : EndsBlock ts := by
  obtain ⟨t, ht, hmem⟩ := h
  intro u hu
  cases ht.symm.trans hu
  exact hws hmem

variable {α β : Type}

/-- Whether `a` is read off `used` wherever the token that comes next is the one in front of `rest`,
or what comes next may follow. -/
def Rereads (R : Reader α) (margin : Nat) (follows : List Token → Prop) (used rest : List Token)
    (a : α) : Prop :=
  ∀ stop fuel rest', rest'.head? = rest.head? ∨ follows rest' →
    Enough margin fuel (used ++ rest') → R stop fuel (used ++ rest') = .ok (a, rest')

/-- Whether a reader fails after `used` wherever the token that comes next is the one in front of
`rest`. -/
def Refuses (R : Reader α) (margin : Nat) (w : Wanted) (used rest : List Token) : Prop :=
  ∀ stop fuel rest', rest'.head? = rest.head? →
    Enough margin fuel (used ++ rest') → R stop fuel (used ++ rest') = fail stop w rest'

/-- Whether `used` can be completed to something that is read, wherever something comes next that
may follow. It has a least number of tokens, and a completion of nothing `starts` somehow. -/
def Completes (R : Reader α) (margin least : Nat) (starts follows : List Token → Prop)
    (used : List Token) : Prop :=
  ∃ more ⊆ fillers, least ≤ (used ++ more).length ∧ ∃ a, ∀ rest, follows rest →
    (used = [] → starts (more ++ rest)) ∧ ∀ stop fuel, Enough margin fuel (used ++ (more ++ rest)) →
      R stop fuel (used ++ (more ++ rest)) = .ok (a, rest)

/-- What a run of a reader says about other runs. -/
inductive Result (R : Reader α) (margin least : Nat) (starts follows : List Token → Prop)
    (stop : Nat) (ts : List Token) : Except ParseError (α × List Token) → Prop where
  | read {a : α} {used rest : List Token} : ts = used ++ rest → least ≤ used.length →
      Rereads R margin follows used rest a →
      Result R margin least starts follows stop ts (.ok (a, rest))
  /-- A token is too long. -/
  | broken {e : ParseError} : e.offset? = none →
      Result R margin least starts follows stop ts (.error e)
  | refused {w : Wanted} {used rest : List Token} : ts = used ++ rest →
      Refuses R margin w used rest → Completes R margin least starts follows used →
      Result R margin least starts follows stop ts (fail stop w rest)

/-- Whether something can be read with a reader, and all its runs with some fuel, provided that it
is enough, say what they should about others. -/
structure ViableAt (fuel margin least : Nat) (starts follows : List Token → Prop)
    (R : Reader α) : Prop where
  completes : Completes R margin least starts follows []
  result : ∀ stop ts, Lexed ts → Enough margin fuel ts →
    Result R margin least starts follows stop ts (R stop fuel ts)

theorem fail_bind {stop : Nat} {w : Wanted} {ts : List Token}
    {f : α → Except ParseError β} : (fail stop w ts >>= f) = fail stop w ts := by
  cases ts <;> rfl

/-- What is taken first decides about the next token. -/
theorem head?_append_eq {used rest rest' : List Token} (h : rest'.head? = rest.head?) :
    (used ++ rest').head? = (used ++ rest).head? := by
  rw [List.head?_append, List.head?_append, h]

theorem head?_append_of_ne_nil {used rest rest' : List Token} (h : used ≠ []) :
    (used ++ rest').head? = (used ++ rest).head? := by
  obtain ⟨t, used, rfl⟩ := List.exists_cons_of_ne_nil h
  rfl

variable {R R' : Reader α} {f : α → Reader β} {fuel k k' k₂ c c' c₂ : Nat}
  {S₀ S₀' S S' S₂ S₂₀ : List Token → Prop} {used ts : List Token}

/-! ### Completions -/

namespace Completes

theorem mono (h : Completes R k c S₀ S used) (hk : k ≤ k') (hc : c' ≤ c) (h₀ : ∀ ts, S₀ ts → S₀' ts)
    (hS : ∀ ts, S' ts → S ts) : Completes R k' c' S₀' S' used := by
  obtain ⟨more, hmore, hlen, a, h⟩ := h
  refine ⟨more, hmore, hc.trans hlen, a, fun rest hrest => ?_⟩
  obtain ⟨hstart, hread⟩ := h rest (hS rest hrest)
  refine ⟨fun hnil => h₀ _ (hstart hnil), fun stop fuel hfuel => hread stop fuel ?_⟩
  unfold Enough at hfuel ⊢
  omega

theorem of_eq (heq : ∀ stop fuel ts, R stop fuel ts = R' stop fuel ts)
    (h : Completes R' k c S₀ S used) : Completes R k c S₀ S used := by
  have hR : R = R' := funext fun stop => funext fun fuel => funext fun ts => heq stop fuel ts
  rwa [hR]

/-- A reader that passes its tokens on with less fuel. -/
theorem succ (heq : ∀ stop fuel ts, R stop (fuel + 1) ts = R' stop fuel ts)
    (h : Completes R' k c S₀ S used) : Completes R (k + 1) c S₀ S used := by
  obtain ⟨more, hmore, hlen, a, h⟩ := h
  refine ⟨more, hmore, hlen, a, fun rest hrest => ⟨(h rest hrest).1, fun stop fuel hfuel => ?_⟩⟩
  unfold Enough at hfuel
  obtain ⟨fuel, rfl⟩ := Nat.exists_eq_add_of_le' (show 1 ≤ fuel by omega)
  rw [heq]
  refine (h rest hrest).2 stop fuel ?_
  unfold Enough
  omega

theorem refuel (h : Completes R k c S₀ S used) (hk : k ≤ 16) :
    Completes (Reader.refuel R) 0 c S₀ S used := by
  obtain ⟨more, hmore, hlen, a, h⟩ := h
  refine ⟨more, hmore, hlen, a, fun rest hrest => ⟨(h rest hrest).1, fun stop fuel hfuel => ?_⟩⟩
  refine (h rest hrest).2 stop _ ?_
  unfold Enough fuelFor
  omega

theorem done (a : α) (h₀ : ∀ ts, S ts → S₀ ts) : Completes (Reader.done a) k 0 S₀ S [] :=
  ⟨[], List.nil_subset _, Nat.zero_le _, a, fun rest hrest => ⟨fun _ => h₀ rest hrest,
    fun _ _ _ => rfl⟩⟩

theorem bind (h : Completes R k c S₀ S used) (hf : ∀ a, Completes (f a) k₂ c₂ S S₂ [])
    (hk : k₂ ≤ k + 16 * c) (hc : c' ≤ c + c₂) :
    Completes (Reader.bind R f) k c' S₀ S₂ used := by
  obtain ⟨more, hmore, hlen, a, h⟩ := h
  obtain ⟨more₂, hmore₂, hlen₂, b, h₂⟩ := hf a
  refine ⟨more ++ more₂, List.append_subset.mpr ⟨hmore, hmore₂⟩, ?_, b, fun rest hrest => ?_⟩
  · simp only [List.length_append, List.nil_append] at hlen hlen₂ ⊢
    omega
  · obtain ⟨hstart₂, hread₂⟩ := h₂ rest hrest
    obtain ⟨hstart, hread⟩ := h (more₂ ++ rest) (hstart₂ rfl)
    rw [List.append_assoc]
    refine ⟨hstart, fun stop fuel hfuel => ?_⟩
    rw [Reader.bind, hread stop fuel hfuel, ok_bind]
    refine hread₂ stop fuel ?_
    unfold Enough at hfuel ⊢
    simp only [List.length_append, List.nil_append] at hlen hfuel ⊢
    omega

/-- A token in front that only selects how to go on. -/
theorem cons {t : Token} (heq : ∀ stop fuel ts, R stop fuel (t :: ts) = R' stop fuel ts)
    (h : Completes R' k' c S₀' S used) (hk : k' ≤ k + 16) :
    Completes R k (c + 1) S₀ S (t :: used) := by
  obtain ⟨more, hmore, hlen, a, h⟩ := h
  refine ⟨more, hmore, Nat.succ_le_succ hlen, a, fun rest hrest => ⟨nofun, ?_⟩⟩
  intro stop fuel hfuel
  rw [List.cons_append, heq]
  refine (h rest hrest).2 stop fuel ?_
  unfold Enough at hfuel ⊢
  rw [List.cons_append, List.length_cons] at hfuel
  omega

/-- A filler that only selects how to go on. -/
theorem filler {t : Token} (ht : t ∈ fillers)
    (heq : ∀ stop fuel ts, R stop fuel (t :: ts) = R' stop fuel ts)
    (h : Completes R' k' c S₀' S []) (hk : k' ≤ k + 16) :
    Completes R k (c + 1) (Heads [t.text]) S [] := by
  have hcons : Completes R k (c + 1) S₀' S [t] := h.cons heq hk
  obtain ⟨more, hmore, hlen, a, hread⟩ := hcons
  refine ⟨t :: more, List.cons_subset.mpr ⟨ht, hmore⟩, hlen, a, fun rest hrest => ⟨fun _ => ?_, ?_⟩⟩
  · exact ⟨t, rfl, List.mem_singleton_self _⟩
  · exact (hread rest hrest).2

/-- A reader that goes on like another one where the next token says so. -/
theorem guard {p : List Token → Prop} (hp : ∀ ts us, us.head? = ts.head? → p ts → p us)
    (heq : ∀ stop fuel ts, p ts → R stop fuel ts = R' stop fuel ts) (hstart : ∀ ts, S₀ ts → p ts)
    (hused : used ≠ [] → p used) (h : Completes R' k c S₀ S used) : Completes R k c S₀ S used := by
  obtain ⟨more, hmore, hlen, a, h⟩ := h
  refine ⟨more, hmore, hlen, a, fun rest hrest => ⟨(h rest hrest).1, fun stop fuel hfuel => ?_⟩⟩
  rw [heq]
  · exact (h rest hrest).2 stop fuel hfuel
  · by_cases hnil : used = []
    · subst hnil
      exact hstart _ ((h rest hrest).1 rfl)
    · refine hp _ _ ?_ (hused hnil)
      conv_rhs => rw [← List.append_nil used]
      exact head?_append_of_ne_nil hnil

theorem avoids_of_head?_eq {ws : List String} (ts us : List Token) (h : us.head? = ts.head?)
    (hts : Avoids ws ts) : Avoids ws us := by
  unfold Avoids
  rwa [h]

theorem choose {ws : List String} {g : String → Reader α} (h : Completes R k c S₀ S [])
    (hstart : ∀ ts, S₀ ts → Avoids ws ts) : Completes (Reader.choose ws g R) k c S₀ S [] :=
  h.guard avoids_of_head?_eq
    (fun _ _ _ hts => by rw [Reader.choose, take?_eq_none_iff.mpr hts]) hstart nofun

theorem next {w : String} (h : Completes R' k c S₀ S []) (hstart : ∀ ts, S₀ ts → Avoids [w] ts) :
    Completes (Reader.next w R R') k c S₀ S [] :=
  .of_eq (fun stop fuel ts => next_eq stop fuel ts w R R') (h.choose hstart)

theorem expect {w : String} (h : Completes R k' c S₀' S []) (hk : k' ≤ k + 16)
    (hw : ∃ t ∈ fillers, t.text = w) :
    Completes (Reader.expect w R) k (c + 1) (Heads [w]) S [] := by
  obtain ⟨t, ht, rfl⟩ := hw
  refine filler ht (fun stop fuel ts => ?_) h hk
  rw [expect_eq, Reader.select, if_pos rfl]

end Completes

/-! ### Results -/

namespace Result

variable {stop : Nat} {r : Except ParseError (α × List Token)}

theorem mono (h : Result R k c S₀ S stop ts r) (hk : k ≤ k') (hc : c' ≤ c)
    (h₀ : ∀ ts, S₀ ts → S₀' ts) (hS : ∀ ts, S' ts → S ts) :
    Result R k' c' S₀' S' stop ts r := by
  have henough {fuel : Nat} {ts : List Token} (h : Enough k' fuel ts) : Enough k fuel ts := by
    unfold Enough at h ⊢
    omega
  cases h with
  | read hts hlen hreads =>
    refine .read hts (hc.trans hlen) fun stop fuel rest' hrest' hfuel => ?_
    exact hreads stop fuel rest' (hrest'.imp_right (hS _)) (henough hfuel)
  | broken he => exact .broken he
  | refused hts hrefuses hcompletes =>
    refine .refused hts (fun stop fuel rest' hrest' hfuel => ?_) (hcompletes.mono hk hc h₀ hS)
    exact hrefuses stop fuel rest' hrest' (henough hfuel)

theorem succ (heq : ∀ stop fuel ts, R stop (fuel + 1) ts = R' stop fuel ts)
    (h : Result R' k c S₀ S stop ts r) : Result R (k + 1) c S₀ S stop ts r := by
  have hpred {fuel : Nat} {ts : List Token} (h : Enough (k + 1) fuel ts) :
      ∃ n, fuel = n + 1 ∧ Enough k n ts := by
    unfold Enough at h
    refine ⟨fuel - 1, by omega, ?_⟩
    unfold Enough
    omega
  cases h with
  | read hts hlen hreads =>
    refine .read hts hlen fun stop fuel rest' hrest' hfuel => ?_
    obtain ⟨n, rfl, hn⟩ := hpred hfuel
    rw [heq, hreads stop n rest' hrest' hn]
  | broken he => exact .broken he
  | refused hts hrefuses hcompletes =>
    refine .refused hts (fun stop fuel rest' hrest' hfuel => ?_) (hcompletes.succ heq)
    obtain ⟨n, rfl, hn⟩ := hpred hfuel
    rw [heq, hrefuses stop n rest' hrest' hn]

theorem refuel (h : Result R k c S₀ S stop ts r) (hk : k ≤ 16) :
    Result (Reader.refuel R) 0 c S₀ S stop ts r := by
  have henough (ts : List Token) : Enough k (fuelFor ts) ts := by
    unfold Enough fuelFor
    omega
  cases h with
  | read hts hlen hreads =>
    refine .read hts hlen fun stop fuel rest' hrest' hfuel => ?_
    exact hreads stop _ rest' hrest' (henough _)
  | broken he => exact .broken he
  | refused hts hrefuses hcompletes =>
    refine .refused hts (fun stop fuel rest' hrest' hfuel => ?_) (hcompletes.refuel hk)
    exact hrefuses stop _ rest' hrest' (henough _)

/-- A token in front that only selects how to go on. -/
theorem cons {t : Token} (heq : ∀ stop fuel ts, R stop fuel (t :: ts) = R' stop fuel ts)
    (h : Result R' k' c S₀' S stop ts r) (hk : k' ≤ k + 16) :
    Result R k (c + 1) S₀ S stop (t :: ts) r := by
  have henough {fuel : Nat} {ts : List Token} (h : Enough k fuel (t :: ts)) :
      Enough k' fuel ts := by
    unfold Enough at h ⊢
    rw [List.length_cons] at h
    omega
  cases h with
  | @read a used rest hts hlen hreads =>
    subst hts
    have hts : t :: (used ++ rest) = (t :: used) ++ rest := rfl
    refine .read hts (Nat.succ_le_succ hlen) fun stop fuel rest' hrest' hfuel => ?_
    rw [List.cons_append, heq]
    exact hreads stop fuel rest' hrest' (henough hfuel)
  | broken he => exact .broken he
  | @refused w used rest hts hrefuses hcompletes =>
    subst hts
    have hts : t :: (used ++ rest) = (t :: used) ++ rest := rfl
    refine .refused hts (fun stop fuel rest' hrest' hfuel => ?_)
      (hcompletes.cons heq hk)
    rw [List.cons_append, heq]
    exact hrefuses stop fuel rest' hrest' (henough hfuel)

/-- A reader that goes on like another one where the next token says so. -/
theorem guard {p : List Token → Prop} (hp : ∀ ts us, us.head? = ts.head? → p ts → p us)
    (heq : ∀ stop fuel ts, p ts → R stop fuel ts = R' stop fuel ts) (hstart : ∀ ts, S₀ ts → p ts)
    (hfollow : c = 0 → ∀ ts, S ts → p ts) (hts : p ts) (h : Result R' k c S₀ S stop ts r) :
    Result R k c S₀ S stop ts r := by
  have hused {used rest : List Token} (hts' : ts = used ++ rest) (hne : used ≠ [])
      (us : List Token) : p (used ++ us) := by
    subst hts'
    exact hp _ _ (head?_append_of_ne_nil hne) hts
  cases h with
  | @read a used rest hts' hlen hreads =>
    refine .read hts' hlen fun stop fuel rest' hrest' hfuel => ?_
    rw [heq]
    · exact hreads stop fuel rest' hrest' hfuel
    · by_cases hne : used = []
      · subst hne
        rcases hrest' with hhead | hS
        · rw [List.nil_append] at hts'
          exact hp _ _ hhead (hts' ▸ hts)
        · exact hfollow (Nat.le_zero.mp hlen) _ hS
      · exact hused hts' hne rest'
  | broken he => exact .broken he
  | @refused w used rest hts' hrefuses hcompletes =>
    refine .refused hts' (fun stop fuel rest' hrest' hfuel => ?_)
      (hcompletes.guard hp heq hstart fun hne => ?_)
    · rw [heq]
      · exact hrefuses stop fuel rest' hrest' hfuel
      · exact hp _ _ (head?_append_eq hrest') (hts' ▸ hts)
    · have h := hused hts' hne []
      rwa [List.append_nil] at h

end Result

/-! ### Viable readers -/

namespace ViableAt

theorem mono (h : ViableAt fuel k c S₀ S R) (hk : k ≤ k') (hc : c' ≤ c)
    (h₀ : ∀ ts, S₀ ts → S₀' ts) (hS : ∀ ts, S' ts → S ts) : ViableAt fuel k' c' S₀' S' R := by
  refine ⟨h.completes.mono hk hc h₀ hS, fun stop ts hts hfuel => ?_⟩
  refine (h.result stop ts hts ?_).mono hk hc h₀ hS
  unfold Enough at hfuel ⊢
  omega

/-- What may follow can be narrowed, and what it starts with widened. -/
theorem imp (h : ViableAt fuel k c S₀ S R) (h₀ : ∀ ts, S₀ ts → S₀' ts) (hS : ∀ ts, S' ts → S ts) :
    ViableAt fuel k c S₀' S' R :=
  h.mono (Nat.le_refl k) (Nat.le_refl c) h₀ hS

theorem of_eq (heq : ∀ stop fuel ts, R stop fuel ts = R' stop fuel ts)
    (h : ViableAt fuel k c S₀ S R') : ViableAt fuel k c S₀ S R := by
  have hR : R = R' := funext fun stop => funext fun fuel => funext fun ts => heq stop fuel ts
  rwa [hR]

/-- Without fuel nothing runs. -/
theorem zero (h : Completes R k c S₀ S []) (hk : 0 < k) : ViableAt 0 k c S₀ S R := by
  refine ⟨h, fun stop ts hts hfuel => ?_⟩
  unfold Enough at hfuel
  omega

theorem succ (heq : ∀ stop fuel ts, R stop (fuel + 1) ts = R' stop fuel ts)
    (h : ViableAt fuel k c S₀ S R') : ViableAt (fuel + 1) (k + 1) c S₀ S R := by
  refine ⟨h.completes.succ heq, fun stop ts hts hfuel => ?_⟩
  rw [heq]
  refine (h.result stop ts hts ?_).succ heq
  unfold Enough at hfuel ⊢
  omega

theorem refuel (h : ∀ fuel, ViableAt fuel k c S₀ S R) (hk : k ≤ 16) :
    ViableAt fuel 0 c S₀ S (Reader.refuel R) := by
  refine ⟨(h fuel).completes.refuel hk, fun stop ts hts _ => ?_⟩
  refine ((h (fuelFor ts)).result stop ts hts ?_).refuel hk
  unfold Enough fuelFor
  omega

theorem done (a : α) : ViableAt fuel k 0 S S (Reader.done a) :=
  ⟨.done a fun _ => id, fun _ _ _ _ =>
    .read (List.nil_append _).symm (Nat.zero_le _) fun _ _ _ _ _ => rfl⟩

/-- One reader after the other: what the second one starts with may follow the first one. -/
theorem bind (h : ViableAt fuel k c S₀ S R) (hf : ∀ a, ViableAt fuel k₂ c₂ S₂₀ S₂ (f a))
    (hinner : ∀ ts, S₂₀ ts → S ts) (hk : k₂ ≤ k + 16 * c) (hc : c' ≤ c + c₂)
    (hstart : c = 0 → ∀ ts, S ts → S₀ ts) (hfollow : c₂ = 0 → ∀ ts, S₂ ts → S ts) :
    ViableAt fuel k c' S₀ S₂ (Reader.bind R f) := by
  have hcompletes (a : α) : Completes (f a) k₂ c₂ S S₂ [] :=
    (hf a).completes.mono (Nat.le_refl _) (Nat.le_refl _) hinner fun _ => id
  refine ⟨h.completes.bind hcompletes hk hc, fun stop ts hts hfuel => ?_⟩
  have hR := h.result stop ts hts hfuel
  rw [Reader.bind]
  generalize R stop fuel ts = r at hR ⊢
  cases hR with
  | broken he => exact .broken he
  | refused hts' hrefuses hcompletion =>
    rw [fail_bind]
    have hbind := hcompletion.bind hcompletes hk hc
    refine .refused hts' (fun stop fuel rest' hrest' hfuel => ?_) hbind
    rw [Reader.bind, hrefuses stop fuel rest' hrest' hfuel, fail_bind]
  | @read a used rest hts' hlen hreads =>
    subst hts'
    have henough {fuel : Nat} {us : List Token} (h : Enough k fuel (used ++ us)) :
        Enough k₂ fuel us := by
      unfold Enough at h ⊢
      rw [List.length_append] at h
      omega
    have hf := (hf a).result stop rest hts.right (henough hfuel)
    rw [ok_bind]
    generalize f a stop fuel rest = r at hf ⊢
    cases hf with
    | broken he => exact .broken he
    | @read b used₂ rest₂ hrest hlen₂ hreads₂ =>
      subst hrest
      have happend : used ++ (used₂ ++ rest₂) = (used ++ used₂) ++ rest₂ :=
        (List.append_assoc ..).symm
      refine .read happend ?_ fun stop fuel rest' hrest' hfuel => ?_
      · rw [List.length_append]
        omega
      · rw [List.append_assoc] at hfuel ⊢
        rw [Reader.bind, hreads stop fuel (used₂ ++ rest') ?_ hfuel, ok_bind,
          hreads₂ stop fuel rest' hrest' (henough hfuel)]
        by_cases hne : used₂ = []
        · subst hne
          exact hrest'.imp_right (hfollow (Nat.le_zero.mp hlen₂) _)
        · exact .inl (head?_append_of_ne_nil hne)
    | @refused w used₂ rest₂ hrest hrefuses₂ hcompletion₂ =>
      subst hrest
      have happend : used ++ (used₂ ++ rest₂) = (used ++ used₂) ++ rest₂ :=
        (List.append_assoc ..).symm
      refine .refused happend (fun stop fuel rest' hrest' hfuel => ?_) ?_
      · rw [List.append_assoc] at hfuel ⊢
        rw [Reader.bind, hreads stop fuel _ (.inl (head?_append_eq hrest')) hfuel, ok_bind,
          hrefuses₂ stop fuel rest' hrest' (henough hfuel)]
      · obtain ⟨more, hmore, hlen₂, b, hread₂⟩ := hcompletion₂
        refine ⟨more, hmore, ?_, b, fun us hus => ⟨fun hnil => ?_, fun stop fuel hfuel => ?_⟩⟩
        · simp only [List.length_append] at hlen₂ ⊢
          omega
        · obtain ⟨rfl, rfl⟩ := List.append_eq_nil_iff.mp hnil
          exact hstart (Nat.le_zero.mp hlen) _ (hinner _ ((hread₂ us hus).1 rfl))
        · rw [List.append_assoc] at hfuel ⊢
          rw [Reader.bind, hreads stop fuel _ ?_ hfuel, ok_bind,
            (hread₂ us hus).2 stop fuel (henough hfuel)]
          by_cases hne : used₂ = []
          · subst hne
            exact .inr (hinner _ ((hread₂ us hus).1 rfl))
          · exact .inl (head?_append_of_ne_nil hne)

/-- A token that is taken, with one filler that is taken too. -/
theorem select {w : Wanted} {g : Token → Option (Reader α)}
    (hg : ∀ t R, IsLexical t → g t = some R →
      (∃ e : ParseError, e.offset? = none ∧ R = broken e) ∨ ∃ S₀', ViableAt fuel k' c S₀' S R)
    (hk : k' ≤ k + 16) (hcompletes : Completes (Reader.select w g) k (c + 1) S₀ S []) :
    ViableAt fuel k (c + 1) S₀ S (Reader.select w g) := by
  refine ⟨hcompletes, fun stop ts hts hfuel => ?_⟩
  cases ts with
  | nil =>
    refine .refused (List.nil_append []).symm (fun stop fuel rest' hrest' _ => ?_) hcompletes
    rw [List.head?_eq_none_iff.mp hrest']
    rfl
  | cons t ts =>
    cases hselect : g t with
    | some R =>
      have heq (stop fuel : Nat) (ts : List Token) :
          Reader.select w g stop fuel (t :: ts) = R stop fuel ts := by
        rw [Reader.select, hselect]
      rw [heq]
      rcases hg t R (hts t List.mem_cons_self) hselect with ⟨e, he, rfl⟩ | ⟨S₀', hR⟩
      · exact .broken he
      · refine (hR.result stop ts hts.tail ?_).cons heq hk
        unfold Enough at hfuel ⊢
        rw [List.length_cons] at hfuel
        omega
    | none =>
      have heq (stop fuel : Nat) (ts : List Token) :
          Reader.select w g stop fuel (t :: ts) = fail stop w (t :: ts) := by
        rw [Reader.select, hselect]
      rw [heq]
      refine .refused (List.nil_append _).symm (fun stop fuel rest' hrest' _ => ?_) hcompletes
      obtain ⟨us, rfl⟩ := List.head?_eq_some_iff.mp hrest'
      exact heq stop fuel us

/-- A token with one of some words is taken, or none is. -/
theorem choose {ws : List String} {g : String → Reader α}
    (hg : ∀ w, ViableAt fuel k' c' S₀' S (g w)) (hR : ViableAt fuel k c S₀ S R)
    (hk : k' ≤ k + 16) (hc : c ≤ c' + 1) (hstart : ∀ ts, S₀ ts → Avoids ws ts)
    (hfollow : c = 0 → ∀ ts, S ts → Avoids ws ts) :
    ViableAt fuel k c S₀ S (Reader.choose ws g R) := by
  refine ⟨hR.completes.choose hstart, fun stop ts hts hfuel => ?_⟩
  cases htake : take? ws ts with
  | none =>
    have hnone (stop fuel : Nat) (ts : List Token) (h : Avoids ws ts) :
        Reader.choose ws g R stop fuel ts = R stop fuel ts := by
      rw [Reader.choose, take?_eq_none_iff.mpr h]
    have hts' := take?_eq_none_iff.mp htake
    rw [hnone stop fuel ts hts']
    exact (hR.result stop ts hts hfuel).guard Completes.avoids_of_head?_eq hnone
      hstart hfollow hts'
  | some wts =>
    cases ts with
    | nil => cases htake
    | cons t ts =>
      have hmem : ws.contains t.text = true := by
        by_contra hmem
        rw [take?, if_neg hmem] at htake
        cases htake
      have heq (stop fuel : Nat) (ts : List Token) :
          Reader.choose ws g R stop fuel (t :: ts) = g t.text stop fuel ts := by
        rw [Reader.choose, take?, if_pos hmem]
      rw [heq]
      refine (((hg t.text).result stop ts hts.tail ?_).cons heq hk).mono (Nat.le_refl k) hc
        (fun _ => id) fun _ => id
      unfold Enough at hfuel ⊢
      rw [List.length_cons] at hfuel
      omega

theorem next {w : String} (hR : ViableAt fuel k' c' S₀' S R) (hR' : ViableAt fuel k c S₀ S R')
    (hk : k' ≤ k + 16) (hc : c ≤ c' + 1) (hstart : ∀ ts, S₀ ts → Avoids [w] ts)
    (hfollow : c = 0 → ∀ ts, S ts → Avoids [w] ts) :
    ViableAt fuel k c S₀ S (Reader.next w R R') :=
  .of_eq (fun stop fuel ts => next_eq stop fuel ts w R R')
    (.choose (fun _ => hR) hR' hk hc hstart hfollow)

/-- A test of the next token only. -/
theorem pick {p : List Token → Bool} (hp : ∀ ts us, us.head? = ts.head? → p us = p ts)
    (hR : ViableAt fuel k c S₀ S R) (hR' : ViableAt fuel k c' S₀' S R')
    (hpos : ∀ ts, S₀ ts → p ts = true) (hneg : ∀ ts, S₀' ts → p ts = false)
    (hc : c ≤ c') (hfollow : c = 0 → ∀ ts, S ts → p ts = true)
    (hfollow' : c' = 0 → ∀ ts, S ts → p ts = false) :
    ViableAt fuel k c (fun ts => S₀ ts ∨ S₀' ts) S (Reader.pick p R R') := by
  have htrue (stop fuel : Nat) (ts : List Token) (h : p ts = true) :
      Reader.pick p R R' stop fuel ts = R stop fuel ts := if_pos h
  have hfalse (stop fuel : Nat) (ts : List Token) (h : p ts = false) :
      Reader.pick p R R' stop fuel ts = R' stop fuel ts := if_neg (by simp [h])
  have hsame {b : Bool} (ts us : List Token) (h : us.head? = ts.head?) (hb : p ts = b) :
      p us = b := (hp ts us h).trans hb
  refine ⟨(hR.completes.guard hsame htrue hpos nofun).mono (Nat.le_refl k) (Nat.le_refl c)
    (fun _ => .inl) fun _ => id, fun stop ts hts hfuel => ?_⟩
  cases htest : p ts with
  | true =>
    rw [htrue stop fuel ts htest]
    exact ((hR.result stop ts hts hfuel).guard hsame htrue hpos hfollow htest).mono (Nat.le_refl k)
      (Nat.le_refl c) (fun _ => .inl) fun _ => id
  | false =>
    rw [hfalse stop fuel ts htest]
    exact ((hR'.result stop ts hts hfuel).guard hsame hfalse hneg hfollow' htest).mono
      (Nat.le_refl k) hc (fun _ => .inr) fun _ => id

theorem expect {w : String} (h : ViableAt fuel k' c S₀' S R) (hk : k' ≤ k + 16)
    (hw : ∃ t ∈ fillers, t.text = w) : ViableAt fuel k 1 (Heads [w]) S (Reader.expect w R) := by
  have heq (stop fuel : Nat) (ts : List Token) := expect_eq stop fuel ts w R
  have hcompletes : Completes (Reader.expect w R) k (c + 1) (Heads [w]) S [] :=
    h.completes.expect hk hw
  have hselect : ∀ t R', IsLexical t → (if t.text = w then some R else none) = some R' →
      (∃ e : ParseError, e.offset? = none ∧ R' = broken e) ∨
        ∃ S₀', ViableAt fuel k' c S₀' S R' := by
    intro t R' _ hR'
    split_ifs at hR'
    cases hR'
    exact .inr ⟨S₀', h⟩
  refine .of_eq heq ((ViableAt.select hselect hk (.of_eq
    (fun stop fuel ts => (heq stop fuel ts).symm) hcompletes)).mono (Nat.le_refl k)
      (Nat.le_add_left 1 c) (fun _ => id) fun _ => id)

/-- Two readers that both take a token at least. -/
theorem seq (h : ViableAt fuel k 1 S₀ S R) (hf : ∀ a, ViableAt fuel k₂ 1 S S₂ (f a))
    (hk : k₂ ≤ k + 16) : ViableAt fuel k 1 S₀ S₂ (Reader.bind R f) :=
  h.bind hf (fun _ => id) hk (Nat.le_add_right 1 1) nofun nofun

/-- A reader that may take nothing, and one that takes a token at least. -/
theorem opt (h : ViableAt fuel k 0 S₀ S R) (hf : ∀ a, ViableAt fuel k₂ 1 S₂₀ S₂ (f a))
    (hinner : ∀ ts, S₂₀ ts → S ts) (hk : k₂ ≤ k) (hstart : ∀ ts, S ts → S₀ ts) :
    ViableAt fuel k 1 S₀ S₂ (Reader.bind R f) :=
  h.bind hf hinner hk (Nat.le_refl 1) (fun _ => hstart) nofun

theorem map (h : ViableAt fuel k c S₀ S R) (g : α → β) (hstart : c = 0 → ∀ ts, S ts → S₀ ts) :
    ViableAt fuel k c S₀ S (Reader.bind R fun a => Reader.done (g a)) :=
  h.bind (fun a => .done (g a)) (fun _ => id) (Nat.le_add_right k _) (Nat.le_refl c) hstart
    fun _ _ => id

/-- A reader that takes a token at least, before a word. -/
theorem before {w : String} (h : ViableAt fuel k 1 S₀ (Heads [w]) R) (g : α → β)
    (hw : ∃ t ∈ fillers, t.text = w) :
    ViableAt fuel k 1 S₀ S (Reader.bind R fun a => Reader.expect w (Reader.done (g a))) :=
  h.seq (fun a => (ViableAt.done (g a)).expect (Nat.le_add_right k 16) hw) (Nat.le_add_right k 16)

theorem finish (a : α) : ViableAt fuel k 0 (· = []) (· = []) (Reader.finish a) := by
  have hcompletes : Completes (Reader.finish a) k 0 (· = []) (· = []) [] := by
    refine ⟨[], List.nil_subset _, Nat.zero_le _, a, ?_⟩
    rintro rest rfl
    exact ⟨fun _ => rfl, fun _ _ _ => rfl⟩
  refine ⟨hcompletes, fun stop ts hts hfuel => ?_⟩
  cases ts with
  | nil =>
    refine .read (List.nil_append []).symm (Nat.zero_le _) fun stop fuel rest' hrest' _ => ?_
    rw [List.head?_nil, List.head?_eq_none_iff, or_self] at hrest'
    rw [hrest']
    rfl
  | cons t ts =>
    refine .refused (List.nil_append _).symm (fun stop fuel rest' hrest' _ => ?_) hcompletes
    obtain ⟨us, rfl⟩ := List.head?_eq_some_iff.mp hrest'
    rfl

end ViableAt

end Parser

end Scriptlet
