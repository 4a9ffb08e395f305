import Mathlib.Data.List.Forall2
import Mathlib.Data.String.Basic
import Scriptlet.Proofs.Value.Layers
import Scriptlet.Proofs.Value.Numbers

/-! # Equality and order of values

What equality sees of a value is its content: the place of a number, a text, the contents of the
items of a list, but neither the representation of a number nor the address of a list. So equality
is an equivalence on the values that have a content, and their order is the order of contents.

* `equalAt_content`: two values are equal exactly if they have the same content.
* `equalAt_congr`: values of the same content are equal to the same values.
* `Heap.coherent`: equality is an equivalence, and the order goes with it. -/

namespace Scriptlet

/-! ### Contents -/

/-- What equality sees of a value. -/
inductive Content where
  | nil
  | bool (b : Bool)
  | number (place : WithBot (WithTop ℚ))
  | character (text : Text)
  | string (text : Text)
  | list (items : List Content)
  /-- What is no content of a value of the language. -/
  | other

/-- Whether a value is one of the language, apart from what a list has in it, and has a place if it
is a number. -/
def Value.IsPlain : Value → Prop
  | .decimal d => d.isNaN = false
  | .char (.str _) => True
  | .char _ => False
  | .foreign _ => False
  | _ => True

/-- The kinds of plain values. -/
theorem Value.IsPlain.cases {v : Value} (hv : v.IsPlain) :
    v.IsRanked ∨ v = .nil ∨ (∃ b, v = .bool b) ∨ v.IsCharacter ∨ v.IsString ∨ ∃ a, v = .list a := by
  cases v with
  | nil => simp
  | bool b => simp
  | int n => exact Or.inl trivial
  | decimal x => exact Or.inl hv
  | char j =>
    cases j with
    | str s => exact Or.inr (Or.inr (Or.inr (Or.inl ⟨s, rfl⟩)))
    | _ => exact hv.elim
  | string s => exact Or.inr (Or.inr (Or.inr (Or.inr (Or.inl ⟨s, rfl⟩))))
  | list a => simp
  | foreign j => exact hv.elim

namespace Heap

variable {h h' : Heap} {d : Nat} {v w x : Value}

/-- The content of a value whose lists are nested at most so deep. -/
def contentAt (h : Heap) : (depth : Nat) → Value → Content
  | _, .nil => .nil
  | _, .bool b => .bool b
  | _, .int n => .number (Value.int n).rank
  | _, .decimal d => .number (Value.decimal d).rank
  | _, .char (.str s) => .character s
  | _, .string s => .string s
  | depth + 1, .list a => .list ((h.items a).toList.map (contentAt h depth))
  | _, _ => .other

/-- Whether all that a value contains is plain. -/
def IsPlain (h : Heap) (v : Value) : Prop :=
  ∀ w, h.Contains v w → w.IsPlain

/-- Whether a value contains neither a not-a-number nor foreign data, and its lists are nested to a
finite depth. -/
structure IsProper (h : Heap) (v : Value) : Prop where
  founded : h.IsFounded v
  plain : h.IsPlain v

theorem IsPlain.self (hv : h.IsPlain v) : v.IsPlain :=
  hv v .refl

theorem IsPlain.item (hv : h.IsPlain v) (hx : h.HasItem v x) : h.IsPlain x :=
  fun w hw => hv w (.head hx hw)

/-- A value is proper if it is plain and its items are proper. -/
theorem isProper_of_items (hv : v.IsPlain) (hitems : ∀ x, h.HasItem v x → h.IsProper x) :
    h.IsProper v where
  founded w hw hcycle := by
    rcases hw.cases_head with rfl | ⟨x, hx, hxw⟩
    · obtain ⟨x, hx, hxv⟩ := Relation.TransGen.head'_iff.mp hcycle
      exact (hitems x hx).founded x .refl (.tail' hxv hx)
    · exact (hitems x hx).founded w hxw hcycle
  plain w hw := by
    rcases hw.cases_head with rfl | ⟨x, hx, hxw⟩
    · exact hv
    · exact (hitems x hx).plain w hxw

theorem isProper_of_flat (hflat : ∀ a, v ≠ .list a) (hv : v.IsPlain) : h.IsProper v :=
  isProper_of_items hv fun _ ⟨a, ha, _⟩ => absurd ha (hflat a)

theorem contentAt_ranked (hv : v.IsRanked) : h.contentAt d v = .number v.rank := by
  rcases hv.cases with ⟨n, rfl⟩ | ⟨x, rfl, -⟩ <;> cases d <;> rfl

theorem contentAt_list (d a : Nat) :
    h.contentAt (d + 1) (.list a) = .list ((h.items a).toList.map (h.contentAt d)) := rfl

/-! ### Equality -/

/-- A question to all items of a list has an answer if each single one has. -/
theorem allM_answer {α ε : Type} {f : α → Except ε Bool} {P : α → Prop} : ∀ {xs : List α},
    (∀ x ∈ xs, ∃ r, f x = .ok r ∧ (r = true ↔ P x)) →
      ∃ r, xs.allM f = .ok r ∧ (r = true ↔ ∀ x ∈ xs, P x)
  | [], _ => ⟨true, rfl, by simp⟩
  | x :: xs, hf => by
    obtain ⟨⟨r, hr, hP⟩, hxs⟩ := List.forall_mem_cons.mp hf
    obtain ⟨r', hr', hPs⟩ := allM_answer hxs
    rw [List.allM, hr, List.forall_mem_cons, ← hP]
    cases r with
    | true => exact ⟨r', hr', by simp [hPs]⟩
    | false => exact ⟨false, rfl, by simp⟩

/-- Lists of one length have the same contents if they have them pair by pair. -/
theorem map_eq_iff_zip {α β : Type} (g : α → β) {xs ys : List α} (hlen : xs.length = ys.length) :
    xs.map g = ys.map g ↔ ∀ p ∈ xs.zip ys, g p.1 = g p.2 := by
  rw [← List.forall₂_eq_eq_eq, List.forall₂_map_left_iff, List.forall₂_map_right_iff,
    List.forall₂_iff_zip]
  exact ⟨fun h p hp => h.2 hp, fun h => ⟨hlen, fun hp => h _ hp⟩⟩

/-- A number equals nothing but numbers. -/
theorem equalAt_mixed (d : Nat) (hv : v.IsRanked) (hw : w.IsPlain) (hnot : ¬ w.IsRanked) :
    h.equalAt d v w = .ok false ∧ h.equalAt d w v = .ok false ∧
      h.contentAt d v ≠ h.contentAt d w := by
  rw [contentAt_ranked hv]
  rcases hw.cases with hw | rfl | ⟨b, rfl⟩ | ⟨s, rfl⟩ | ⟨s, rfl⟩ | ⟨a, rfl⟩
  · exact absurd hw hnot
  all_goals rcases hv.cases with ⟨n, rfl⟩ | ⟨x, rfl, -⟩ <;> cases d <;> simp [equalAt, contentAt]

/-- Equality of two values that are not both lists does not look into the heap. -/
theorem equalAt_flat (d : Nat) (hv : v.IsPlain) (hw : w.IsPlain)
    (hlists : ∀ a b, v = .list a → w ≠ .list b) :
    ∃ r, h.equalAt d v w = .ok r ∧ (r = true ↔ h.contentAt d v = h.contentAt d w) := by
  by_cases hrv : v.IsRanked <;> by_cases hrw : w.IsRanked
  · exact ⟨_, Value.equalAt_ranked d hrv hrw, by simp [contentAt_ranked hrv, contentAt_ranked hrw]⟩
  · obtain ⟨hequal, -, hcontent⟩ := equalAt_mixed (h := h) d hrv hw hrw
    exact ⟨false, hequal, by simp [hcontent]⟩
  · obtain ⟨-, hequal, hcontent⟩ := equalAt_mixed (h := h) d hrw hv hrv
    exact ⟨false, hequal, by simp [hcontent.symm]⟩
  · rcases hv.cases with hv | rfl | ⟨b, rfl⟩ | ⟨s, rfl⟩ | ⟨s, rfl⟩ | ⟨a, rfl⟩
    · exact absurd hv hrv
    all_goals rcases hw.cases with hw | rfl | ⟨b', rfl⟩ | ⟨s', rfl⟩ | ⟨s', rfl⟩ | ⟨a', rfl⟩
    all_goals first
      | exact absurd hw hrw
      | exact absurd rfl (hlists _ _ rfl)
      | cases d <;> simp [equalAt, contentAt, Json.same]

/-- **Two values are equal exactly if they have the same content.** By induction on the depth to
which lists are nested. -/
theorem equalAt_content : ∀ {d : Nat} {v w : Value}, h.NestsWithin d v → h.NestsWithin d w →
    h.IsPlain v → h.IsPlain w →
      ∃ r, h.equalAt d v w = .ok r ∧ (r = true ↔ h.contentAt d v = h.contentAt d w) := by
  intro d
  induction d with
  | zero =>
    intro v w hv hw pv pw
    exact equalAt_flat 0 pv.self pw.self fun a _ ha => absurd ha (hv a)
  | succ d ih =>
    intro v w hv hw pv pw
    by_cases hlists : ∀ a b, v = .list a → w ≠ .list b
    · exact equalAt_flat (d + 1) pv.self pw.self hlists
    · push Not at hlists
      obtain ⟨a, b, rfl, rfl⟩ := hlists
      rw [equalAt_list, contentAt_list, contentAt_list, Content.list.injEq]
      by_cases hlen : (h.items a).toList.length = (h.items b).toList.length
      · rw [if_neg (not_not.mpr hlen), map_eq_iff_zip _ hlen]
        refine allM_answer fun p hp => ?_
        obtain ⟨hx, hy⟩ := List.of_mem_zip hp
        have hx : h.HasItem (.list a) p.1 := ⟨a, rfl, by simpa using hx⟩
        have hy : h.HasItem (.list b) p.2 := ⟨b, rfl, by simpa using hy⟩
        exact ih (hv _ hx) (hw _ hy) (pv.item hx) (pw.item hy)
      · rw [if_pos hlen]
        refine ⟨false, rfl, iff_of_false Bool.false_ne_true fun hmap => hlen ?_⟩
        simpa using congrArg List.length hmap

/-- Values of one content are numbers at one place, lists, or the same. -/
theorem contentAt_eq_cases (hv : v.IsPlain) (hw : w.IsPlain)
    (hvw : h.contentAt d v = h.contentAt d w) :
    v.IsRanked ∧ w.IsRanked ∧ v.rank = w.rank ∨ (∃ a b, v = .list a ∧ w = .list b) ∨ v = w := by
  by_cases hlists : ∀ a b, v = .list a → w ≠ .list b
  · rcases hv.cases with hrv | rfl | ⟨b, rfl⟩ | ⟨s, rfl⟩ | ⟨s, rfl⟩ | ⟨a, rfl⟩
    · by_cases hrw : w.IsRanked
      · rw [contentAt_ranked hrv, contentAt_ranked hrw, Content.number.injEq] at hvw
        exact Or.inl ⟨hrv, hrw, hvw⟩
      · exact absurd hvw (equalAt_mixed d hrv hw hrw).2.2
    all_goals rcases hw.cases with hrw | rfl | ⟨b', rfl⟩ | ⟨s', rfl⟩ | ⟨s', rfl⟩ | ⟨a', rfl⟩
    all_goals first
      | exact absurd rfl (hlists _ _ rfl)
      | exact absurd hvw.symm (equalAt_mixed d hrw hv (by simp [Value.IsRanked])).2.2
      | cases d <;> simp_all [contentAt]
  · push Not at hlists
    exact Or.inr (Or.inl hlists)

/-! ### Values of one content -/

/-- Numbers at one place equal the same values. -/
theorem equalAt_rank_congr (d : Nat) (u : Value) (hv : v.IsRanked) (hw : w.IsRanked)
    (hvw : v.rank = w.rank) : h.equalAt d u v = h.equalAt d u w := by
  have hdecimal {v : Value} (hv : v.IsRanked) : ∃ y : Decimal, y.isNaN = false ∧ y.rank = v.rank ∧
      ∀ x, h.equalAt d (.decimal x) v = orSignal (Decimal.equal x y) := by
    rcases hv.cases with ⟨n, rfl⟩ | ⟨y, rfl, hy⟩
    · exact ⟨.ofInt n, rfl, Value.rank_ofInt n, fun x => by rw [equalAt]⟩
    · exact ⟨y, hy, rfl, fun x => by rw [equalAt]⟩
  by_cases hu : u.IsRanked
  · rw [Value.equalAt_ranked d hu hv, Value.equalAt_ranked d hu hw, hvw]
  · cases u with
    | decimal x =>
      obtain ⟨y, hy, hrank, hequal⟩ := hdecimal hv
      obtain ⟨y', hy', hrank', hequal'⟩ := hdecimal hw
      rw [hequal, hequal', Decimal.equal_congr x hy hy' (by rw [hrank, hrank', hvw])]
    | int n => exact absurd trivial hu
    | _ =>
      rcases hv.cases with ⟨n, rfl⟩ | ⟨y, rfl, -⟩ <;>
        rcases hw.cases with ⟨m, rfl⟩ | ⟨z, rfl, -⟩ <;> cases d <;> rfl

/-- Two lists with the same items, as far as a question to pairs sees, get the same answers. -/
theorem allM_zip_congr {α β ε : Type} {f : α × α → Except ε Bool} (g : α → β) :
    ∀ (us : List α) {xs ys : List α}, xs.map g = ys.map g →
      (∀ x ∈ xs, ∀ y ∈ ys, g x = g y → ∀ u, f (u, x) = f (u, y)) →
        (us.zip xs).allM f = (us.zip ys).allM f
  | [], _, _, _, _ => by rw [List.zip_nil_left, List.zip_nil_left]
  | _ :: _, [], [], _, _ => rfl
  | u :: us, x :: xs, y :: ys, hmap, hf => by
    rw [List.map_cons, List.map_cons, List.cons.injEq] at hmap
    have hrest := allM_zip_congr g us hmap.2 fun x hx y hy => hf x (by simp [hx]) y (by simp [hy])
    rw [List.zip_cons_cons, List.zip_cons_cons, List.allM, List.allM,
      hf x (by simp) y (by simp) hmap.1, hrest]

theorem equalAt_list_of_ne {u : Value} (hu : ∀ c, u ≠ .list c) (d a : Nat) :
    h.equalAt d u (.list a) = .ok false := by
  cases u with
  | list c => exact absurd rfl (hu c)
  | _ => cases d <;> rfl

/-- **Values of one content equal the same values.** -/
theorem equalAt_congr : ∀ {d : Nat} (u : Value) {v w : Value}, h.NestsWithin d v →
    h.NestsWithin d w → h.IsPlain v → h.IsPlain w → h.contentAt d v = h.contentAt d w →
      h.equalAt d u v = h.equalAt d u w := by
  intro d
  induction d with
  | zero =>
    intro u v w hv hw pv pw hvw
    rcases contentAt_eq_cases pv.self pw.self hvw with ⟨hrv, hrw, hrank⟩ | ⟨a, -, rfl, -⟩ | rfl
    · exact equalAt_rank_congr 0 u hrv hrw hrank
    · exact absurd rfl (hv a)
    · rfl
  | succ d ih =>
    intro u v w hv hw pv pw hvw
    rcases contentAt_eq_cases pv.self pw.self hvw with ⟨hrv, hrw, hrank⟩ | ⟨a, b, rfl, rfl⟩ | rfl
    · exact equalAt_rank_congr (d + 1) u hrv hrw hrank
    · by_cases hu : ∀ c, u ≠ .list c
      · rw [equalAt_list_of_ne hu, equalAt_list_of_ne hu]
      · push Not at hu
        obtain ⟨c, rfl⟩ := hu
        rw [contentAt_list, contentAt_list, Content.list.injEq] at hvw
        have hlen : (h.items a).toList.length = (h.items b).toList.length := by
          simpa using congrArg List.length hvw
        rw [equalAt_list, equalAt_list, hlen]
        refine congrArg _ (allM_zip_congr (h.contentAt d) _ hvw fun x hx y hy hxy u => ?_)
        have hx : h.HasItem (.list a) x := ⟨a, rfl, by simpa using hx⟩
        have hy : h.HasItem (.list b) y := ⟨b, rfl, by simpa using hy⟩
        exact ih u (hv _ hx) (hw _ hy) (pv.item hx) (pw.item hy) hxy
    · rfl

/-! ### Proper values -/

/-- The content of a value. -/
def content (h : Heap) (v : Value) : Content :=
  h.contentAt h.depth v

/-- Equality of proper values has an answer: whether they have the same content. -/
theorem equal_content (hv : h.IsProper v) (hw : h.IsProper w) :
    ∃ r, h.equal v w = .ok r ∧ (r = true ↔ h.content v = h.content w) :=
  equalAt_content hv.founded.nestsWithin hw.founded.nestsWithin hv.plain hw.plain

theorem equal_iff (hv : h.IsProper v) (hw : h.IsProper w) :
    Value.Equal h v w ↔ h.content v = h.content w := by
  obtain ⟨r, hr, hrc⟩ := equal_content hv hw
  rw [Value.Equal, hr, Except.ok.injEq, hrc]

/-- Equal values equal the same values. -/
theorem equal_congr (u : Value) (hv : h.IsProper v) (hw : h.IsProper w)
    (hvw : Value.Equal h v w) : h.equal u v = h.equal u w :=
  equalAt_congr u hv.founded.nestsWithin hw.founded.nestsWithin hv.plain hw.plain
    ((equal_iff hv hw).mp hvw)

/-! ### Other heaps -/

/-- Whether the lists that a value contains have the same items in another heap. -/
def Retains (h h' : Heap) (v : Value) : Prop :=
  ∀ a, h.Contains v (.list a) → h'.items a = h.items a

/-- A value that is no list contains none. -/
theorem retains_of_flat (h h' : Heap) (hflat : ∀ a, v ≠ .list a) : h.Retains h' v := by
  intro a ha
  rcases ha.cases_head with rfl | ⟨x, ⟨b, hb, -⟩, -⟩
  · exact absurd rfl (hflat a)
  · exact absurd hb (hflat b)

theorem Retains.of_contains (hv : h.Retains h' v) (hw : h.Contains v w) : h.Retains h' w :=
  fun a ha => hv a (hw.trans ha)

theorem Retains.hasItem_iff (hv : h.Retains h' v) : h'.HasItem v x ↔ h.HasItem v x := by
  constructor
  · rintro ⟨a, rfl, hx⟩
    exact ⟨a, rfl, hv a .refl ▸ hx⟩
  · rintro ⟨a, rfl, hx⟩
    exact ⟨a, rfl, (hv a .refl).symm ▸ hx⟩

theorem Retains.contains (hv : h.Retains h' v) (hw : h'.Contains v w) : h.Contains v w := by
  induction hw with
  | refl => exact .refl
  | tail _ hx ih => exact ih.tail ((hv.of_contains ih).hasItem_iff.mp hx)

theorem Retains.transGen (hv : h.Retains h' v) (hw : Relation.TransGen h'.HasItem v w) :
    Relation.TransGen h.HasItem v w := by
  induction hw with
  | single hx => exact .single (hv.hasItem_iff.mp hx)
  | tail _ hx ih => exact ih.tail ((hv.of_contains ih.to_reflTransGen).hasItem_iff.mp hx)

theorem Retains.isProper (hv : h.Retains h' v) (hp : h.IsProper v) : h'.IsProper v where
  founded w hw hcycle :=
    hp.founded w (hv.contains hw) ((hv.of_contains (hv.contains hw)).transGen hcycle)
  plain w hw := hp.plain w (hv.contains hw)

theorem Retains.contentAt : ∀ {d : Nat} {v : Value}, h.Retains h' v →
    h'.contentAt d v = h.contentAt d v := by
  intro d
  induction d with
  | zero =>
    intro v _
    cases v with
    | char j => cases j <;> rfl
    | _ => rfl
  | succ d ih =>
    intro v hv
    cases v with
    | list a =>
      rw [contentAt_list, contentAt_list, hv a .refl]
      refine congrArg Content.list (List.map_congr_left fun x hx => ih (hv.of_contains ?_))
      exact .single ⟨a, rfl, by simpa using hx⟩
    | char j => cases j <;> rfl
    | _ => rfl

theorem isWalk_contentAt (h : Heap) : h.IsWalk h.contentAt where
  flat {v d d'} hv := by
    cases v with
    | list a => exact absurd rfl (hv a)
    | char j => cases j <;> cases d <;> cases d' <;> rfl
    | _ => cases d <;> cases d' <;> rfl
  list hitems := by
    rw [contentAt_list, contentAt_list]
    exact congrArg Content.list (List.map_congr_left fun x hx => hitems x (by simpa using hx))

/-- A value keeps its content as long as the lists in it keep their items. -/
theorem Retains.content (hv : h.Retains h' v) (hp : h.IsProper v) :
    h'.content v = h.content v := by
  have hdepth : h.contentAt h'.depth v = h.contentAt h.depth v := by
    rcases Nat.le_total h.depth h'.depth with hle | hle
    · exact hp.founded.walk_deep h.isWalk_contentAt hle
    · have hdeep := (hv.isProper hp).founded.walk_deep h'.isWalk_contentAt hle
      rw [hv.contentAt, hv.contentAt] at hdeep
      exact hdeep.symm
  rw [Heap.content, hv.contentAt, hdepth, Heap.content]

/-- Equal values stay equal as long as the lists in them keep their items. -/
theorem Retains.equal (hv : h.Retains h' v) (hw : h.Retains h' w) (pv : h.IsProper v)
    (pw : h.IsProper w) (hvw : Value.Equal h v w) : Value.Equal h' v w := by
  rw [equal_iff (hv.isProper pv) (hw.isProper pw), hv.content pv, hw.content pw]
  exact (equal_iff pv pw).mp hvw

end Heap

/-! ### Order -/

theorem CodePoint.code_injective : Function.Injective CodePoint.code
  | .char c, .char d, h => congrArg CodePoint.char (Char.toNat_inj.mp h)
  | .half ⟨n, _, _⟩, .half ⟨m, _, _⟩, h => by
    obtain rfl : n = m := h
    rfl
  | .char c, .half ⟨n, hleast, hgreatest⟩, h => by
    have hc : c.toNat = n := h
    rcases c.valid with hlt | ⟨hlt, -⟩ <;> simp only [Char.toNat] at hc hlt <;> omega
  | .half ⟨n, hleast, hgreatest⟩, .char c, h => by
    have hc : n = c.toNat := h
    rcases c.valid with hlt | ⟨hlt, -⟩ <;> simp only [Char.toNat] at hc hlt <;> omega

namespace Text

variable {s t u : Text}

theorem codes_injective : Function.Injective fun t : Text => t.points.map CodePoint.code := by
  intro s t hst
  have hpoints : s.points = t.points := List.map_injective_iff.mpr CodePoint.code_injective hst
  rw [← ofPoints_points s, hpoints, ofPoints_points]

theorem lt_iff : s < t ↔ s.points.map CodePoint.code < t.points.map CodePoint.code := .rfl

protected theorem lt_trans (hst : s < t) (htu : t < u) : s < u :=
  lt_iff.mpr ((lt_iff.mp hst).trans (lt_iff.mp htu))

protected theorem lt_irrefl (t : Text) : ¬ t < t :=
  fun h => lt_irrefl _ (lt_iff.mp h)

protected theorem lt_trichotomy (s t : Text) : s < t ∨ s = t ∨ t < s := by
  rw [lt_iff, lt_iff, ← codes_injective.eq_iff]
  exact lt_trichotomy _ _

end Text

/-- The order of contents: numbers go by their places, characters and strings by their texts. -/
inductive Content.Less : Content → Content → Prop
  | number {p q : WithBot (WithTop ℚ)} : p < q → Less (.number p) (.number q)
  | character {s t : Text} : s < t → Less (.character s) (.character t)
  | string {s t : Text} : s < t → Less (.string s) (.string t)

namespace Content

variable {c d e : Content}

theorem Less.trans (hcd : c.Less d) (hde : d.Less e) : c.Less e := by
  cases hcd with
  | number hpq =>
    cases hde with
    | number hqr => exact .number (hpq.trans hqr)
  | character hst =>
    cases hde with
    | character htu => exact .character (Text.lt_trans hst htu)
  | string hst =>
    cases hde with
    | string htu => exact .string (Text.lt_trans hst htu)

theorem Less.irrefl (c : Content) : ¬ c.Less c := by
  intro hc
  cases hc with
  | number hp => exact lt_irrefl _ hp
  | character hs => exact Text.lt_irrefl _ hs
  | string hs => exact Text.lt_irrefl _ hs

theorem Less.asymm (hcd : c.Less d) : ¬ d.Less c :=
  fun hdc => irrefl c (hcd.trans hdc)

/-- How two contents stand to each other. -/
def Stands (c d : Content) : Ordering → Prop
  | .lt => c.Less d
  | .eq => c = d
  | .gt => d.Less c

theorem Stands.swap {r : Ordering} (h : c.Stands d r) : d.Stands c r.swap := by
  cases r with
  | eq => exact Eq.symm h
  | lt | gt => exact h

/-- Two contents stand to each other in one way at most. -/
theorem Stands.less_iff {r : Ordering} (h : c.Stands d r) : r.isLT = true ↔ c.Less d := by
  cases r with
  | lt => exact iff_of_true rfl h
  | eq => exact iff_of_false Bool.false_ne_true (h ▸ Less.irrefl c)
  | gt => exact iff_of_false Bool.false_ne_true (Less.asymm h)

theorem Stands.eq_iff {r : Ordering} (h : c.Stands d r) : r.isEq = true ↔ c = d := by
  cases r with
  | lt => exact iff_of_false Bool.false_ne_true fun hcd => Less.irrefl d (hcd ▸ h)
  | eq => exact iff_of_true rfl h
  | gt => exact iff_of_false Bool.false_ne_true fun hcd => Less.irrefl d (hcd ▸ h)

end Content

namespace Value

variable {h : Heap} {u v v' w w' : Value}

/-- Whether two values are of one ordered kind: numbers, characters or strings. -/
def MayCompare (v w : Value) : Prop :=
  v.isNumber = true ∧ w.isNumber = true ∨ v.IsCharacter ∧ w.IsCharacter ∨ v.IsString ∧ w.IsString

theorem MayCompare.symm (hvw : v.MayCompare w) : w.MayCompare v :=
  hvw.imp And.symm (Or.imp And.symm And.symm)

/-- A plain number has a place. -/
theorem IsPlain.isRanked (hv : v.IsPlain) (hnumber : v.isNumber = true) : v.IsRanked := by
  cases v with
  | int n => trivial
  | decimal x => exact hv
  | _ => cases hnumber

theorem IsRanked.isNumber (hv : v.IsRanked) : v.isNumber = true := by
  rcases hv.cases with ⟨n, rfl⟩ | ⟨x, rfl, -⟩ <;> rfl

/-- Plain values of one ordered kind. -/
theorem MayCompare.cases (hv : v.IsPlain) (hw : w.IsPlain) (hvw : v.MayCompare w) :
    v.IsRanked ∧ w.IsRanked ∨ (∃ s t, v = .char (.str s) ∧ w = .char (.str t)) ∨
      ∃ s t, v = .string s ∧ w = .string t := by
  rcases hvw with ⟨hnv, hnw⟩ | ⟨⟨s, rfl⟩, t, rfl⟩ | ⟨⟨s, rfl⟩, t, rfl⟩
  · exact Or.inl ⟨hv.isRanked hnv, hw.isRanked hnw⟩
  · exact Or.inr (Or.inl ⟨s, t, rfl, rfl⟩)
  · exact Or.inr (Or.inr ⟨s, t, rfl, rfl⟩)

theorem MayCompare.trans (huv : u.MayCompare v) (hvw : v.MayCompare w) : u.MayCompare w := by
  rcases huv with ⟨hu, hv⟩ | ⟨hu, s, rfl⟩ | ⟨hu, s, rfl⟩
  · rcases hvw with ⟨-, hw⟩ | ⟨⟨t, rfl⟩, -⟩ | ⟨⟨t, rfl⟩, -⟩
    · exact Or.inl ⟨hu, hw⟩
    · cases hv
    · cases hv
  · rcases hvw with ⟨hv, -⟩ | ⟨-, hw⟩ | ⟨⟨t, ht⟩, -⟩
    · cases hv
    · exact Or.inr (Or.inl ⟨hu, hw⟩)
    · cases ht
  · rcases hvw with ⟨hv, -⟩ | ⟨⟨t, ht⟩, -⟩ | ⟨-, hw⟩
    · cases hv
    · cases ht
    · exact Or.inr (Or.inr ⟨hu, hw⟩)

theorem isNumber_of_number? {x : Decimal} (hx : v.number? = some x) : v.isNumber = true := by
  rw [isNumber, hx]
  rfl

/-- A plain character has a text. -/
theorem IsPlain.isCharacter {j : Json} (hj : (char j).IsPlain) : (char j).IsCharacter := by
  cases j with
  | str s => exact ⟨s, rfl⟩
  | _ => exact hj.elim

/-- An answer about the order of plain values is given for one ordered kind only. -/
theorem mayCompare_of_compare {q : Json.Comparison} {r : Bool} (hv : v.IsPlain) (hw : w.IsPlain)
    (hr : compare q v w = .ok r) : v.MayCompare w := by
  unfold compare at hr
  split at hr
  · exact Or.inl ⟨rfl, rfl⟩
  · exact Or.inr (Or.inl ⟨hv.isCharacter, hw.isCharacter⟩)
  · next s t => exact Or.inr (Or.inr ⟨⟨s, rfl⟩, t, rfl⟩)
  · split at hr
    · next x y hx hy => exact Or.inl ⟨isNumber_of_number? hx, isNumber_of_number? hy⟩
    · cases hr

/-- What comes after another value is what the other one comes before. -/
theorem compare_greater (hv : v.IsPlain) (hw : w.IsPlain) (hvw : v.MayCompare w) :
    compare .greater v w = compare .less w v := by
  rcases hvw.cases hv hw with ⟨hv, hw⟩ | ⟨s, t, rfl, rfl⟩ | ⟨s, t, rfl, rfl⟩
  · rw [compare_ranked _ hv hw, compare_ranked _ hw hv]
    rfl
  · rfl
  · rfl

/-- The order of values is that of their contents. -/
theorem compare_content (hv : v.IsPlain) (hw : w.IsPlain) (hvw : v.MayCompare w) :
    ∃ r, compare .less v w = .ok r ∧ (r = true ↔ (h.content v).Less (h.content w)) := by
  rcases hvw.cases hv hw with ⟨hv, hw⟩ | ⟨s, t, rfl, rfl⟩ | ⟨s, t, rfl, rfl⟩
  · refine ⟨_, compare_ranked _ hv hw, ?_⟩
    rw [Heap.content, Heap.content, Heap.contentAt_ranked hv, Heap.contentAt_ranked hw]
    simp only [Json.Comparison.ask, decide_eq_true_eq]
    exact ⟨.number, fun hless => by cases hless; assumption⟩
  · refine ⟨decide (s < t), rfl, ?_⟩
    rw [decide_eq_true_eq]
    exact ⟨fun hst => .character hst, fun hless => by cases hless; assumption⟩
  · refine ⟨decide (s < t), rfl, ?_⟩
    rw [decide_eq_true_eq]
    exact ⟨fun hst => .string hst, fun hless => by cases hless; assumption⟩

/-- Contents of values of one ordered kind stand to each other in some way. -/
theorem exists_stands (hv : v.IsPlain) (hw : w.IsPlain) (hvw : v.MayCompare w) :
    ∃ r, (h.content v).Stands (h.content w) r := by
  rcases hvw.cases hv hw with ⟨hv, hw⟩ | ⟨s, t, rfl, rfl⟩ | ⟨s, t, rfl, rfl⟩
  · rw [Heap.content, Heap.content, Heap.contentAt_ranked hv, Heap.contentAt_ranked hw]
    rcases lt_trichotomy v.rank w.rank with hlt | heq | hgt
    · exact ⟨.lt, .number hlt⟩
    · exact ⟨.eq, congrArg _ heq⟩
    · exact ⟨.gt, .number hgt⟩
  · rcases Text.lt_trichotomy s t with hlt | rfl | hgt
    · exact ⟨.lt, .character hlt⟩
    · exact ⟨.eq, rfl⟩
    · exact ⟨.gt, .character hgt⟩
  · rcases Text.lt_trichotomy s t with hlt | rfl | hgt
    · exact ⟨.lt, .string hlt⟩
    · exact ⟨.eq, rfl⟩
    · exact ⟨.gt, .string hgt⟩

/-- Whether the operators that compare values answer as an order says. -/
structure Answers (h : Heap) (v w : Value) (r : Ordering) : Prop where
  less : binary h "<" v w = .ok (.bool r.isLT)
  equal : binary h "==" v w = .ok (.bool r.isEq)
  unequal : binary h "!=" v w = .ok (.bool (!r.isEq))
  greater : binary h ">" v w = .ok (.bool r.isGT)

theorem answers_of_stands {r : Ordering} (hv : h.IsProper v) (hw : h.IsProper w)
    (hvw : v.MayCompare w) (hr : (h.content v).Stands (h.content w) r) : Answers h v w r := by
  obtain ⟨less, hless, hlt⟩ := compare_content (h := h) hv.plain.self hw.plain.self hvw
  obtain ⟨greater, hgreater, hgt⟩ := compare_content (h := h) hw.plain.self hv.plain.self hvw.symm
  obtain ⟨equal, hequal, heq⟩ := Heap.equal_content hv hw
  rw [← compare_greater hv.plain.self hw.plain.self hvw] at hgreater
  rw [← hr.less_iff, ← Bool.eq_iff_iff] at hlt
  rw [← hr.swap.less_iff, Ordering.isLT_swap, ← Bool.eq_iff_iff] at hgt
  rw [← hr.eq_iff, ← Bool.eq_iff_iff] at heq
  subst hlt hgt heq
  constructor
  · exact congrArg (Except.map Value.bool) hless
  · exact congrArg (Except.map Value.bool) hequal
  · exact congrArg (Except.map fun o => Value.bool (!o)) hequal
  · exact congrArg (Except.map Value.bool) hgreater

/-- **A value comes before another one exactly if its content does.** -/
theorem less_iff (hv : h.IsProper v) (hw : h.IsProper w) : binary h "<" v w = .ok (.bool true) ↔
    v.MayCompare w ∧ (h.content v).Less (h.content w) := by
  have hbinary : binary h "<" v w = (compare .less v w).map .bool := rfl
  rw [hbinary]
  constructor
  · intro hless
    cases hr : compare .less v w with
    | error f =>
      rw [hr] at hless
      cases hless
    | ok r =>
      rw [hr] at hless
      cases hless
      have hvw := mayCompare_of_compare hv.plain.self hw.plain.self hr
      obtain ⟨r, hr', hiff⟩ := compare_content (h := h) hv.plain.self hw.plain.self hvw
      rw [hr'] at hr
      cases hr
      exact ⟨hvw, hiff.mp rfl⟩
  · rintro ⟨hvw, hless⟩
    obtain ⟨r, hr, hiff⟩ := compare_content (h := h) hv.plain.self hw.plain.self hvw
    rw [hr, hiff.mpr hless]
    rfl

/-- A value that equals one of an ordered kind is of that kind. -/
theorem mayCompare_of_equal (hv : h.IsProper v) (hv' : h.IsProper v') (heq : Equal h v v')
    (hvw : v.MayCompare w) : v.MayCompare v' := by
  have hcontent := (Heap.equal_iff hv hv').mp heq
  rcases Heap.contentAt_eq_cases hv.plain.self hv'.plain.self hcontent with
    ⟨hrv, hrv', -⟩ | ⟨a, b, rfl, rfl⟩ | rfl
  · exact Or.inl ⟨hrv.isNumber, hrv'.isNumber⟩
  · rcases hvw with ⟨hnumber, -⟩ | ⟨⟨s, hs⟩, -⟩ | ⟨⟨s, hs⟩, -⟩
    · cases hnumber
    · cases hs
    · cases hs
  · exact hvw.trans hvw.symm

end Value

/-- Whether equality is an equivalence on all proper values of a heap and the order goes with it. -/
structure Heap.IsCoherent (h : Heap) : Prop where
  /-- Equality always has an answer. -/
  decided {v w : Value} : h.IsProper v → h.IsProper w → ∃ r, h.equal v w = .ok r
  equivalence : Equivalence fun v w : {v // h.IsProper v} => Value.Equal h v w
  /-- One of the three answers is positive, and the opposite order has the opposite answer. -/
  ordered {v w : Value} : h.IsProper v → h.IsProper w → v.MayCompare w →
    ∃ r : Ordering, Value.Answers h v w r ∧ Value.Answers h w v r.swap
  trans {u v w : Value} : h.IsProper u → h.IsProper v → h.IsProper w →
    Value.binary h "<" u v = .ok (.bool true) → Value.binary h "<" v w = .ok (.bool true) →
      Value.binary h "<" u w = .ok (.bool true)
  /-- Operands may be replaced by equal ones. -/
  replace {v v' w w' : Value} : h.IsProper v → h.IsProper v' → h.IsProper w → h.IsProper w' →
    Value.Equal h v v' → Value.Equal h w w' → v.MayCompare w → v'.MayCompare w' ∧
      ∀ op ∈ ["<", ">", "==", "!="], Value.binary h op v w = Value.binary h op v' w'

/-- **Equality and order are coherent in all heaps.** -/
theorem Heap.coherent (h : Heap) : h.IsCoherent where
  decided hv hw := by
    obtain ⟨r, hr, -⟩ := equal_content hv hw
    exact ⟨r, hr⟩
  equivalence := by
    constructor
    · exact fun v => (equal_iff v.2 v.2).mpr rfl
    · exact fun {v w} hvw => (equal_iff w.2 v.2).mpr ((equal_iff v.2 w.2).mp hvw).symm
    · exact fun {u v w} huv hvw =>
        (equal_iff u.2 w.2).mpr (((equal_iff u.2 v.2).mp huv).trans ((equal_iff v.2 w.2).mp hvw))
  ordered hv hw hvw := by
    obtain ⟨r, hr⟩ := Value.exists_stands (h := h) hv.plain.self hw.plain.self hvw
    exact ⟨r, Value.answers_of_stands hv hw hvw hr, Value.answers_of_stands hw hv hvw.symm hr.swap⟩
  trans hu hv hw huv hvw := by
    obtain ⟨huv, hless⟩ := (Value.less_iff hu hv).mp huv
    obtain ⟨hvw, hless'⟩ := (Value.less_iff hv hw).mp hvw
    exact (Value.less_iff hu hw).mpr ⟨huv.trans hvw, hless.trans hless'⟩
  replace hv hv' hw hw' hvv hww hvw := by
    have hkind := Value.mayCompare_of_equal hv hv' hvv hvw
    have hkind' := Value.mayCompare_of_equal hw hw' hww hvw.symm
    have hvw' := (hkind.symm.trans hvw).trans hkind'
    obtain ⟨r, hr⟩ := Value.exists_stands (h := h) hv.plain.self hw.plain.self hvw
    have hr' := hr
    rw [(equal_iff hv hv').mp hvv, (equal_iff hw hw').mp hww] at hr'
    have hold := Value.answers_of_stands hv hw hvw hr
    have hnew := Value.answers_of_stands hv' hw' hvw' hr'
    refine ⟨hvw', ?_⟩
    simp only [List.forall_mem_cons]
    exact ⟨hold.less.trans hnew.less.symm, hold.greater.trans hnew.greater.symm,
      hold.equal.trans hnew.equal.symm, hold.unequal.trans hnew.unequal.symm,
      List.forall_mem_nil _⟩

end Scriptlet
