import Scriptlet.Proofs.Json.Atoms

/-! # Printed data is read

A value that is printed with one item a line is read from its text again, unless it holds a
floating-point number, an integer with too many digits or an object with a key given twice. The
proof follows the printer: each part of a text is read up to where the printer went on.

* `read_indented`: a plain value is read from its text.
* `not_mem_indented`: the text has no carriage returns. -/

namespace Scriptlet.Json

mutual

/-- Whether a value can be read from what is printed for it. -/
def IsPlain : Json → Prop
  | .null => True
  | .bool _ => True
  | .int n => n.natAbs < tenTo Text.maxDigits
  | .float _ => False
  | .str (.plain _) => True
  | .str (.broken ..) => False
  | .arr xs => ArePlain xs
  | .obj fs => (fs.map (·.1)).Nodup ∧ FieldsArePlain fs
termination_by structural j => j

/-- Whether all items can be read from what is printed for them. -/
def ArePlain : List Json → Prop
  | [] => True
  | x :: xs => x.IsPlain ∧ ArePlain xs
termination_by structural xs => xs

/-- Whether the values of all fields can be read from what is printed for them. -/
def FieldsArePlain : List (Text × Json) → Prop
  | [] => True
  | (.plain _, v) :: fs => v.IsPlain ∧ FieldsArePlain fs
  | (.broken .., _) :: _ => False
termination_by structural fs => fs

end

/-! ### Layout -/

theorem skip_layout {ws : List Char} (hws : ∀ w ∈ ws, isLayout w = true) {c : Char}
    (hc : isLayout c = false) (t : List Char) (offset : Nat) :
    Rest.skip ⟨ws ++ c :: t, offset⟩ = ⟨c :: t, offset + ws.length⟩ := by
  have htake : (ws ++ c :: t).takeWhile isLayout = ws := by
    rw [List.takeWhile_append_of_pos hws]
    simp [hc]
  rw [Rest.skip, htake, Rest.drop, List.drop_left]

theorem isLayout_of_mem_lineBreak {level : Nat} {w : Char} (hw : w ∈ (lineBreak level).toList) :
    isLayout w = true := by
  rw [lineBreak, String.toList_ofList, List.mem_cons, List.mem_replicate] at hw
  rcases hw with rfl | ⟨-, rfl⟩
  · rfl
  · rfl

theorem toList_lineBreak (level : Nat) :
    (lineBreak level).toList = '\n' :: List.replicate (2 * level) ' ' := by
  rw [lineBreak, String.toList_ofList]

/-- Items with what closes them, after the line break in front of the first. -/
def itemsText (level : Nat) (closing : Char) : List String → List Char
  | [] => [closing]
  | [x] => x.toList ++ ((lineBreak level).toList ++ [closing])
  | x :: y :: items =>
    x.toList ++ (',' :: (lineBreak (level + 1)).toList ++ itemsText level closing (y :: items))

theorem toList_enclose {opening closing : String} {c : Char} (hclosing : closing.toList = [c])
    (level : Nat) {items : List String} (hitems : items ≠ []) :
    (enclose opening closing level items).toList =
      opening.toList ++ ((lineBreak (level + 1)).toList ++ itemsText level c items) := by
  have hjoin : ∀ {items : List String}, items ≠ [] →
      (String.intercalate ("," ++ lineBreak (level + 1)) items ++ lineBreak level ++
        closing).toList = itemsText level c items := by
    intro items
    induction items with
    | nil => exact fun h => absurd rfl h
    | cons x items ih =>
      intro _
      cases items with
      | nil => simp [itemsText, hclosing]
      | cons y items =>
        have ih := ih (by simp)
        rw [String.intercalate_cons_cons, itemsText, ← ih]
        simp
  rw [enclose, if_neg (by simpa using hitems), ← hjoin hitems]
  simp

/-! ### Values -/

theorem isLayout_of_digit {c : Char} (hc : Text.isAsciiDigit c = true) : isLayout c = false := by
  rw [Bool.eq_false_iff]
  intro h
  simp only [isLayout, Bool.or_eq_true, decide_eq_true_eq] at h
  obtain ((rfl | rfl) | rfl) | rfl := h
  · cases hc
  · cases hc
  · cases hc
  · cases hc

theorem toList_enclose_eq (opening closing : String) (level : Nat) (items : List String) :
    ∃ t, (enclose opening closing level items).toList = opening.toList ++ t := by
  rw [enclose]
  split_ifs
  · exact ⟨_, String.toList_append⟩
  · simp

/-- What is printed for a value does not start like layout, like a byte order mark, or like the end
of a sequence. -/
theorem exists_cons_indented {j : Json} (hj : j.IsPlain) (level : Nat) :
    ∃ c t, (j.indented level).toList = c :: t ∧ isLayout c = false ∧ c ≠ ']' ∧
      c ≠ Char.ofNat 0xFEFF := by
  have hall : ['n', 't', 'f', '"', '[', '\x7b', '-'].all
      (fun c => !isLayout c && c != ']' && c != Char.ofNat 0xFEFF) = true := by decide
  have hfixed : ∀ c ∈ ['n', 't', 'f', '"', '[', '\x7b', '-'],
      isLayout c = false ∧ c ≠ ']' ∧ c ≠ Char.ofNat 0xFEFF := fun c hc => by
    simpa [and_assoc] using List.all_eq_true.mp hall c hc
  cases j with
  | null => exact ⟨'n', ['u', 'l', 'l'], by simp [indented], hfixed _ (by decide)⟩
  | bool b =>
    cases b with
    | true => exact ⟨'t', ['r', 'u', 'e'], by simp [indented], hfixed _ (by decide)⟩
    | false => exact ⟨'f', ['a', 'l', 's', 'e'], by simp [indented], hfixed _ (by decide)⟩
  | int n =>
    obtain ⟨c, t, hc, ht | ht⟩ := exists_digit_toString n
    · refine ⟨c, t, ht, isLayout_of_digit hc, ?_, ?_⟩
      · rintro rfl
        cases hc
      · rintro rfl
        cases hc
    · exact ⟨'-', _, ht, hfixed _ (by decide)⟩
  | float x => exact hj.elim
  | str s => exact ⟨'"', _, toList_writeText s, hfixed _ (by decide)⟩
  | arr xs =>
    obtain ⟨t, ht⟩ := toList_enclose_eq "[" "]" level (indentedItems (level + 1) xs)
    exact ⟨'[', t, ht, hfixed _ (by decide)⟩
  | obj fs =>
    obtain ⟨t, ht⟩ := toList_enclose_eq "\x7b" "\x7d" level (indentedFields (level + 1) fs)
    exact ⟨'\x7b', t, ht, hfixed _ (by decide)⟩

section

variable {limit : Option Nat} {fuel level offset : Nat} {c : Char} {t : List Char}

theorem readValue_atom (htext : c ≠ '"') (harr : c ≠ '[') (hobj : c ≠ '\x7b') :
    readValue limit (fuel + 1) ⟨c :: t, offset⟩ = readAtom limit ⟨c :: t, offset⟩ := by
  rw [readValue]
  simp [htext, harr, hobj]

/-- The line break before the first part is skipped. -/
theorem skip_lineBreak (hc : isLayout c = false) (level : Nat) (t : List Char) (offset : Nat) :
    Rest.skip ⟨(lineBreak level).toList ++ c :: t, offset⟩ =
      ⟨c :: t, offset + (lineBreak level).toList.length⟩ :=
  skip_layout (fun _ hw => isLayout_of_mem_lineBreak hw) hc t offset

theorem skip_cons (hc : isLayout c = false) (t : List Char) (offset : Nat) :
    Rest.skip ⟨c :: t, offset⟩ = ⟨c :: t, offset⟩ :=
  skip_layout (List.forall_mem_nil _) hc t offset

theorem readValue_items (hlayout : isLayout c = false) (hc : c ≠ ']') :
    readValue limit (fuel + 1) ⟨'[' :: ((lineBreak level).toList ++ c :: t), offset⟩ =
      (readItems limit fuel ⟨c :: t, offset + 1 + (lineBreak level).toList.length⟩).map
        fun x => (.arr x.1, x.2) := by
  have hskip := skip_lineBreak hlayout level t (offset + 1)
  simp only [readValue, Rest.drop, List.drop_succ_cons, List.drop_zero, hskip]
  cases readItems limit fuel ⟨c :: t, offset + 1 + (lineBreak level).toList.length⟩ with
  | error e => simp [hc]; rfl
  | ok x => simp [hc]; rfl

theorem readValue_fields :
    readValue limit (fuel + 1) ⟨'\x7b' :: ((lineBreak level).toList ++ '"' :: t), offset⟩ =
      (readFields limit fuel ⟨'"' :: t, offset + 1 + (lineBreak level).toList.length⟩).map
        fun x => (ofFields x.1, x.2) := by
  have hskip := skip_lineBreak (show isLayout '"' = false from rfl) level t (offset + 1)
  simp only [readValue, Rest.drop, List.drop_succ_cons, List.drop_zero, hskip]
  cases readFields limit fuel ⟨'"' :: t, offset + 1 + (lineBreak level).toList.length⟩ with
  | error e => rfl
  | ok x => rfl

end

/-! ### Parts -/

section

variable {limit : Option Nat} {fuel level offset : Nat} {x : Json} {r : Rest} {c : Char}
  {rest last : List Char}

/-- After the last item the sequence is closed. -/
theorem readItems_last (hx : readValue limit fuel r =
    .ok (x, ⟨(lineBreak level).toList ++ ']' :: rest, offset⟩)) :
    ∃ o, readItems limit (fuel + 1) r = .ok ([x], ⟨rest, o⟩) := by
  have hskip := skip_lineBreak (show isLayout ']' = false from rfl) level rest offset
  refine ⟨offset + (lineBreak level).toList.length + 1, ?_⟩
  simp only [readItems, hx, bind, Except.bind, hskip]
  rfl

/-- After a comma and a line break the next item is read. -/
theorem readItems_more {xs : List Json} (hx : readValue limit fuel r =
      .ok (x, ⟨',' :: ((lineBreak level).toList ++ c :: rest), offset⟩))
    (hc : isLayout c = false)
    (hxs : ∀ o, ∃ o', readItems limit fuel ⟨c :: rest, o⟩ = .ok (xs, ⟨last, o'⟩)) :
    ∃ o, readItems limit (fuel + 1) r = .ok (x :: xs, ⟨last, o⟩) := by
  obtain ⟨o, ho⟩ := hxs (offset + 1 + (lineBreak level).toList.length)
  have hcomma := skip_cons (show isLayout ',' = false from rfl)
    ((lineBreak level).toList ++ c :: rest) offset
  have hskip := skip_lineBreak hc level rest (offset + 1)
  refine ⟨o, ?_⟩
  simp only [readItems, hx, bind, Except.bind, hcomma, Rest.drop, List.drop_succ_cons,
    List.drop_zero, hskip, ho]
  rfl

/-- A field is read up to its value. -/
theorem readFields_name (limit : Option Nat) (fuel : Nat) (k : String) (offset : Nat)
    (hc : isLayout c = false) (rest : List Char) :
    ∃ o, readFields limit (fuel + 1) ⟨(writeText k).toList ++ ':' :: ' ' :: c :: rest, offset⟩ =
      (do
        let (v, r) ← readValue limit fuel ⟨c :: rest, o⟩
        let r := r.skip
        match r.chars with
        | '\x7d' :: _ => return ([(k, v)], r.drop 1)
        | ',' :: _ =>
          let (fs, r) ← readFields limit fuel (r.drop 1).skip
          return ((k, v) :: fs, r)
        | _ => r.fail .expectingComma) := by
  obtain ⟨o, ho⟩ := readText_textBody offset k (offset + 1) (':' :: ' ' :: c :: rest)
  have hcolon := skip_cons (show isLayout ':' = false from rfl) (' ' :: c :: rest) o
  have hblank := skip_layout (List.forall_mem_singleton.mpr (show isLayout ' ' = true from rfl)) hc
    rest (o + 1)
  refine ⟨o + 1 + 1, ?_⟩
  rw [List.singleton_append] at hblank
  rw [toList_writeText, List.cons_append]
  simp only [readFields, ho, bind, Except.bind, hcolon, Rest.drop, List.drop_succ_cons,
    List.drop_zero, hblank]
  rfl

variable {t : List Char} {v : Json}

/-- After the value of the last field the object is closed. -/
theorem readFields_last (offset : Nat) (k : String) (hc : isLayout c = false)
    (hv : ∀ o, ∃ o', readValue limit fuel ⟨c :: t, o⟩ =
      .ok (v, ⟨(lineBreak level).toList ++ '\x7d' :: rest, o'⟩)) :
    ∃ o, readFields limit (fuel + 1) ⟨(writeText k).toList ++ ':' :: ' ' :: c :: t, offset⟩ =
      .ok ([(k, v)], ⟨rest, o⟩) := by
  obtain ⟨o, hname⟩ := readFields_name limit fuel k offset hc t
  obtain ⟨o', ho'⟩ := hv o
  have hskip := skip_lineBreak (show isLayout '\x7d' = false from rfl) level rest o'
  refine ⟨o' + (lineBreak level).toList.length + 1, ?_⟩
  rw [hname]
  simp only [ho', bind, Except.bind, hskip]
  rfl

/-- After a comma and a line break the next field is read. -/
theorem readFields_more {d : Char} {fs : List (Text × Json)} (offset : Nat) (k : String)
    (hc : isLayout c = false) (hd : isLayout d = false)
    (hv : ∀ o, ∃ o', readValue limit fuel ⟨c :: t, o⟩ =
      .ok (v, ⟨',' :: ((lineBreak level).toList ++ d :: rest), o'⟩))
    (hfs : ∀ o, ∃ o', readFields limit fuel ⟨d :: rest, o⟩ = .ok (fs, ⟨last, o'⟩)) :
    ∃ o, readFields limit (fuel + 1) ⟨(writeText k).toList ++ ':' :: ' ' :: c :: t, offset⟩ =
      .ok ((k, v) :: fs, ⟨last, o⟩) := by
  obtain ⟨o, hname⟩ := readFields_name limit fuel k offset hc t
  obtain ⟨o', ho'⟩ := hv o
  obtain ⟨o'', ho''⟩ := hfs (o' + 1 + (lineBreak level).toList.length)
  have hcomma := skip_cons (show isLayout ',' = false from rfl)
    ((lineBreak level).toList ++ d :: rest) o'
  have hskip := skip_lineBreak hd level rest (o' + 1)
  refine ⟨o'', ?_⟩
  rw [hname]
  simp only [ho', bind, Except.bind, hcomma, Rest.drop, List.drop_succ_cons, List.drop_zero,
    hskip, ho'']
  rfl

end

theorem ofFields_eq {fs : List (Text × Json)} (hfs : (fs.map (·.1)).Nodup) :
    ofFields fs = .obj fs := by
  have hset : ∀ (fs : List (Text × Json)) (k : Text) (v : Json), k ∉ fs.map (·.1) →
      setField fs k v = fs ++ [(k, v)] := by
    intro fs k v
    induction fs with
    | nil => exact fun _ => rfl
    | cons f fs ih =>
      intro hk
      simp only [List.map_cons, List.mem_cons, not_or] at hk
      rw [setField, if_neg (Ne.symm hk.1), ih hk.2, List.cons_append]
  have hfold : ∀ (fs done : List (Text × Json)), ((done ++ fs).map (·.1)).Nodup →
      fs.foldl (fun acc f => setField acc f.1 f.2) done = done ++ fs := by
    intro fs
    induction fs with
    | nil => simp
    | cons f fs ih =>
      intro done hnodup
      have hk : f.1 ∉ done.map (·.1) := by
        rw [List.map_append, List.nodup_append] at hnodup
        intro hmem
        exact hnodup.2.2 _ hmem _ (by simp) rfl
      rw [List.foldl_cons, hset done f.1 f.2 hk, ih _ (by simpa using hnodup)]
      simp
  rw [ofFields, hfold fs [] (by simpa using hfs), List.nil_append]

theorem exists_cons_itemsText {x : Json} (hx : x.IsPlain) (level : Nat) (closing : Char)
    (items : List String) :
    ∃ c t, itemsText level closing (x.indented (level + 1) :: items) = c :: t ∧
      isLayout c = false ∧ c ≠ ']' := by
  obtain ⟨c, t, ht, hc, hne, -⟩ := exists_cons_indented hx (level + 1)
  cases items with
  | nil =>
    rw [itemsText, ht, List.cons_append]
    exact ⟨c, _, rfl, hc, hne⟩
  | cons y items =>
    rw [itemsText, ht, List.cons_append]
    exact ⟨c, _, rfl, hc, hne⟩

theorem exists_quote_itemsText (level : Nat) (f : Text × Json) (fs : List (Text × Json)) :
    ∃ t, itemsText level '\x7d' (indentedFields (level + 1) (f :: fs)) = '"' :: t := by
  obtain ⟨k, v⟩ := f
  cases fs with
  | nil => exact ⟨_, by simp [indentedFields, itemsText, toList_writeText]; rfl⟩
  | cons g fs => exact ⟨_, by simp [indentedFields, itemsText, toList_writeText]; rfl⟩

/-! ### Reading what was printed -/

theorem ends_lineBreak (level : Nat) (rest : List Char) :
    Ends ((lineBreak level).toList ++ rest) := by
  rw [toList_lineBreak]
  intro c hc
  cases hc
  exact Or.inr rfl

theorem ends_comma (rest : List Char) : Ends (',' :: rest) := by
  intro c hc
  cases hc
  exact Or.inl rfl

theorem readValue_toString {n : Int} (hn : n.natAbs < tenTo Text.maxDigits) {fuel : Nat}
    {rest : List Char} (hrest : Ends rest) (offset : Nat) :
    ∃ o, readValue (some Text.maxDigits) (fuel + 1) ⟨(toString n).toList ++ rest, offset⟩ =
      .ok (.int n, ⟨rest, o⟩) := by
  obtain ⟨o, ho⟩ := readAtom_toString hn hrest offset
  refine ⟨o, ?_⟩
  obtain ⟨c, t, hc, ht | ht⟩ := exists_digit_toString n
  · have hne : c ≠ '"' ∧ c ≠ '[' ∧ c ≠ '\x7b' := by
      refine ⟨?_, ?_, ?_⟩
      all_goals
        rintro rfl
        cases hc
    rw [ht] at ho ⊢
    rw [List.cons_append] at ho ⊢
    rw [readValue_atom hne.1 hne.2.1 hne.2.2, ho]
  · rw [ht] at ho ⊢
    rw [List.cons_append] at ho ⊢
    rw [readValue_atom (by decide) (by decide) (by decide), ho]

/-- What is printed for a field starts with its quoted name. -/
theorem toList_indentedField (level : Nat) (k : String) (v : Json) :
    (writeText k ++ ": " ++ v.indented level).toList =
      (writeText k).toList ++ ':' :: ' ' :: (v.indented level).toList := by
  simp

/-- Whether a value is read from what is printed for it, up to what comes next. -/
def IsReadable (j : Json) : Prop :=
  ∀ (level fuel : Nat) (rest : List Char), (j.indented level).toList.length ≤ fuel → Ends rest →
    ∀ offset, ∃ o, readValue (some Text.maxDigits) fuel
      ⟨(j.indented level).toList ++ rest, offset⟩ = .ok (j, ⟨rest, o⟩)

/-- Whether items are read from what is printed for them, up to what comes after their bracket. -/
def AreReadable (xs : List Json) : Prop :=
  ∀ (level fuel : Nat) (rest : List Char),
    (itemsText level ']' (indentedItems (level + 1) xs)).length ≤ fuel →
    ∀ offset, ∃ o, readItems (some Text.maxDigits) fuel
      ⟨itemsText level ']' (indentedItems (level + 1) xs) ++ rest, offset⟩ = .ok (xs, ⟨rest, o⟩)

/-- Whether fields are read from what is printed for them, up to what comes after their bracket. -/
def FieldsAreReadable (fs : List (Text × Json)) : Prop :=
  ∀ (level fuel : Nat) (rest : List Char),
    (itemsText level '\x7d' (indentedFields (level + 1) fs)).length ≤ fuel →
    ∀ offset, ∃ o, readFields (some Text.maxDigits) fuel
      ⟨itemsText level '\x7d' (indentedFields (level + 1) fs) ++ rest, offset⟩ =
        .ok (fs, ⟨rest, o⟩)

theorem isReadable_null : IsReadable .null := by
  intro level fuel rest hfuel _ offset
  obtain ⟨fuel, rfl⟩ : ∃ n, fuel = n + 1 := ⟨fuel - 1, by simp [indented] at hfuel; omega⟩
  exact ⟨offset + 4, by simp [indented, readValue, readAtom, words, Rest.drop]⟩

theorem isReadable_bool (b : Bool) : IsReadable (.bool b) := by
  intro level fuel rest hfuel _ offset
  cases b with
  | true =>
    obtain ⟨fuel, rfl⟩ : ∃ n, fuel = n + 1 := ⟨fuel - 1, by simp [indented] at hfuel; omega⟩
    exact ⟨offset + 4, by simp [indented, readValue, readAtom, words, Rest.drop]⟩
  | false =>
    obtain ⟨fuel, rfl⟩ : ∃ n, fuel = n + 1 := ⟨fuel - 1, by simp [indented] at hfuel; omega⟩
    exact ⟨offset + 5, by simp [indented, readValue, readAtom, words, Rest.drop]⟩

theorem isReadable_int {n : Int} (hn : n.natAbs < tenTo Text.maxDigits) :
    IsReadable (.int n) := by
  intro level fuel rest hfuel hrest offset
  obtain ⟨c, t, ht, -⟩ := exists_cons_indented (j := .int n) hn level
  rw [ht, List.length_cons] at hfuel
  obtain ⟨fuel, rfl⟩ : ∃ n, fuel = n + 1 := ⟨fuel - 1, by omega⟩
  exact readValue_toString hn hrest offset

theorem isReadable_str (s : String) : IsReadable (.str s) := by
  intro level fuel rest hfuel _ offset
  rw [indented, toList_writeText, List.length_cons] at hfuel
  obtain ⟨fuel, rfl⟩ : ∃ n, fuel = n + 1 := ⟨fuel - 1, by omega⟩
  obtain ⟨o, ho⟩ := readText_textBody offset s (offset + 1) rest
  refine ⟨o, ?_⟩
  rw [indented, toList_writeText, List.cons_append]
  simp only [readValue, ho, bind, Except.bind]
  rfl

theorem isReadable_arr {xs : List Json} (hplain : ArePlain xs) (hxs : xs ≠ [] → AreReadable xs) :
    IsReadable (.arr xs) := by
  intro level fuel rest hfuel _ offset
  cases xs with
  | nil =>
    obtain ⟨fuel, rfl⟩ : ∃ n, fuel = n + 1 :=
      ⟨fuel - 1, by simp [indented, indentedItems, enclose] at hfuel; omega⟩
    refine ⟨offset + 2, ?_⟩
    simp [indented, indentedItems, enclose, readValue, Rest.drop, Rest.skip, isLayout]
  | cons x xs =>
    have htext : (indented level (.arr (x :: xs))).toList = '[' ::
        ((lineBreak (level + 1)).toList ++
          itemsText level ']' (indentedItems (level + 1) (x :: xs))) :=
      toList_enclose (by simp) level (by simp [indentedItems])
    rw [htext] at hfuel ⊢
    simp only [List.length_cons, List.length_append] at hfuel
    obtain ⟨fuel, rfl⟩ : ∃ n, fuel = n + 1 := ⟨fuel - 1, by omega⟩
    obtain ⟨c, t, ht, hc, hne⟩ :=
      exists_cons_itemsText hplain.1 level ']' (indentedItems (level + 1) xs)
    obtain ⟨o, ho⟩ := hxs (by simp) level fuel rest (by omega)
      (offset + 1 + (lineBreak (level + 1)).toList.length)
    refine ⟨o, ?_⟩
    rw [indentedItems, ht, List.cons_append] at ho
    rw [indentedItems, ht, List.cons_append, List.append_assoc, List.cons_append,
      readValue_items hc hne, ho]
    rfl

theorem isReadable_obj {fs : List (Text × Json)} (hkeys : (fs.map (·.1)).Nodup)
    (hfs : fs ≠ [] → FieldsAreReadable fs) : IsReadable (.obj fs) := by
  intro level fuel rest hfuel _ offset
  cases fs with
  | nil =>
    obtain ⟨fuel, rfl⟩ : ∃ n, fuel = n + 1 :=
      ⟨fuel - 1, by simp [indented, indentedFields, enclose] at hfuel; omega⟩
    refine ⟨offset + 2, ?_⟩
    simp [indented, indentedFields, enclose, readValue, Rest.drop, Rest.skip, isLayout]
  | cons f fs =>
    have htext : (indented level (.obj (f :: fs))).toList = '\x7b' ::
        ((lineBreak (level + 1)).toList ++
          itemsText level '\x7d' (indentedFields (level + 1) (f :: fs))) :=
      toList_enclose (by simp) level (by simp [indentedFields])
    rw [htext] at hfuel ⊢
    simp only [List.length_cons, List.length_append] at hfuel
    obtain ⟨fuel, rfl⟩ : ∃ n, fuel = n + 1 := ⟨fuel - 1, by omega⟩
    obtain ⟨t, ht⟩ := exists_quote_itemsText level f fs
    obtain ⟨o, ho⟩ := hfs (by simp) level fuel rest (by omega)
      (offset + 1 + (lineBreak (level + 1)).toList.length)
    refine ⟨o, ?_⟩
    rw [ht, List.cons_append] at ho
    rw [ht, List.cons_append, List.append_assoc, List.cons_append, readValue_fields, ho,
      ← ofFields_eq hkeys]
    rfl

theorem areReadable_cons {x : Json} {xs : List Json} (hplain : ArePlain xs) (hx : IsReadable x)
    (hxs : xs ≠ [] → AreReadable xs) : AreReadable (x :: xs) := by
  intro level fuel rest hfuel offset
  cases xs with
  | nil =>
    simp only [indentedItems, itemsText, List.length_append, List.length_singleton] at hfuel
    obtain ⟨fuel, rfl⟩ : ∃ n, fuel = n + 1 := ⟨fuel - 1, by omega⟩
    obtain ⟨o, ho⟩ := hx (level + 1) fuel _ (by omega)
      (ends_lineBreak level (']' :: rest)) offset
    simpa [indentedItems, itemsText] using readItems_last ho
  | cons y xs =>
    obtain ⟨c, t, ht, hc, -⟩ :=
      exists_cons_itemsText hplain.1 level ']' (indentedItems (level + 1) xs)
    simp only [indentedItems, itemsText, List.length_append, List.length_cons, ht] at hfuel
    obtain ⟨fuel, rfl⟩ : ∃ n, fuel = n + 1 := ⟨fuel - 1, by omega⟩
    have ih := hxs (by simp) level fuel rest
    simp only [indentedItems, ht] at ih
    obtain ⟨o, ho⟩ := hx (level + 1) fuel _ (by omega)
      (ends_comma ((lineBreak (level + 1)).toList ++ c :: (t ++ rest))) offset
    simpa [indentedItems, itemsText, ht] using readItems_more ho hc (ih (by simp; omega))

theorem fieldsAreReadable_cons {k : String} {v : Json} {fs : List (Text × Json)}
    (hplain : v.IsPlain) (hv : IsReadable v) (hfs : fs ≠ [] → FieldsAreReadable fs) :
    FieldsAreReadable ((k, v) :: fs) := by
  intro level fuel rest hfuel offset
  obtain ⟨c, t, ht, hc, -⟩ := exists_cons_indented hplain (level + 1)
  cases fs with
  | nil =>
    have htext : itemsText level '\x7d' (indentedFields (level + 1) [(k, v)]) =
        (writeText k).toList ++ ':' :: ' ' :: c ::
          (t ++ ((lineBreak level).toList ++ ['\x7d'])) := by
      simp only [indentedFields, itemsText, toList_indentedField, ht]
      simp
    rw [htext] at hfuel ⊢
    simp only [List.length_append, List.length_cons] at hfuel
    obtain ⟨fuel, rfl⟩ : ∃ n, fuel = n + 1 := ⟨fuel - 1, by omega⟩
    have hv := hv (level + 1) fuel ((lineBreak level).toList ++ '\x7d' :: rest)
    simp only [ht, List.length_cons] at hv
    have hlast := readFields_last offset k hc (hv (by omega) (ends_lineBreak _ _))
    simpa using hlast
  | cons f fs =>
    obtain ⟨t', ht'⟩ := exists_quote_itemsText level f fs
    have htext : itemsText level '\x7d' (indentedFields (level + 1) ((k, v) :: f :: fs)) =
        (writeText k).toList ++ ':' :: ' ' :: c :: (t ++
          (',' :: (lineBreak (level + 1)).toList ++ '"' :: t')) := by
      rw [← ht', indentedFields, indentedFields, itemsText, toList_indentedField, ht]
      simp
    rw [htext] at hfuel ⊢
    simp only [List.length_append, List.length_cons] at hfuel
    obtain ⟨fuel, rfl⟩ : ∃ n, fuel = n + 1 := ⟨fuel - 1, by omega⟩
    have hv := hv (level + 1) fuel
      (',' :: ((lineBreak (level + 1)).toList ++ '"' :: (t' ++ rest)))
    have hfs := hfs (by simp) level fuel rest
    simp only [ht, List.length_cons] at hv
    simp only [ht', List.length_cons] at hfs
    have hmore := readFields_more offset k hc (show isLayout '"' = false from rfl)
      (hv (by omega) (ends_comma _)) (hfs (by omega))
    simpa using hmore

mutual

/-- **A plain value is read from what is printed for it.** -/
theorem IsPlain.isReadable : ∀ {j : Json}, j.IsPlain → j.IsReadable
  | .null, _ => isReadable_null
  | .bool b, _ => isReadable_bool b
  | .int _, h => isReadable_int h
  | .str (.plain s), _ => isReadable_str s
  | .arr _, h => isReadable_arr h fun hne => ArePlain.areReadable h hne
  | .obj _, h => isReadable_obj h.1 fun hne => FieldsArePlain.areReadable h.2 hne
termination_by structural j => j

theorem ArePlain.areReadable : ∀ {xs : List Json}, ArePlain xs → xs ≠ [] → AreReadable xs
  | [], _, hne => absurd rfl hne
  | _ :: _, h, _ =>
    areReadable_cons h.2 h.1.isReadable fun hne => ArePlain.areReadable h.2 hne
termination_by structural xs => xs

theorem FieldsArePlain.areReadable : ∀ {fs : List (Text × Json)}, FieldsArePlain fs →
    fs ≠ [] → FieldsAreReadable fs
  | [], _, hne => absurd rfl hne
  | (.plain _, _) :: _, h, _ =>
    fieldsAreReadable_cons h.1 h.1.isReadable fun hne => FieldsArePlain.areReadable h.2 hne
termination_by structural fs => fs

end

/-- **Printed data is read again.** -/
theorem read_indented {j : Json} (hj : j.IsPlain) : read (j.indented 0).toList = .ok j := by
  obtain ⟨c, t, ht, hc, -, hmark⟩ := exists_cons_indented hj 0
  obtain ⟨o, ho⟩ := hj.isReadable 0 (2 * (j.indented 0).toList.length + 2) [] (by omega)
    (by intro c hc; cases hc) 0
  have hhead : (j.indented 0).toList.head? ≠ some (Char.ofNat 0xFEFF) := by
    rw [ht]
    simpa using hmark
  have hskip : Rest.skip ⟨(j.indented 0).toList, 0⟩ = ⟨(j.indented 0).toList, 0⟩ := by
    rw [ht]
    exact skip_cons hc t 0
  rw [List.append_nil] at ho
  rw [read, readWithin, if_neg hhead, hskip]
  simp only [ho, bind, Except.bind]
  rfl

/-! ### Line ends -/

theorem not_mem_lineBreak (level : Nat) : '\r' ∉ (lineBreak level).toList := by
  simp [toList_lineBreak, List.mem_replicate]

theorem not_mem_itemsText {level : Nat} {closing : Char} (hclosing : closing ≠ '\r') :
    ∀ {items : List String}, (∀ x ∈ items, '\r' ∉ x.toList) → '\r' ∉ itemsText level closing items
  | [], _ => by simpa [itemsText] using hclosing.symm
  | [x], h => by simp [itemsText, hclosing.symm, not_mem_lineBreak, h]
  | x :: y :: items, h => by
    have ih : '\r' ∉ itemsText level closing (y :: items) :=
      not_mem_itemsText hclosing fun z hz => h z (List.mem_cons_of_mem x hz)
    simp [itemsText, ih, not_mem_lineBreak, h]

theorem not_mem_enclose {opening closing : String} {c : Char} (hopening : '\r' ∉ opening.toList)
    (hclosing : closing.toList = [c]) (hc : c ≠ '\r') {level : Nat} {items : List String}
    (hitems : ∀ x ∈ items, '\r' ∉ x.toList) :
    '\r' ∉ (enclose opening closing level items).toList := by
  by_cases hempty : items = []
  · simp [enclose, hempty, hopening, hclosing, hc.symm]
  · rw [toList_enclose hclosing level hempty]
    simp [hopening, not_mem_lineBreak, not_mem_itemsText hc hitems]

mutual

/-- **No printed text has a carriage return.** -/
theorem not_mem_indented : ∀ {j : Json}, j.IsPlain → ∀ level, '\r' ∉ (j.indented level).toList
  | .null, _, _ => by simp [indented]
  | .bool b, _, _ => by cases b <;> simp [indented]
  | .int n, _, _ => not_mem_toString n
  | .str (.plain s), _, _ => not_mem_writeText s
  | .arr _, h, _ =>
    not_mem_enclose (c := ']') (by simp) (by simp) (by decide) (not_mem_indentedItems h _)
  | .obj _, h, _ =>
    not_mem_enclose (c := '\x7d') (by simp) (by simp) (by decide) (not_mem_indentedFields h.2 _)
termination_by structural j => j

theorem not_mem_indentedItems : ∀ {xs : List Json}, ArePlain xs → ∀ level,
    ∀ x ∈ indentedItems level xs, '\r' ∉ x.toList
  | [], _, _ => by simp [indentedItems]
  | x :: xs, h, level => by
    have ihx := not_mem_indented h.1 level
    have ih := not_mem_indentedItems h.2 level
    simpa [indentedItems, ihx] using ih
termination_by structural xs => xs

theorem not_mem_indentedFields : ∀ {fs : List (Text × Json)}, FieldsArePlain fs → ∀ level,
    ∀ x ∈ indentedFields level fs, '\r' ∉ x.toList
  | [], _, _ => by simp [indentedFields]
  | (.plain k, v) :: fs, h, level => by
    have ihv := not_mem_indented h.1 level
    have ih := not_mem_indentedFields h.2 level
    simpa [indentedFields, ihv, not_mem_writeText k] using ih
termination_by structural fs => fs

end

end Scriptlet.Json
