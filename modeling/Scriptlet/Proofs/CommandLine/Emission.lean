import Mathlib.Data.List.Permutation
import Mathlib.Data.String.Basic
import Scriptlet.CommandLine.Command
import Scriptlet.Proofs.Syntax.Refusals
import Scriptlet.Proofs.Syntax.Trees
import Scriptlet.Proofs.Text.Lines

/-! # Running a program and running its tree

A program file is run in two ways: directly, or by writing its tree and running that. A text that is
refused is refused with the same report either way, before anything but the traces is written. Of
any other text the tree is written, and whoever runs the file that holds it sees what a direct run
shows: the tree is read from what was printed (`readTree_of_readProgram`), nothing in it is lost on
the way through a file (`readFile_of_read`), and traces that could be started can be written
(`exists_writeTrace`).

* `emission_agrees`: the two ways agree. -/

namespace Scriptlet.CommandLine

/-! ### Paths -/

section Paths

open String

/-- The rest of a text is not cut if it has no slashes. -/
theorem splitOnAux_eq : ∀ l r : List Char, '/' ∉ r →
    splitOnAux (ofList (l ++ r)) "/" 0 ⟨utf8Len l⟩ 0 [] = [ofList (l ++ r)]
  | l, [], _ => by
    have hend := (atEnd_of_valid l []).mpr rfl
    have hextract := extract_of_valid [] l []
    rw [splitOnAux, if_pos hend]
    simpa using hextract
  | l, c :: r, h => by
    have hend := (atEnd_of_valid l (c :: r)).not.mpr (List.cons_ne_nil c r)
    have hget : Pos.Raw.get (ofList (l ++ c :: r)) ⟨utf8Len l⟩ = c := get_of_valid l (c :: r)
    have hnext := next_of_valid l c r
    have hne : (c == Pos.Raw.get "/" 0) = false := by
      have hslash : Pos.Raw.get "/" 0 = '/' := by decide +kernel
      rw [hslash, beq_eq_false_iff_ne]
      rintro rfl
      exact h List.mem_cons_self
    have hstep : (Pos.Raw.unoffsetBy ⟨utf8Len l⟩ 0).next (ofList (l ++ c :: r)) =
        ⟨utf8Len (l ++ [c])⟩ := by
      rw [utf8Len_append]
      simpa [Pos.Raw.unoffsetBy, utf8Len] using hnext
    have hrest := splitOnAux_eq (l ++ [c]) r fun hmem => h (List.mem_cons_of_mem c hmem)
    rw [splitOnAux, if_neg hend, hget, hne, if_neg Bool.false_ne_true, hstep]
    rwa [List.append_assoc] at hrest

theorem splitOn_eq {s : String} (h : '/' ∉ s.toList) : s.splitOn "/" = [s] := by
  have haux := splitOnAux_eq [] s.toList h
  rwa [List.nil_append, ofList_toList] at haux

theorem Path.ofText_empty : Path.ofText "" = ⟨"", []⟩ := by
  rw [ofText, splitOn_eq (by decide)]
  rfl

/-- A text without slashes is one step from where the command runs. -/
theorem Path.ofText_step {s : String} (hslash : '/' ∉ s.toList) (hempty : s ≠ "") (hdot : s ≠ ".") :
    ofText s = ⟨"", [s]⟩ := by
  have hstart : startOf s.toList = "" := by
    unfold startOf
    split <;> simp_all
  rw [ofText, splitOn_eq hslash, hstart]
  simp [hempty, hdot]

end Paths

/-! ### Files -/

namespace Disk

theorem lookup_put (place : Path) (text : String) :
    ∀ fs : List (Path × String), (put place text fs).lookup place = some text
  | [] => by simp [put]
  | (k, v) :: fs => by
    have ih := lookup_put place text fs
    rw [put]
    split_ifs with hk
    · simp [hk]
    · have hne : (place == k) = false := by simpa using Ne.symm hk
      rw [List.lookup_cons, hne, ih]

/-- A file stays where it was put: files are never in the way. -/
theorem follow_put {d : Disk} {place : Path} (text : String) :
    ∀ {steps : List String} {here : Path},
      d.follow here steps = .free place ∨ (∃ old, d.follow here steps = .file place old) →
      { d with files := put place text d.files }.follow here steps = .file place text
  | [], here, h => by simp [follow] at h
  | step :: steps, here, h => by
    have hfolder (p : Path) :
        isFolder { d with files := put place text d.files } p = d.isFolder p := rfl
    simp only [follow, hfolder] at h ⊢
    split_ifs at h ⊢
    · exact follow_put text h
    · simp at h
    · exact follow_put text h
    · simp at h
    · have hplace : here.below step = place := by
        cases hlookup : d.files.lookup (here.below step) with
        | none => simpa [hlookup] using h
        | some old => simpa [hlookup] using h
      rw [hplace, lookup_put]

theorem locate_of_write {d d' : Disk} {p : Path} {text : String} (h : d.write p text = .ok d') :
    ∃ place, d'.locate p = .file place text := by
  have hlocate {place : Path}
      (hplace : d.locate p = .free place ∨ ∃ old, d.locate p = .file place old) :
      { d with files := put place text d.files }.locate p = .file place text := by
    unfold locate at hplace ⊢
    split_ifs at hplace ⊢
    · simp at hplace
    · simp at hplace
    · exact follow_put text hplace
  unfold write at h
  split at h
  · next place old hold =>
    cases h
    exact ⟨place, hlocate (Or.inr ⟨old, hold⟩)⟩
  · next place hfree =>
    cases h
    exact ⟨place, hlocate (Or.inl hfree)⟩
  · cases h
  · cases h
  · cases h

/-- What was written is read. -/
theorem read_of_write {d d' : Disk} {p : Path} {text : String} (h : d.write p text = .ok d') :
    d'.read p = .ok (some text) := by
  obtain ⟨place, hplace⟩ := locate_of_write h
  rw [read, hplace]

/-- What was written can be written again. -/
theorem exists_write_of_write {d d' : Disk} {p : Path} {text : String}
    (h : d.write p text = .ok d') (next : String) : ∃ d'', d'.write p next = .ok d'' := by
  obtain ⟨place, hplace⟩ := locate_of_write h
  rw [write, hplace]
  exact ⟨_, rfl⟩

end Disk

theorem unifyLineEnds_eq : ∀ {cs : List Char}, '\r' ∉ cs → unifyLineEnds cs = cs
  | [], _ => rfl
  | c :: cs, h => by
    simp only [List.mem_cons, not_or] at h
    rw [unifyLineEnds, unifyLineEnds_eq h.2]
    · exact fun rest hc => absurd hc.symm h.1
    · exact fun hc => absurd hc.symm h.1

/-- A text without carriage returns is read as it was written. -/
theorem readFile_of_read {d : Disk} {p : Path} {text : String} (htext : '\r' ∉ text.toList)
    (h : d.read p = .ok (some text)) : readFile d p = .ok text := by
  rw [readFile, h]
  simp only [unifyLineEnds_eq htext, String.ofList_toList]

/-- No file has an empty name. -/
theorem ne_empty_of_readFile {d : Disk} {file source : String}
    (h : readFile d (.ofText file) = .ok source) : file ≠ "" := by
  rintro rfl
  rw [Path.ofText_empty] at h
  cases h

/-! ### Traces -/

/-- Traces can be written whenever they could be started. -/
theorem exists_writeTrace {d d₁ : Disk} {level : Nat} (h : writeTrace d level [] = .ok d₁)
    (lines : List String) : ∃ d₂, writeTrace d₁ level lines = .ok d₂ := by
  unfold writeTrace at h ⊢
  split_ifs at h ⊢
  · exact Disk.exists_write_of_write h _
  · exact ⟨d₁, rfl⟩

theorem executeTo_report {steps level : Nat} {d d₁ : Disk} (h : writeTrace d level [] = .ok d₁)
    (running : Bool) (p : Program) :
    (executeTo steps d₁ level running p).1 = (execute steps level running p).1 := by
  obtain ⟨d₂, hd₂⟩ := exists_writeTrace h (execute steps level running p).2
  rw [executeTo]
  simp only [hd₂]

/-! ### Trees -/

theorem readTree_eq {text : String} {j : Json} (h : Json.read text.toList = .ok j) :
    readTree text = loadProgram j := by
  rw [readTree, h]
  rfl

/-- A tree is read from what was printed for the program of a text. -/
theorem readTree_of_readProgram {source : String} {p : Program} (h : readProgram source = .ok p) :
    readTree (p.toNode.toJson.indented 0) = .ok p :=
  (readTree_eq (Json.read_indented (isPlain_of_readProgram h))).trans (loadProgram_of_readProgram h)

/-! ### Modes -/

theorem given?_none : given? none = none := rfl

theorem given?_some {v : String} (h : v ≠ "") : given? (some v) = some v := by
  simp [given?, Option.filter, h]

section Modes

variable (steps : Nat) {level : Nat} {d d₁ : Disk} {args : List String} {file : String}
  (htrace : writeTrace d level [] = .ok d₁) (hfile : file ≠ "")

include htrace hfile

theorem command_program
    (hoptions : readOptions args = .ok { verbosity := level, program := some file }) :
    command steps d args =
      withProgram d₁ file readProgram fun _ p => executeTo steps d₁ level true p := by
  simp [command, hoptions, htrace, perform, given?_some hfile, given?_none]

theorem command_emit
    (hoptions : readOptions args = .ok { verbosity := level, emit := some file }) :
    command steps d args = withProgram d₁ file readProgram fun path p => emitTree d₁ path p := by
  simp [command, hoptions, htrace, perform, given?_some hfile, given?_none]

theorem command_tree
    (hoptions : readOptions args = .ok { verbosity := level, tree := some file }) :
    command steps d args =
      withProgram d₁ file readTree fun _ p => executeTo steps d₁ level true p := by
  simp [command, hoptions, htrace, perform, given?_some hfile, given?_none]

end Modes

theorem withProgram_ok {d : Disk} {file text : String} {parse : String → Except Trouble Program}
    {k : Path → Program → Report × Disk} {p : Program}
    (hread : readFile d (.ofText file) = .ok text) (hparse : parse text = .ok p) :
    withProgram d file parse k = k (.ofText file) p := by
  delta withProgram
  simp only [hread, hparse]

theorem withProgram_error {d : Disk} {file text : String}
    {parse : String → Except Trouble Program} {k : Path → Program → Report × Disk} {t : Trouble}
    (hread : readFile d (.ofText file) = .ok text) (hparse : parse text = .error t) :
    withProgram d file parse k = (troubleReport "" t, d) := by
  delta withProgram
  simp only [hread, hparse]

/-! ### Lines -/

theorem not_mem_atOffset {message : String} (h : '\n' ∉ message.toList) (offset : Nat) :
    '\n' ∉ (atOffset message offset).toList := by
  simp [atOffset, h]

theorem not_mem_lexMessage (p : LexProblem) : '\n' ∉ p.message.toList := by
  unfold LexProblem.message
  split <;> simp

theorem not_mem_readWording (p : Json.ReadProblem) : '\n' ∉ p.wording.toList := by
  unfold Json.ReadProblem.wording
  split <;> simp

theorem not_mem_wantedText (w : Wanted) : '\n' ∉ w.text.toList := by
  unfold Wanted.text
  split <;> simp

theorem not_mem_parseMessage (e : ParseError) : '\n' ∉ e.message.toList := by
  have hquoted (t : String) : '\n' ∉ (Text.quote t).toList.take 200 :=
    fun h => not_mem_quote t (List.mem_of_mem_take h)
  unfold ParseError.message
  split
  · simp [not_mem_wantedText]
  · simp [not_mem_wantedText]
  · simp
  · simp [hquoted]
  · exact not_mem_readWording _
  · exact Decimal.Signal.not_mem_message _

/-- A text that is not exchanged data is refused with a message of one line. -/
theorem not_mem_readMessage (e : Json.ReadError) (cs : List Char) :
    '\n' ∉ (e.message cs).toList := by
  have hwording := not_mem_readWording e.problem
  unfold Json.ReadError.message
  split <;> simp [hwording]

/-- **A report is one line**, unless it shows a text of a tree as it is. -/
theorem not_mem_line {t : Trouble} {line : String} (h : Trouble.line? t = .ok line)
    (hdata : ∀ m, t = .data m → '\n' ∉ m.toList) (hfailure : ∀ f, t = .failure f → f.IsLine) :
    '\n' ∉ line.toList := by
  cases t with
  | lex e =>
    cases h
    simp [not_mem_atOffset (not_mem_lexMessage e.problem)]
  | parse e =>
    have hmessage := not_mem_parseMessage e
    cases e with
    | badDecimal s => cases h
    | badInteger t p =>
      cases h
      simp [hmessage]
    | _ =>
      cases h
      simp [not_mem_atOffset hmessage]
  | data m =>
    cases h
    simp [hdata m rfl]
  | failure f =>
    have hmessage := (hfailure f rfl).message
    rw [Trouble.line?] at h
    split at h
    · next k hk =>
      cases h
      have hkind : '\n' ∉ k.toList := by
        cases f <;> cases hk <;> simp
      simp [hkind, hmessage]
    · split_ifs at h
      cases h
      simp [hmessage]

/-- A text is refused for its characters or for its tokens. -/
theorem trouble_of_readProgram {source : String} {t : Trouble} (h : readProgram source = .error t) :
    (∃ e, t = .lex e) ∨ ∃ e, t = .parse e := by
  cases htokens : tokenize source with
  | error e =>
    rw [readProgram, htokens] at h
    cases h
    exact Or.inl ⟨e, rfl⟩
  | ok ts =>
    simp only [readProgram, htokens, Except.mapError, ok_bind] at h
    cases hparse : parseProgram ts with
    | ok r =>
      rw [hparse] at h
      cases h
    | error e =>
      rw [hparse] at h
      cases h
      exact Or.inr ⟨e, rfl⟩

/-- A refused text has a line, unless it is refused for a decimal that cannot be kept. -/
theorem line?_of_readProgram {source : String} {t : Trouble} (h : readProgram source = .error t) :
    (∃ line, Trouble.line? t = .ok line) ∨ ∃ s, t = .parse (.badDecimal s) := by
  rcases trouble_of_readProgram h with ⟨e, rfl⟩ | ⟨e, rfl⟩
  · exact Or.inl ⟨_, rfl⟩
  · cases e with
    | badDecimal s => exact Or.inr ⟨s, rfl⟩
    | _ => exact Or.inl ⟨_, rfl⟩

theorem not_mem_line_of_readProgram {source line : String} {t : Trouble}
    (h : readProgram source = .error t) (hline : Trouble.line? t = .ok line) :
    '\n' ∉ line.toList := by
  rcases trouble_of_readProgram h with ⟨e, rfl⟩ | ⟨e, rfl⟩
  · exact not_mem_line hline nofun nofun
  · exact not_mem_line hline nofun nofun

/-- A refused text is reported in a line. Only a decimal that cannot be kept has none, and it takes
`10 ^ 18` characters to write one. -/
theorem exists_line_of_readProgram {source : String} {t : Trouble}
    (h : readProgram source = .error t) :
    (∃ line, troubleReport "" t = ⟨"", line ++ "\n", .exit 1⟩ ∧ '\n' ∉ line.toList) ∨
      10 ^ 18 ≤ source.length := by
  rcases line?_of_readProgram h with ⟨line, hline⟩ | ⟨s, rfl⟩
  · refine Or.inl ⟨line, ?_, not_mem_line_of_readProgram h hline⟩
    rw [troubleReport, hline]
  · have hlength := lt_length_of_badDecimal h
    rw [Decimal.maxWritten] at hlength
    exact Or.inr (by omega)

/-- Where the tree of a program file is written. -/
def treePath (file : String) : Path :=
  (Path.ofText file).extend treeEnding

/-- **Running a program and running its tree agree**, at every verbosity and for all numbers of
steps that a run may take. A text that is refused is refused alike, whether it is to be run or its
tree is to be written, and no tree is written. Of any other text a tree is written, unless its file
cannot be; and a run of that tree, from wherever it was put, shows what a run of the program
shows. -/
theorem emission_agrees {steps level : Nat} {d d₁ : Disk} {runArgs emitArgs : List String}
    {file source : String}
    (hrun : readOptions runArgs = .ok { verbosity := level, program := some file })
    (hemit : readOptions emitArgs = .ok { verbosity := level, emit := some file })
    (htrace : writeTrace d level [] = .ok d₁)
    (hsource : readFile d₁ (.ofText file) = .ok source) :
    (∀ t, readProgram source = .error t →
      command steps d emitArgs = command steps d runArgs ∧ (command steps d emitArgs).2 = d₁ ∧
        ((∃ line, (command steps d runArgs).1 = ⟨"", line ++ "\n", .exit 1⟩ ∧
          '\n' ∉ line.toList) ∨ 10 ^ 18 ≤ source.length)) ∧
    ∀ p, readProgram source = .ok p → ∃ json,
      (∀ d₂, d₁.write (treePath file) json = .ok d₂ →
        command steps d emitArgs = (⟨(treePath file).text ++ "\n", "", .exit 0⟩, d₂) ∧
          d₂.read (treePath file) = .ok (some json)) ∧
      (∀ e, d₁.write (treePath file) json = .error e →
        command steps d emitArgs = (fileReport e, d₁)) ∧
      ∀ (d' d₁' : Disk) (treeArgs : List String) (treeFile : String),
        readOptions treeArgs = .ok { verbosity := level, tree := some treeFile } →
        writeTrace d' level [] = .ok d₁' → d₁'.read (.ofText treeFile) = .ok (some json) →
        (command steps d' treeArgs).1 = (command steps d runArgs).1 := by
  have hfile := ne_empty_of_readFile hsource
  have hrun := command_program steps htrace hfile hrun
  have hemit := command_emit steps htrace hfile hemit
  constructor
  · intro t ht
    rw [withProgram_error hsource ht] at hrun hemit
    refine ⟨hemit.trans hrun.symm, by rw [hemit], ?_⟩
    rw [hrun]
    exact exists_line_of_readProgram ht
  · intro p hp
    rw [withProgram_ok hsource hp] at hrun hemit
    rw [emitTree, ← treePath] at hemit
    refine ⟨p.toNode.toJson.indented 0, ?_, ?_, ?_⟩
    · intro d₂ hd₂
      rw [hemit, hd₂]
      exact ⟨rfl, Disk.read_of_write hd₂⟩
    · intro e he
      rw [hemit, he]
    · intro d' d₁' treeArgs treeFile htree htrace' hjson
      have hread := readFile_of_read (Json.not_mem_indented (isPlain_of_readProgram hp) 0) hjson
      have htree := command_tree steps htrace' (ne_empty_of_readFile hread) htree
      rw [withProgram_ok hread (readTree_of_readProgram hp)] at htree
      calc (command steps d' treeArgs).1
        _ = (executeTo steps d₁' level true p).1 := by rw [htree]
        _ = (execute steps level true p).1 := executeTo_report htrace' true p
        _ = (executeTo steps d₁ level true p).1 := (executeTo_report htrace true p).symm
        _ = (command steps d runArgs).1 := by rw [hrun]

/-- A program that prints an accented letter and a line feed, emitted and run; and a file that is
refused with and without emission. -/
theorem emission_agrees_note :
    ∃ (d d₂ : Disk) (json : String),
      d.files = [(⟨"", ["a"]⟩, "FUN main() DO print(\"é\\n\"); END"), (⟨"", ["c"]⟩, "VAL")] ∧
      command 10 d ["--emit-ast", "a"] = (⟨"a.ast.json\n", "", .exit 0⟩, d₂) ∧
      d₂.read ⟨"", ["a.ast.json"]⟩ = .ok (some json) ∧
      (command 10 ⟨[(⟨"", ["b"]⟩, json)], []⟩ ["--ast", "b"]).1 = (command 10 d ["a"]).1 ∧
      command 10 d ["--emit-ast", "c"] = command 10 d ["c"] := by
  have ha : Path.ofText "a" = ⟨"", ["a"]⟩ :=
    Path.ofText_step (by decide) (by decide) (by decide)
  have hb : Path.ofText "b" = ⟨"", ["b"]⟩ :=
    Path.ofText_step (by decide) (by decide) (by decide)
  have hc : Path.ofText "c" = ⟨"", ["c"]⟩ :=
    Path.ofText_step (by decide) (by decide) (by decide)
  let d : Disk :=
    ⟨[(⟨"", ["a"]⟩, "FUN main() DO print(\"é\\n\"); END"), (⟨"", ["c"]⟩, "VAL")], []⟩
  have hrefused := @emission_agrees 10 0 d d ["c"] ["--emit-ast", "c"] "c" "VAL"
    (by decide +kernel) (by decide +kernel) rfl (by rw [hc]; rfl)
  have hagree := @emission_agrees 10 0 d d ["a"] ["--emit-ast", "a"] "a"
    "FUN main() DO print(\"é\\n\"); END" (by decide +kernel) (by decide +kernel) rfl
    (by rw [ha]; rfl)
  obtain ⟨json, hwritten, -, htree⟩ := hagree.2 _ (by cbv)
  rw [treePath, ha] at hwritten
  refine ⟨d, _, json, rfl, (hwritten _ rfl).1, (hwritten _ rfl).2, ?_, (hrefused.1 _ (by cbv)).1⟩
  exact htree _ _ ["--ast", "b"] "b" (by decide +kernel) rfl (by rw [hb]; rfl)

end Scriptlet.CommandLine
