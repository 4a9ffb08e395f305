import Scriptlet.Proofs.CommandLine.Emission
import Scriptlet.Proofs.Machine.Programs
import Scriptlet.Proofs.Typing.Verdicts

/-! # What the command reports

The command reads a file, analyzes the program it holds and runs it; each phase can fail, and a mode
goes through some of the phases. Most failures end the command with a line that names them. Five
problems of trees and the signals of decimal arithmetic have no line, and where one of them comes up
the command breaks off: a run may meet any signal, a check only the one for a literal that is too
large, and only a tree that no text has is of the wrong shape. A report can have more lines than one
only if a tree has a text with a line feed where programs have a name, an operator or a mark.

* `overlooks_of_meets`: which failures without a line each mode meets.
* `feeds_of_meets`: where line feeds in a report come from.
* `command_reports`: the command reports every failure but those. -/

namespace Scriptlet.CommandLine

/-! ### Lines -/

/-- Whether a problem of a tree has no line: a required field is missing, a literal is of no known
kind, an item is not what its place needs, or a part of a decimal has no room. -/
def Unreported : TreeProblem → Prop
  | .missingField _ | .unknownLiteral _ | .unexpected .. | .missingPart | .partTooLarge _ => True
  | _ => False

/-- Only signals of decimal arithmetic and some problems of trees have no line. -/
theorem eq_of_line? {f g : Failure} (h : Trouble.line? (.failure f) = .error g) :
    g = f ∧ ((∃ s, f = .signal s) ∨ ∃ p, f = .tree p ∧ Unreported p) := by
  cases f with
  | signal s =>
    cases h
    exact ⟨rfl, Or.inl ⟨s, rfl⟩⟩
  | tree p =>
    cases p with
    | missingField _ | unknownLiteral _ | unexpected _ _ | missingPart | partTooLarge _ =>
      cases h
      exact ⟨rfl, Or.inr ⟨_, rfl, trivial⟩⟩
    | _ => cases h
  | _ => cases h

/-- Whatever has no line breaks the command off with a failure of those. -/
theorem unreported_of_line? {t : Trouble} {f : Failure} (h : Trouble.line? t = .error f) :
    (∃ s, f = .signal s) ∨ ∃ p, f = .tree p ∧ Unreported p := by
  cases t with
  | lex e => cases h
  | parse e =>
    cases e with
    | badDecimal s =>
      cases h
      exact Or.inl ⟨s, rfl⟩
    | _ => cases h
  | data m => cases h
  | failure g =>
    obtain ⟨rfl, hg⟩ := eq_of_line? h
    exact hg

/-! ### Phases -/

/-- What the command analyzes and runs a program with. -/
abbrev session (steps level : Nat) : Session := { tracer := tracerOf level, steps }

/-- What the command does with a file. -/
inductive Mode where
  /-- Runs the program of a text. -/
  | run
  /-- Analyzes the program of a text. -/
  | check
  /-- Writes the tree of the program of a text. -/
  | emit
  /-- Runs the program of a tree. -/
  | tree
  deriving DecidableEq

namespace Mode

/-- The options that ask for a mode. -/
def options (level : Nat) (file : String) : Mode → Options
  | .run => { verbosity := level, program := some file }
  | .check => { verbosity := level, check := some file }
  | .emit => { verbosity := level, emit := some file }
  | .tree => { verbosity := level, tree := some file }

/-- The program that a mode takes from a text. -/
def parse : Mode → String → Except Trouble Program
  | .run | .check | .emit => readProgram
  | .tree => readTree

/-- Whether a mode runs programs. -/
def runs : Mode → Bool
  | .run | .tree => true
  | .check | .emit => false

/-- What a mode does with a program. -/
def proceed (steps : Nat) (d : Disk) (level : Nat) (mode : Mode) (path : Path) (p : Program) :
    Report × Disk :=
  if mode = .emit then emitTree d path p else executeTo steps d level mode.runs p

/-- Whether a mode meets a trouble with a text, in one of its phases. -/
inductive Meets (steps level : Nat) (text : String) (mode : Mode) : Trouble → Prop where
  | reading {t : Trouble} (ht : mode.parse text = .error t) : Meets steps level text mode t
  | analysis {p : Program} {f : Failure} (hmode : mode ≠ .emit) (hp : mode.parse text = .ok p)
    (hf : ((session steps level).check p).1 = .error f) : Meets steps level text mode (.failure f)
  | execution {p q : Program} {s : Session} {f : Failure} (hmode : mode.runs = true)
    (hp : mode.parse text = .ok p) (hq : (session steps level).check p = (.ok q, s))
    (hf : (s.run q).1 = .error (.failed f)) : Meets steps level text mode (.failure f)

/-- Whether a mode runs the program of a text, and that takes all its steps and would go on. -/
def Pauses (steps level : Nat) (text : String) (mode : Mode) : Prop :=
  mode.runs = true ∧ ∃ p q s, mode.parse text = .ok p ∧
    (session steps level).check p = (.ok q, s) ∧ (s.run q).1 = .error .paused

/-- The failures of a mode that are not reported. A decimal literal that cannot be kept is longer
than any file. -/
def Overlooks (text : String) : Mode → Failure → Prop
  | .run, f => ∃ s, f = .signal s
  | .check, f => f = .signal .overflow ∨ (∃ s, f = .signal s) ∧ Decimal.maxWritten < text.length
  | .emit, f => (∃ s, f = .signal s) ∧ Decimal.maxWritten < text.length
  | .tree, f => (∃ s, f = .signal s) ∨ ∃ p, f = .tree p ∧ Unreported p

/-! ### Failures without a line -/

/-- A text is refused without a line only for a decimal that cannot be kept. -/
theorem signal_of_readProgram {text : String} {t : Trouble} {f : Failure}
    (ht : readProgram text = .error t) (hline : Trouble.line? t = .error f) :
    (∃ s, f = .signal s) ∧ Decimal.maxWritten < text.length := by
  rcases line?_of_readProgram ht with ⟨line, hok⟩ | ⟨s, rfl⟩
  · cases hok.symm.trans hline
  · cases hline
    exact ⟨⟨s, rfl⟩, lt_length_of_badDecimal ht⟩

/-- A session that refuses a program got the failure from the analysis. -/
theorem program_of_check_error {steps level : Nat} {p : Program} {f : Failure}
    (h : ((session steps level).check p).1 = .error f) :
    ∃ q a, Analysis.program (tracerOf level) p Analyzer.fresh = ((q, .error f), a) := by
  rw [Session.check, Session.analyzeWith] at h
  cases hrun : (Analysis.program (tracerOf level) p).run Analyzer.fresh with
  | mk result a =>
    obtain ⟨q, r⟩ := result
    rw [hrun] at h
    cases r with
    | ok u => cases h
    | error e =>
      cases h
      exact ⟨q, a, hrun⟩

/-- A session that accepts a program keeps the state of the analysis. -/
theorem program_of_check_ok {steps level : Nat} {p q : Program} {s : Session}
    (h : (session steps level).check p = (.ok q, s)) :
    ∃ a, (Analysis.program (tracerOf level) p).run Analyzer.fresh = ((q, .ok ()), a) ∧
      s = { session steps level with analyzer := a } := by
  rw [Session.check, Session.analyzeWith] at h
  cases hrun : (Analysis.program (tracerOf level) p).run Analyzer.fresh with
  | mk result a =>
    obtain ⟨q', r⟩ := result
    rw [hrun] at h
    cases r with
    | error e => cases h
    | ok u =>
      cases h
      exact ⟨a, rfl, rfl⟩

/-- The analysis of a text fails only with a verdict. -/
theorem isVerdict_of_check {text : String} {p : Program} {steps level : Nat} {f : Failure}
    (hp : readProgram text = .ok p) (hf : ((session steps level).check p).1 = .error f) :
    f.IsVerdictIf True := by
  obtain ⟨q, a, hrun⟩ := program_of_check_error hf
  have hjudged := judges_of_readProgram hp (tracerOf level) Analyzer.fresh
  rw [hrun] at hjudged
  exact hjudged f rfl

/-- The analysis of a text fails without a line only for a literal that is too large. -/
theorem signal_of_check {text : String} {p : Program} {steps level : Nat} {f g : Failure}
    (hp : readProgram text = .ok p) (hf : ((session steps level).check p).1 = .error f)
    (hline : Trouble.line? (.failure f) = .error g) : g = .signal .overflow := by
  obtain ⟨rfl, hlineless⟩ := eq_of_line? hline
  cases isVerdict_of_check hp hf with
  | overflow => rfl
  | _ => simp at hlineless

/-- The run of an accepted text fails without a line only for a signal. -/
theorem signal_of_run {text : String} {p q : Program} {s : Session} {steps level : Nat}
    {f g : Failure} (hp : readProgram text = .ok p)
    (hq : (session steps level).check p = (.ok q, s)) (hf : (s.run q).1 = .error (.failed f))
    (hline : Trouble.line? (.failure f) = .error g) : ∃ s, g = .signal s := by
  obtain ⟨rfl, hlineless⟩ := eq_of_line? hline
  obtain ⟨a, hrun, rfl⟩ := program_of_check_ok hq
  obtain ⟨-, -, hstop⟩ := stops_of_accepted hp hrun hf
  refine hlineless.resolve_right fun htree => ?_
  obtain ⟨problem, rfl, -⟩ := htree
  cases (hstop.failed _ rfl trivial).1

variable {steps level : Nat} {text : String} {mode : Mode} {t : Trouble}

/-- **The failures that a mode meets and does not report.** -/
theorem overlooks_of_meets {f : Failure} (h : mode.Meets steps level text t)
    (hline : Trouble.line? t = .error f) : mode.Overlooks text f := by
  have hunreported := unreported_of_line? hline
  cases mode with
  | tree => exact hunreported
  | run =>
    cases h with
    | reading ht => exact (signal_of_readProgram ht hline).1
    | analysis _ hp hf => exact ⟨_, signal_of_check hp hf hline⟩
    | execution _ hp hq hf => exact signal_of_run hp hq hf hline
  | check =>
    cases h with
    | reading ht => exact Or.inr (signal_of_readProgram ht hline)
    | analysis _ hp hf => exact Or.inl (signal_of_check hp hf hline)
    | execution hmode => cases hmode
  | emit =>
    cases h with
    | reading ht => exact signal_of_readProgram ht hline
    | analysis hmode => exact absurd rfl hmode
    | execution hmode => cases hmode

/-! ### Line feeds -/

theorem parse_of_ne_tree (hmode : mode ≠ .tree) : mode.parse = readProgram := by
  cases mode with
  | tree => exact absurd rfl hmode
  | _ => rfl

/-- What a text fails with is told in one line. -/
theorem isLine_of_meets {f : Failure} (hmode : mode ≠ .tree)
    (h : mode.Meets steps level text (.failure f)) : f.IsLine := by
  have hparse := parse_of_ne_tree hmode
  cases h with
  | reading ht =>
    rw [hparse] at ht
    rcases trouble_of_readProgram ht with ⟨e, he⟩ | ⟨e, he⟩ <;> cases he
  | analysis _ hp hf =>
    rw [hparse] at hp
    cases isVerdict_of_check hp hf with
    | name h => exact h
    | type h => exact h
    | overflow => exact List.forall_mem_nil _
  | execution _ hp hq hf =>
    rw [hparse] at hp
    obtain ⟨a, hrun, rfl⟩ := program_of_check_ok hq
    exact isLine_of_accepted hp hrun hf

/-- A text that is not exchanged data is refused in one line. -/
theorem not_mem_of_meets_data {m : String} (h : mode.Meets steps level text (.data m)) :
    '\n' ∉ m.toList := by
  cases h with
  | reading ht =>
    by_cases hmode : mode = .tree
    · subst hmode
      change readTree text = _ at ht
      cases hread : Json.read text.toList with
      | error e =>
        rw [readTree, hread] at ht
        cases ht
        exact not_mem_readMessage e _
      | ok j =>
        rw [readTree_eq hread, loadProgram] at ht
        cases hnode : Node.ofJson j with
        | error f =>
          rw [hnode] at ht
          cases ht
        | ok n =>
          rw [hnode] at ht
          cases ht
    · rw [parse_of_ne_tree hmode] at ht
      rcases trouble_of_readProgram ht with ⟨e, he⟩ | ⟨e, he⟩ <;> cases he

/-- **Where the line feeds of a report come from**: from a tree that has them in a text which is
shown as it is. -/
theorem feeds_of_meets {line : String} (h : mode.Meets steps level text t)
    (hline : Trouble.line? t = .ok line) (hfeed : '\n' ∈ line.toList) :
    mode = .tree ∧ ∃ f, t = .failure f ∧ ∃ s ∈ f.bare, '\n' ∈ s.toList := by
  have hfailure : ∃ f, t = .failure f ∧ ¬ f.IsLine := by
    by_contra hnone
    refine not_mem_line hline (fun m hm => ?_) (fun f hf => ?_) hfeed
    · exact not_mem_of_meets_data (hm ▸ h)
    · by_contra hnot
      exact hnone ⟨f, hf, hnot⟩
  obtain ⟨f, rfl, hf⟩ := hfailure
  refine ⟨by_contra fun hmode => hf (isLine_of_meets hmode h), f, rfl, ?_⟩
  simpa [Failure.IsLine] using hf

/-- A tree whose mark has a line feed is reported in two lines. -/
example : readTree "\x7b\n  \"type\": \"a\\nb\"\n\x7d" =
      .error (.failure (.tree (.unknownTag "a\nb"))) ∧
    Trouble.line? (.failure (.tree (.unknownTag "a\nb"))) =
      .ok "Error: Unknown AST node type: a\nb" := by
  have hplain : (Json.obj [("type", .str "a\nb")]).IsPlain :=
    ⟨List.nodup_singleton _, trivial, trivial⟩
  exact ⟨readTree_eq (Json.read_indented hplain), by decide +kernel⟩

end Mode

/-! ### Reports -/

/-- The report of a trouble has its line, or the command breaks off. -/
theorem troubleReport_cases (output : String) (t : Trouble) :
    (∃ line, Trouble.line? t = .ok line ∧
        troubleReport output t = ⟨output, line ++ "\n", .exit 1⟩) ∨
      ∃ f, Trouble.line? t = .error f ∧ troubleReport output t = ⟨output, "", .escaped f⟩ := by
  cases hline : Trouble.line? t with
  | ok line => exact Or.inl ⟨line, rfl, by rw [troubleReport, hline]⟩
  | error f => exact Or.inr ⟨f, rfl, by rw [troubleReport, hline]⟩

section Execution

variable {steps level : Nat} {p q : Program} {s : Session} {f : Failure}

theorem execute_refused (running : Bool)
    (hf : ((session steps level).check p).1 = .error f) :
    (execute steps level running p).1 = troubleReport "" (.failure f) := by
  simp only [execute, hf]

theorem execute_checked (hq : (session steps level).check p = (.ok q, s)) :
    (execute steps level false p).1 = ⟨"ok\n", "", .exit 0⟩ := by
  simp only [execute, hq, Bool.false_eq_true, if_false]

theorem execute_failed (hq : (session steps level).check p = (.ok q, s))
    (hf : (s.run q).1 = .error (.failed f)) :
    ∃ output, (execute steps level true p).1 = troubleReport output (.failure f) := by
  simp only [execute, hq, if_true, hf]
  exact ⟨_, rfl⟩

/-- A run that ends with a value leaves an exit status and nothing to report. -/
theorem execute_ended {v : Value} (hq : (session steps level).check p = (.ok q, s))
    (hv : (s.run q).1 = .ok v) : (execute steps level true p).1.errors = "" ∧
      (execute steps level true p).1.ending = .exit v.exitCode := by
  simp only [execute, hq, if_true, hv, and_self]

/-- A run that has taken all its steps has nothing to report yet. -/
theorem execute_paused (hq : (session steps level).check p = (.ok q, s))
    (hpaused : (s.run q).1 = .error .paused) : (execute steps level true p).1.errors = "" ∧
      (execute steps level true p).1.ending = .unfinished := by
  simp only [execute, hq, if_true, hpaused, and_self]

end Execution

section Modes

variable {steps level : Nat} {d d₁ : Disk} {args : List String} {file text : String} {mode : Mode}
  (hoptions : readOptions args = .ok (mode.options level file))
  (htrace : writeTrace d level [] = .ok d₁) (htext : readFile d₁ (.ofText file) = .ok text)

include hoptions htrace htext

theorem command_mode :
    command steps d args = withProgram d₁ file mode.parse (mode.proceed steps d₁ level) := by
  have hfile := ne_empty_of_readFile htext
  cases mode with
  | run => exact command_program steps htrace hfile hoptions
  | check =>
    simp [command, hoptions, htrace, perform, Mode.options, given?_some hfile]
    rfl
  | emit => exact command_emit steps htrace hfile hoptions
  | tree => exact command_tree steps htrace hfile hoptions

/-- A trouble that a mode meets is what its report is about. -/
theorem report_of_meets {t : Trouble} (h : mode.Meets steps level text t) :
    ∃ output, (command steps d args).1 = troubleReport output t := by
  rw [command_mode hoptions htrace htext]
  cases h with
  | reading ht => exact ⟨"", by rw [withProgram_error htext ht]⟩
  | analysis hmode hp hf =>
    rw [withProgram_ok htext hp, Mode.proceed, if_neg hmode, executeTo_report htrace]
    exact ⟨"", execute_refused mode.runs hf⟩
  | execution hmode hp hq hf =>
    have hne : mode ≠ .emit := by
      rintro rfl
      cases hmode
    rw [withProgram_ok htext hp, Mode.proceed, if_neg hne, executeTo_report htrace, hmode]
    exact execute_failed hq hf

/-- A mode that pauses has nothing to report yet. -/
theorem report_of_pauses (h : mode.Pauses steps level text) :
    (command steps d args).1.errors = "" ∧ (command steps d args).1.ending = .unfinished := by
  obtain ⟨hruns, p, q, s, hp, hq, hpaused⟩ := h
  have hne : mode ≠ .emit := by
    rintro rfl
    cases hruns
  rw [command_mode hoptions htrace htext, withProgram_ok htext hp, Mode.proceed, if_neg hne,
    executeTo_report htrace, hruns]
  exact execute_paused hq hpaused

/-- A mode that meets no trouble and does not pause reports nothing, and breaks off only if a tree
cannot be written. -/
theorem report_of_not_meets (h : ∀ t, ¬ mode.Meets steps level text t)
    (hpauses : ¬ mode.Pauses steps level text) :
    (command steps d args).1.errors = "" ∧ ((∃ n, (command steps d args).1.ending = .exit n) ∨
      mode = .emit ∧ ∃ p e, readProgram text = .ok p ∧
        d₁.write (treePath file) (p.toNode.toJson.indented 0) = .error e ∧
        (command steps d args).1.ending = .fileTrouble e) := by
  rw [command_mode hoptions htrace htext]
  cases hp : mode.parse text with
  | error t => exact absurd (.reading hp) (h t)
  | ok p =>
    rw [withProgram_ok htext hp, Mode.proceed]
    split_ifs with hmode
    · subst hmode
      rw [emitTree, ← treePath]
      cases hwrite : d₁.write (treePath file) (p.toNode.toJson.indented 0) with
      | ok d₂ => exact ⟨rfl, Or.inl ⟨0, rfl⟩⟩
      | error e => exact ⟨rfl, Or.inr ⟨rfl, p, e, hp, hwrite, rfl⟩⟩
    · rw [executeTo_report htrace]
      cases hq : (session steps level).check p with
      | mk r s =>
        cases r with
        | error f => exact absurd (.analysis hmode hp (congrArg Prod.fst hq)) (h (.failure f))
        | ok q =>
          cases hruns : mode.runs with
          | false =>
            rw [execute_checked hq]
            exact ⟨rfl, Or.inl ⟨0, rfl⟩⟩
          | true =>
            cases hrun : (s.run q).1 with
            | ok v =>
              obtain ⟨herrors, hending⟩ := execute_ended hq hrun
              exact ⟨herrors, Or.inl ⟨_, hending⟩⟩
            | error stop =>
              cases stop with
              | failed f => exact absurd (.execution hruns hp hq hrun) (h (.failure f))
              | paused => exact absurd ⟨hruns, p, q, s, hp, hq, hrun⟩ hpauses

end Modes

/-- **The command reports the failures of every phase**, whatever the file holds and however many
steps a run may take. A mode that meets a trouble ends with status 1 and a line that names it,
unless it overlooks the trouble and breaks off. The line has line feeds only if a tree has them in a
text that is shown as it is. A mode whose run has taken all its steps reports nothing yet. Any other
mode reports nothing, and does not break off unless it cannot write a tree. -/
theorem command_reports {steps level : Nat} {d d₁ : Disk} {args : List String}
    {file text : String} {mode : Mode} (hoptions : readOptions args = .ok (mode.options level file))
    (htrace : writeTrace d level [] = .ok d₁) (htext : readFile d₁ (.ofText file) = .ok text) :
    let report := (command steps d args).1
    (∀ t, mode.Meets steps level text t →
      (∃ line, Trouble.line? t = .ok line ∧ report.errors = line ++ "\n" ∧
        report.ending = .exit 1 ∧
        ('\n' ∈ line.toList →
          mode = .tree ∧ ∃ f, t = .failure f ∧ ∃ s ∈ f.bare, '\n' ∈ s.toList)) ∨
      ∃ f, Trouble.line? t = .error f ∧ mode.Overlooks text f ∧ report.errors = "" ∧
        report.ending = .escaped f) ∧
    (mode.Pauses steps level text → report.errors = "" ∧ report.ending = .unfinished) ∧
    ((∀ t, ¬ mode.Meets steps level text t) → ¬ mode.Pauses steps level text →
      report.errors = "" ∧ ((∃ n, report.ending = .exit n) ∨
        mode = .emit ∧ ∃ p e, readProgram text = .ok p ∧
          d₁.write (treePath file) (p.toNode.toJson.indented 0) = .error e ∧
          report.ending = .fileTrouble e)) := by
  intro report
  refine ⟨fun t ht => ?_, report_of_pauses hoptions htrace htext,
    report_of_not_meets hoptions htrace htext⟩
  obtain ⟨output, hreport⟩ := report_of_meets hoptions htrace htext ht
  have hreport : report = troubleReport output t := hreport
  rcases troubleReport_cases output t with ⟨line, hline, heq⟩ | ⟨f, hline, heq⟩
  · rw [hreport, heq]
    exact Or.inl ⟨line, hline, rfl, rfl, Mode.feeds_of_meets ht hline⟩
  · rw [hreport, heq]
    exact Or.inr ⟨f, hline, Mode.overlooks_of_meets ht hline, rfl, rfl⟩

/-- A check of a program with an unknown name. -/
theorem command_reports_unknown :
    ∃ d : Disk, d.files = [(⟨"", ["a"]⟩, "FUN main() DO print(n); END")] ∧
      ∃ line, Trouble.line? (.failure (.name (.variable "n"))) = .ok line ∧
        '\n' ∉ line.toList ∧ (command 0 d ["--check", "a"]).1.errors = line ++ "\n" ∧
        (command 0 d ["--check", "a"]).1.ending = .exit 1 := by
  have ha : Path.ofText "a" = ⟨"", ["a"]⟩ :=
    Path.ofText_step (by decide) (by decide) (by decide)
  let d : Disk := ⟨[(⟨"", ["a"]⟩, "FUN main() DO print(n); END")], []⟩
  have hmeets : Mode.Meets 0 0 "FUN main() DO print(n); END" .check
      (.failure (.name (.variable "n"))) :=
    .analysis (by decide) (by cbv) rfl
  have hreports := (@command_reports 0 0 d d ["--check", "a"] "a" _ .check (by decide +kernel) rfl
    (by rw [ha]; rfl)).1 _ hmeets
  rcases hreports with ⟨line, hline, herrors, hending, hfeed⟩ | ⟨f, hline, -⟩
  · exact ⟨d, rfl, line, hline, fun h => Mode.noConfusion (hfeed h).1, herrors, hending⟩
  · cases hline

/-- A tree without its globals breaks the command off. -/
theorem command_breaks_off :
    ∃ d : Disk, d.files = [(⟨"", ["a"]⟩, "\x7b\n  \"type\": \"Source\"\n\x7d")] ∧
      (command 0 d ["--ast", "a"]).1.errors = "" ∧
      (command 0 d ["--ast", "a"]).1.ending = .escaped (.tree (.missingField "globals")) := by
  have ha : Path.ofText "a" = ⟨"", ["a"]⟩ :=
    Path.ofText_step (by decide) (by decide) (by decide)
  let d : Disk := ⟨[(⟨"", ["a"]⟩, "\x7b\n  \"type\": \"Source\"\n\x7d")], []⟩
  have hplain : (Json.obj [("type", .str "Source")]).IsPlain :=
    ⟨List.nodup_singleton _, trivial, trivial⟩
  have hmeets : Mode.Meets 0 0 "\x7b\n  \"type\": \"Source\"\n\x7d" .tree
      (.failure (.tree (.missingField "globals"))) :=
    .reading (readTree_eq (Json.read_indented hplain))
  obtain ⟨output, hreport⟩ := @report_of_meets 0 0 d d ["--ast", "a"] "a" _ .tree
    (by decide +kernel) rfl (by rw [ha]; rfl) _ hmeets
  refine ⟨d, rfl, ?_⟩
  rw [hreport]
  exact ⟨rfl, rfl⟩

end Scriptlet.CommandLine
