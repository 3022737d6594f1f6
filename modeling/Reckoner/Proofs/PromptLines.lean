import Mathlib
import Reckoner.Console
import Reckoner.Proofs.FreshRuns
import Reckoner.Proofs.TextLines

/-!
The prompt runs each line by itself. One session goes from line to line with its output, its reports
and its flags. The flags are forgotten before each line, so that the session is fresh again, and
what a stage adds to a fresh session does not depend on the session. This is what it leaves behind
when the line is all that a file holds.
-/

namespace Reckoner.Prompt

open Utf8 (IsText encode)

/-- What a stage adds to a session: diagnostics, and then a text, if it comes to write one. -/
structure Addition where
  reported : List Diagnostic
  written : Option String

namespace Addition

def applied (a : Addition) (s : Session) : Session :=
  match a.written with
  | none => s.reportAll a.reported
  | some text => ((s.reportAll a.reported).write text).1

def output (a : Addition) : List UInt8 :=
  match a.written with
  | none => []
  | some text => encode text

def errors (a : Addition) : List UInt8 := a.reported.flatMap fun d => encode (d.text ++ "\n")

end Addition

theorem exists_addition_run (source : String) :
    ∃ a : Addition, ∀ s : Session, s.Fresh → (s.run source).1 = a.applied s := by
  obtain ⟨act, hcourse, hrun⟩ := Session.exists_course source
  suffices hact : ∃ a : Addition, ∀ s, (act s).1 = a.applied s by
    obtain ⟨a, ha⟩ := hact
    exact ⟨a, fun s hs => by rw [hrun s hs, ha]⟩
  cases hcourse with
  | lexical _ => exact ⟨⟨_, none⟩, fun _ => rfl⟩
  | refused _ _ => exact ⟨⟨[_], none⟩, fun _ => rfl⟩
  | written _ _ _ => exact ⟨⟨[], some _⟩, fun _ => rfl⟩
  | failed _ _ _ => exact ⟨⟨[_], none⟩, fun _ => rfl⟩
  | foreign _ _ _ => exact ⟨⟨[], none⟩, fun _ => rfl⟩

theorem exists_addition_tree (source : String) :
    ∃ a : Addition, ∀ s : Session, s.Fresh → Stage.showTree s source = a.applied s := by
  by_cases herrors : (Scan.ofText source).errors = []
  · have hflag : ∀ s : Session, s.Fresh → s.journal.hadError = false := fun s hs =>
      (Journal.reset_eq_self_iff.mp hs).1
    cases htree : (TokenReader.ofTokens (Scan.ofText source).tokens).parse.1 with
    | error err =>
      refine ⟨⟨[err.diagnostic], none⟩, fun s hs => ?_⟩
      simp only [Stage.showTree, Session.scan_of_no_errors herrors, hflag s hs,
        Session.parse_error htree]
      rfl
    | ok e =>
      refine ⟨⟨[], some (e.text ++ "\n")⟩, fun s hs => ?_⟩
      simp only [Stage.showTree, Session.scan_of_no_errors herrors, hflag s hs,
        Session.parse_ok htree]
      rfl
  · refine ⟨⟨(Scan.ofText source).errors.map LexicalError.diagnostic, none⟩, fun s hs => ?_⟩
    simp only [Stage.showTree, Session.hadError_scan_of_errors herrors, if_true]
    rfl

/-- What a stage adds to a fresh session depends on the text only. -/
theorem exists_addition (stage : Stage) (source : String) :
    ∃ a : Addition, ∀ s : Session, s.Fresh → stage.perform s source = a.applied s := by
  cases stage with
  | tokens =>
    exact ⟨⟨(Scan.ofText source).errors.map LexicalError.diagnostic, some _⟩, fun s hs => rfl⟩
  | tree => exact exists_addition_tree source
  | value => exact exists_addition_run source

/-- All that was written to the session is `output`, and all that was reported is `errors`. -/
def Holds (s : Session) (output errors : List UInt8) : Prop :=
  s.output = ⟨none, output⟩ ∧ ∃ failures, s.journal.reporter = .writing ⟨none, errors⟩ failures

section Holds

variable {s : Session} {output errors : List UInt8}

theorem holds_unlimited : Holds .unlimited [] [] := ⟨rfl, 0, rfl⟩

theorem Holds.exitOf_eq (h : Holds s output errors) (status : Nat) :
    Console.exitOf status s = ⟨status, output, errors⟩ := by
  obtain ⟨houtput, failures, hreporter⟩ := h
  simp [Console.exitOf, houtput, hreporter, Reporter.written]

theorem Holds.reset (h : Holds s output errors) : Holds s.reset output errors := h

theorem Holds.write (h : Holds s output errors) (text : String) :
    Holds (s.write text).1 (output ++ encode text) errors := by
  obtain ⟨houtput, hreporter⟩ := h
  refine ⟨?_, hreporter⟩
  simp [Session.write, Sink.write, Sink.keep, houtput]

theorem Holds.reportAll (h : Holds s output errors) (ds : List Diagnostic) :
    Holds (s.reportAll ds) output (errors ++ ds.flatMap fun d => encode (d.text ++ "\n")) := by
  induction ds generalizing s errors with
  | nil =>
    rw [List.flatMap_nil, List.append_nil]
    exact h
  | cons d ds ih =>
    have hstep : Holds (s.report d) output (errors ++ encode (d.text ++ "\n")) := by
      obtain ⟨houtput, failures, hreporter⟩ := h
      refine ⟨houtput, failures, ?_⟩
      simp [Session.report, Journal.report, Reporter.report, hreporter, Sink.write, Sink.keep]
    rw [List.flatMap_cons, ← List.append_assoc]
    exact ih hstep

theorem Holds.addition (h : Holds s output errors) (a : Addition) :
    Holds (a.applied s) (output ++ a.output) (errors ++ a.errors) := by
  have hreported := h.reportAll a.reported
  unfold Addition.applied Addition.output
  cases a.written with
  | none =>
    rw [List.append_nil]
    exact hreported
  | some text => exact hreported.write text

/-- A stage adds to a fresh session what it leaves behind by itself. -/
theorem Holds.perform (h : Holds s output errors) (hs : s.Fresh) (stage : Stage)
    (source : String) : Holds (stage.perform s source)
      (output ++ (Console.runText stage source).output)
      (errors ++ (Console.runText stage source).errors) := by
  obtain ⟨a, ha⟩ := exists_addition stage source
  have halone : Holds (stage.perform .unlimited source) a.output a.errors := by
    rw [ha _ Session.fresh_unlimited]
    exact holds_unlimited.addition a
  rw [ha s hs, Console.runText, halone.exitOf_eq]
  exact h.addition a

end Holds

/-- The arguments that show a stage at the prompt. -/
theorem ofArguments_emit {text : String} {stage : Stage} (h : Stage.ofText? text = some stage) :
    Request.ofArguments ["--emit", text] = .evaluate none stage := by
  have hform : Arguments.Form.of "--emit" = .stage := by cbv
  simp [Request.ofArguments, Arguments.read, hform, Arguments.withStage?, Arguments.unread, h,
    Arguments.request]

/-- The arguments that show a stage for a file. -/
theorem ofArguments_file_emit {name text : String} {stage : Stage}
    (hname : Arguments.Form.of name = .file) (hne : name.isEmpty = false)
    (h : Stage.ofText? text = some stage) :
    Request.ofArguments [name, "--emit", text] = .evaluate (some name) stage := by
  have hform : Arguments.Form.of "--emit" = .stage := by cbv
  simp [Request.ofArguments, Arguments.read, hform, hname, hne, Arguments.withFile?,
    Arguments.withStage?, Arguments.unread, h, Arguments.request]

/-- What the program does with a file of the given bytes. -/
def onFile (args : List String) (content : List UInt8) : Exit :=
  Console.run args (fun _ => .ok content) []

/-- The prompt and the output of each line, one after another. -/
def transcript (alone : List UInt8 → Exit) (lines : List (List UInt8)) : List UInt8 :=
  lines.flatMap fun line => encode "> " ++ (alone line).output

def reports (alone : List UInt8 → Exit) (lines : List (List UInt8)) : List UInt8 :=
  lines.flatMap fun line => (alone line).errors

theorem onFile_eq {args : List String} {name : String} {stage : Stage} {source : String}
    (hargs : Request.ofArguments args = .evaluate (some name) stage) :
    onFile args (encode source) = Console.runText stage source := by
  simp only [onFile, Console.run, hargs, Console.runFile, Console.textOf,
    Utf8.decode?_eq_some_iff.mpr rfl]

/-- A line that is a text adds to the session what it leaves behind as a file. -/
theorem promptFrom_cons {stage : Stage} {s : Session} {output errors line : List UInt8}
    {args : List String} {name : String}
    (hargs : Request.ofArguments args = .evaluate (some name) stage)
    (h : Holds s output errors) (hline : IsText line) (rest : List (List UInt8)) :
    ∃ after, Holds after (output ++ (encode "> " ++ (onFile args line).output))
        (errors ++ (onFile args line).errors) ∧
      Console.promptFrom stage s (line :: rest) = Console.promptFrom stage after rest := by
  obtain ⟨source, rfl⟩ := hline
  have hasked : Holds (s.write Console.promptText).1.reset (output ++ encode "> ") errors :=
    (h.write Console.promptText).reset
  refine ⟨stage.perform (s.write Console.promptText).1.reset source, ?_, ?_⟩
  · rw [onFile_eq hargs, ← List.append_assoc]
    exact hasked.perform (Session.fresh_reset _) stage source
  · simp only [Console.promptFrom, Utf8.decode?_eq_some_iff.mpr rfl]

theorem promptFrom_append {stage : Stage} {s : Session} {output errors : List UInt8}
    {args : List String} {name : String}
    (hargs : Request.ofArguments args = .evaluate (some name) stage)
    (h : Holds s output errors) {lines : List (List UInt8)} (hlines : ∀ l ∈ lines, IsText l)
    (rest : List (List UInt8)) :
    ∃ after, Holds after (output ++ transcript (onFile args) lines)
        (errors ++ reports (onFile args) lines) ∧
      Console.promptFrom stage s (lines ++ rest) = Console.promptFrom stage after rest := by
  induction lines generalizing s output errors with
  | nil => exact ⟨s, by simpa [transcript, reports] using h, rfl⟩
  | cons line lines ih =>
    obtain ⟨middle, hmiddle, hfirst⟩ :=
      promptFrom_cons hargs h (hlines line List.mem_cons_self) (lines ++ rest)
    obtain ⟨after, hafter, hothers⟩ :=
      ih hmiddle fun l hl => hlines l (List.mem_cons_of_mem line hl)
    refine ⟨after, ?_, hfirst.trans hothers⟩
    simpa [transcript, reports, List.append_assoc] using hafter

/-- The prompt runs the lines of its input one by one, each of them as if it were a file: its output
is the output of each line after a prompt, and then one more prompt, and its errors are the errors
of each line. A line that is no text ends the program where it stands. -/
theorem prompt_runs_each_line_alone {stage : Stage} {args fileArgs : List String} {name : String}
    (hargs : Request.ofArguments args = .evaluate none stage)
    (hfileArgs : Request.ofArguments fileArgs = .evaluate (some name) stage)
    (find : String → Except ReadFault (List UInt8)) (input : List UInt8) :
    ∃ lines, (∀ ls, Utf8.Cut input ls ↔ ls = lines) ∧
      (IsText input → Console.run args find input =
        ⟨0, transcript (onFile fileArgs) lines ++ encode "> ", reports (onFile fileArgs) lines⟩) ∧
      ∀ before bad after, lines = before ++ bad :: after → (∀ l ∈ before, IsText l) →
        ¬ IsText bad → Console.run args find input =
          ⟨1, transcript (onFile fileArgs) before ++ encode "> ",
            reports (onFile fileArgs) before ++
              encode "Error: stream did not contain valid UTF-8\n"⟩ := by
  have hrun : Console.run args find input =
      Console.promptFrom stage .unlimited (Utf8.lines input) := by
    simp only [Console.run, hargs, Console.runPrompt]
  refine ⟨Utf8.lines input, fun ls => Utf8.cut_iff, ?_, ?_⟩
  · intro hinput
    obtain ⟨after, hafter, hprompt⟩ :=
      promptFrom_append hfileArgs holds_unlimited (Utf8.isText_of_mem_lines hinput) []
    rw [List.append_nil] at hprompt
    rw [hrun, hprompt]
    exact (hafter.write Console.promptText).exitOf_eq 0
  · intro before bad after hlines hbefore hbad
    obtain ⟨stopped, hstopped, hprompt⟩ :=
      promptFrom_append hfileArgs holds_unlimited hbefore (bad :: after)
    rw [hrun, hlines, hprompt]
    simp only [Console.promptFrom, Utf8.decode?_eq_none_iff.mpr hbad]
    rw [(hstopped.write Console.promptText).exitOf_eq 1]
    rfl

/-- The failure in the first line has no influence on the second one, which has no line feed. -/
theorem prompt_runs_each_line_alone_after_failure :
    Request.ofArguments ["--emit", "value"] = .evaluate none .value ∧
      Request.ofArguments ["a.lox", "--emit", "value"] = .evaluate (some "a.lox") .value ∧
      Console.run ["--emit", "value"] (fun _ => .error .missing) (encode "-nil\n!nil") =
        ⟨0, encode "> > true\n> ", encode "Operand must be number.\n[line 1]\n"⟩ := by
  have hstage : Stage.ofText? "value" = some .value := rfl
  have hargs := ofArguments_emit hstage
  have hname : Arguments.Form.of "a.lox" = .file := by cbv
  have hfileArgs := ofArguments_file_emit hname (by decide) hstage
  refine ⟨hargs, hfileArgs, ?_⟩
  obtain ⟨lines, hcut, hrun, -⟩ := prompt_runs_each_line_alone hargs hfileArgs
    (fun _ => .error .missing) (encode "-nil\n!nil")
  have hsplit : [encode "-nil\n", encode "!nil"] = Utf8.lines (encode "-nil\n!nil") := by cbv
  have hlines : [encode "-nil\n", encode "!nil"] = lines := (hcut _).mp (Utf8.cut_iff.mpr hsplit)
  have houtput : transcript (onFile ["a.lox", "--emit", "value"])
      [encode "-nil\n", encode "!nil"] ++ encode "> " = encode "> > true\n> " := by cbv
  have herrors : reports (onFile ["a.lox", "--emit", "value"])
      [encode "-nil\n", encode "!nil"] = encode "Operand must be number.\n[line 1]\n" := by cbv
  rw [hrun ⟨_, rfl⟩, ← hlines, houtput, herrors]

end Reckoner.Prompt
