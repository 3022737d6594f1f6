import Reckoner.Proofs.ParsedOperators
import Reckoner.Proofs.PromptLines

/-!
The stages agree on every text. Each stage does the work of the one before it and goes on from
there, so it reports what that one reports and perhaps more. The stage of the tree and that of the
value differ only for an expression that has been read: the one writes its canonical form, the other
its value or the reason why it has none.
-/

namespace Reckoner.StageAgreement

open Prompt (holds_unlimited)
open Utf8 (encode)

/-- What the stages of the tree and of the value leave behind, for each way in which the work on a
text may end. -/
inductive Exits (source : String) : (tree value : Exit) → Prop
  | stopped (h : (Scan.ofText source).errors ≠ []) :
      Exits source ⟨65, [], reportText (Scan.diagnostics source)⟩
        ⟨65, [], reportText (Scan.diagnostics source)⟩
  | refused {err : SyntaxError} (hno : (Scan.ofText source).errors = [])
      (he : Expr.ofTokens (Scan.ofText source).tokens = .error err) :
      Exits source ⟨65, [], err.diagnostic.written⟩ ⟨65, [], err.diagnostic.written⟩
  | failed {e : Expr} {err : RuntimeError} (hno : (Scan.ofText source).errors = [])
      (he : Expr.ofTokens (Scan.ofText source).tokens = .ok e)
      (hv : e.evaluate = .error (.mismatch err)) :
      Exits source ⟨0, encode (e.text ++ "\n"), []⟩ ⟨70, [], err.diagnostic.written⟩
  | written {e : Expr} {v : Value} (hno : (Scan.ofText source).errors = [])
      (he : Expr.ofTokens (Scan.ofText source).tokens = .ok e) (hv : e.evaluate = .ok v) :
      Exits source ⟨0, encode (e.text ++ "\n"), []⟩ ⟨0, encode (v.text ++ "\n"), []⟩

/-- What a program leaves behind that ends with the session. -/
def exitAfter (s : Session) : Exit := Console.exitOf (Console.statusOf s.journal) s

variable {source : String}

theorem statusOf_reportAll (ds : List Diagnostic) :
    Console.statusOf (Session.unlimited.reportAll ds).journal =
      if ds.any (!·.isRuntime) then 65 else if ds.any (·.isRuntime) then 70 else 0 := by
  rw [Session.reportAll, Journal.reportAll_eq]
  rfl

theorem statusOf_diagnostics (source : String) :
    Console.statusOf (Session.unlimited.reportAll (Scan.diagnostics source)).journal =
      if (Scan.ofText source).errors.isEmpty then 0 else 65 := by
  rw [statusOf_reportAll, Scan.any_static_diagnostics, Scan.any_isRuntime_diagnostics]
  cases (Scan.ofText source).errors <;> rfl

theorem exitAfter_reportAll (ds : List Diagnostic) :
    exitAfter (Session.unlimited.reportAll ds) =
      ⟨Console.statusOf (Session.unlimited.reportAll ds).journal, [], reportText ds⟩ :=
  (holds_unlimited.reportAll ds).exitOf_eq _

theorem exitAfter_report (d : Diagnostic) :
    exitAfter (Session.unlimited.report d) = ⟨if d.isRuntime then 70 else 65, [], d.written⟩ := by
  have hone : exitAfter (Session.unlimited.report d) = _ := exitAfter_reportAll [d]
  rw [hone, statusOf_reportAll, reportText, List.flatMap_singleton]
  cases d <;> rfl

theorem exitAfter_write (text : String) :
    exitAfter (Session.unlimited.write text).1 = ⟨0, encode text, []⟩ :=
  (holds_unlimited.write text).exitOf_eq 0

theorem showTree_of_errors (h : (Scan.ofText source).errors ≠ []) :
    Stage.showTree .unlimited source =
      Session.unlimited.reportAll (Scan.diagnostics source) := by
  simp only [Stage.showTree, Session.hadError_scan_of_errors h, if_true]
  rfl

theorem showTree_of_no_errors (h : (Scan.ofText source).errors = []) :
    Stage.showTree .unlimited source = match Expr.ofTokens (Scan.ofText source).tokens with
      | .ok e => (Session.unlimited.write (e.text ++ "\n")).1
      | .error err => Session.unlimited.report err.diagnostic := by
  have hflag : Session.unlimited.journal.hadError = false := rfl
  simp only [Stage.showTree, Session.scan_of_no_errors h, hflag, Bool.false_eq_true, if_false]
  unfold Expr.ofTokens
  cases htree : (TokenReader.ofTokens (Scan.ofText source).tokens).parse.1 with
  | ok e => simp only [Session.parse_ok htree]
  | error err => simp only [Session.parse_error htree]

theorem exits (source : String) :
    Exits source (Console.runText .tree source) (Console.runText .value source) := by
  obtain ⟨act, hcourse, hrun⟩ := Session.exists_course source
  have htree : Console.runText .tree source = exitAfter (Stage.showTree .unlimited source) := rfl
  have hvalue : Console.runText .value source = exitAfter (act .unlimited).1 := by
    rw [← hrun _ Session.fresh_unlimited]
    rfl
  rw [htree, hvalue]
  cases hcourse with
  | lexical h =>
    have hexit : exitAfter (Session.unlimited.reportAll (Scan.diagnostics source)) =
        ⟨65, [], reportText (Scan.diagnostics source)⟩ := by
      rw [exitAfter_reportAll, statusOf_diagnostics, if_neg (by simpa using h)]
    change Exits source _ (exitAfter (Session.unlimited.reportAll (Scan.diagnostics source)))
    rw [showTree_of_errors h, hexit]
    exact .stopped h
  | refused hno he =>
    rw [showTree_of_no_errors hno, he]
    simp only [exitAfter_report]
    exact .refused hno he
  | written hno he hv =>
    rw [showTree_of_no_errors hno, he]
    simp only [exitAfter_write]
    exact .written hno he hv
  | failed hno he hv =>
    rw [showTree_of_no_errors hno, he]
    simp only [exitAfter_write, exitAfter_report]
    exact .failed hno he hv
  | @foreign e o _ he hv =>
    exact absurd hv ((TokenReader.regular_of_parse he).evaluate_ne_foreign o)

theorem exists_end_mem (line : Nat) (pieces : List Piece) :
    ∃ last, .ok (.endOfInput last) ∈ entriesFrom line pieces := by
  induction pieces generalizing line with
  | nil => exact ⟨line, List.mem_singleton_self _⟩
  | cons p rest ih =>
    obtain ⟨last, hlast⟩ := ih (line + p.lineBreaks)
    exact ⟨last, List.mem_append_right _ hlast⟩

theorem tokens_ne_nil (source : String) : (Scan.ofText source).tokens ≠ [] := by
  obtain ⟨last, hlast⟩ := exists_end_mem 1 (Piece.cut source.toList)
  have hmem : .endOfInput last ∈ (Scan.ofText source).tokens :=
    List.mem_filterMap.mpr ⟨_, hlast, rfl⟩
  exact List.ne_nil_of_mem hmem

theorem encode_intercalate {texts : List String} (h : texts ≠ []) :
    encode (String.intercalate "\n" texts ++ "\n") =
      texts.flatMap fun text => encode (text ++ "\n") := by
  induction texts with
  | nil => exact absurd rfl h
  | cons text rest ih =>
    cases rest with
    | nil => simp
    | cons next others =>
      rw [String.intercalate_cons_cons, String.append_assoc, Utf8.encode_append,
        ih (List.cons_ne_nil _ _)]
      rfl

/-- The stage of the tokens shows each of them, and leaves the errors of the scan behind. -/
theorem runText_tokens (source : String) :
    Console.runText .tokens source =
      ⟨if (Scan.ofText source).errors.isEmpty then 0 else 65,
        (Scan.ofText source).tokens.flatMap fun t => encode (t.text ++ "\n"),
        reportText (Scan.diagnostics source)⟩ := by
  have htokens : (Scan.ofText source).tokens.map Token.text ≠ [] := by
    simpa using tokens_ne_nil source
  have hexit : Console.runText .tokens source = _ :=
    ((holds_unlimited.reportAll (Scan.diagnostics source)).write _).exitOf_eq _
  rw [hexit, List.nil_append, encode_intercalate htokens, List.flatMap_map]
  exact congrArg (Exit.mk · _ _) (statusOf_diagnostics source)

theorem reportText_of_no_errors (h : (Scan.ofText source).errors = []) :
    reportText (Scan.diagnostics source) = [] := by
  rw [Scan.diagnostics, h]
  rfl

theorem reportText_of_errors (h : (Scan.ofText source).errors ≠ []) :
    reportText (Scan.diagnostics source) ≠ [] := by
  obtain ⟨err, rest, herrors⟩ := List.exists_cons_of_ne_nil h
  rw [Scan.diagnostics, herrors, List.map_cons, reportText, List.flatMap_cons]
  exact List.append_ne_nil_of_left_ne_nil err.diagnostic.written_ne_nil _

namespace Exits

variable {tree value : Exit}

theorem reportText_prefix (h : Exits source tree value) :
    reportText (Scan.diagnostics source) <+: tree.errors := by
  cases h with
  | stopped _ => exact List.prefix_refl _
  | refused hno _ => exact reportText_of_no_errors hno ▸ List.nil_prefix
  | failed hno _ _ => exact reportText_of_no_errors hno ▸ List.nil_prefix
  | written hno _ _ => exact reportText_of_no_errors hno ▸ List.nil_prefix

theorem errors_prefix (h : Exits source tree value) : tree.errors <+: value.errors := by
  cases h with
  | stopped _ => exact List.prefix_refl _
  | refused _ _ => exact List.prefix_refl _
  | failed _ _ _ => exact List.nil_prefix
  | written _ _ _ => exact List.nil_prefix

/-- An error of the scan ends all stages alike. -/
theorem eq_of_reportText (h : Exits source tree value)
    (hne : reportText (Scan.diagnostics source) ≠ []) :
    tree = ⟨65, [], reportText (Scan.diagnostics source)⟩ ∧ value = tree := by
  cases h with
  | stopped _ => exact ⟨rfl, rfl⟩
  | refused hno _ => exact absurd (reportText_of_no_errors hno) hne
  | failed hno _ _ => exact absurd (reportText_of_no_errors hno) hne
  | written hno _ _ => exact absurd (reportText_of_no_errors hno) hne

theorem status_static_iff (h : Exits source tree value) :
    tree.status = 65 ↔ value.status = 65 := by
  cases h <;> simp

theorem status_runtime_iff (h : Exits source tree value) : value.status = 70 ↔
    tree.errors = [] ∧ ∃ d : Diagnostic, d.isRuntime = true ∧
      value.errors = tree.errors ++ d.written := by
  cases h with
  | stopped hsome => simp [reportText_of_errors hsome]
  | @refused err _ _ => simp [err.diagnostic.written_ne_nil]
  | @failed _ err _ _ _ => simpa using ⟨err.diagnostic, rfl, rfl⟩
  | written _ _ _ =>
    have hnone : ∀ d : Diagnostic, [] ≠ d.written := fun d => d.written_ne_nil.symm
    simp [hnone]

theorem status_zero_iff (h : Exits source tree value) :
    value.status = 0 ↔ value.output ≠ [] := by
  cases h <;> simp [Utf8.encode_line_ne_nil]

theorem status_not_static_iff (h : Exits source tree value) :
    tree.status ≠ 65 ↔ tree.output ≠ [] := by
  cases h <;> simp [Utf8.encode_line_ne_nil]

theorem exists_of_tree_output (h : Exits source tree value) (hne : tree.output ≠ []) :
    ∃ e, Expr.ofTokens (Scan.ofText source).tokens = .ok e ∧
      tree.output = encode (e.text ++ "\n") := by
  cases h with
  | stopped _ => exact absurd rfl hne
  | refused _ _ => exact absurd rfl hne
  | failed _ he _ => exact ⟨_, he, rfl⟩
  | written _ he _ => exact ⟨_, he, rfl⟩

theorem exists_of_value_output (h : Exits source tree value) (hne : value.output ≠ []) :
    ∃ e v, Expr.ofTokens (Scan.ofText source).tokens = .ok e ∧ e.evaluate = .ok v ∧
      tree.output = encode (e.text ++ "\n") ∧ value.output = encode (v.text ++ "\n") := by
  cases h with
  | stopped _ => exact absurd rfl hne
  | refused _ _ => exact absurd rfl hne
  | failed _ _ _ => exact absurd rfl hne
  | written _ he hv => exact ⟨_, _, he, hv, rfl, rfl⟩

end Exits

theorem run_eq_runText {args : List String} {name : String} {stage : Stage}
    {find : String → Except ReadFault (List UInt8)}
    (hargs : Request.ofArguments args = .evaluate (some name) stage)
    (hfind : find name = .ok (encode source)) (input : List UInt8) :
    Console.run args find input = Console.runText stage source := by
  simp only [Console.run, hargs, Console.runFile, hfind, Console.textOf,
    Utf8.decode?_eq_some_iff.mpr rfl]

/-- The program on a file that is a text, for each of the stages. The errors of a stage go on those
of the stage before it. An error of the scan ends all stages alike, and any static error those of
the tree and of the value. Only the evaluation may add an error, and it does so exactly if the exit
status says so. The tokens are always shown, the tree unless there is a static error, and the value
if there is no error; it is the value of the very tree that is shown. -/
theorem stages_agree {tokensArgs treeArgs valueArgs : List String} {name : String}
    (htokens : Request.ofArguments tokensArgs = .evaluate (some name) .tokens)
    (htree : Request.ofArguments treeArgs = .evaluate (some name) .tree)
    (hvalue : Request.ofArguments valueArgs = .evaluate (some name) .value)
    {find : String → Except ReadFault (List UInt8)} {source : String}
    (hfind : find name = .ok (encode source)) (input : List UInt8) :
    let tokens := Console.run tokensArgs find input
    let tree := Console.run treeArgs find input
    let value := Console.run valueArgs find input
    tokens.errors <+: tree.errors ∧ tree.errors <+: value.errors ∧
    (tokens.errors ≠ [] → tree.errors = tokens.errors ∧ value.errors = tokens.errors ∧
      tokens.status = 65 ∧ tree.status = 65 ∧ value.status = 65) ∧
    (tree.status = 65 ↔ value.status = 65) ∧
    (value.status = 70 ↔ tree.errors = [] ∧ ∃ d : Diagnostic, d.isRuntime = true ∧
      value.errors = tree.errors ++ encode (d.text ++ "\n")) ∧
    (value.status = 0 ↔ value.output ≠ []) ∧
    (tree.status ≠ 65 ↔ tree.output ≠ []) ∧
    tokens.output = ((Scan.ofText source).tokens.flatMap fun t => encode (t.text ++ "\n")) ∧
    (tree.output ≠ [] → ∃ e, Expr.ofTokens (Scan.ofText source).tokens = .ok e ∧
      tree.output = encode (e.text ++ "\n")) ∧
    (value.output ≠ [] → ∃ e v, Expr.ofTokens (Scan.ofText source).tokens = .ok e ∧
      e.evaluate = .ok v ∧ tree.output = encode (e.text ++ "\n") ∧
      value.output = encode (v.text ++ "\n")) := by
  intro tokens tree value
  have hshown : tokens = _ := (run_eq_runText htokens hfind input).trans (runText_tokens source)
  have hexits : Exits source tree value := by
    simp only [tree, value, run_eq_runText htree hfind, run_eq_runText hvalue hfind]
    exact exits source
  rw [hshown]
  refine ⟨hexits.reportText_prefix, hexits.errors_prefix, fun hne => ?_,
    hexits.status_static_iff, hexits.status_runtime_iff, hexits.status_zero_iff,
    hexits.status_not_static_iff, rfl, hexits.exists_of_tree_output,
    hexits.exists_of_value_output⟩
  obtain ⟨htreeExit, hsame⟩ := hexits.eq_of_reportText hne
  have hsome : ¬ (Scan.ofText source).errors.isEmpty = true := fun hempty =>
    hne (reportText_of_no_errors (List.isEmpty_iff.mp hempty))
  rw [hsame, htreeExit]
  exact ⟨rfl, rfl, if_neg hsome, rfl, rfl⟩

/-- A comparison that fails when it is evaluated. The stage of the value is the default one. -/
theorem stages_agree_comparison :
    Request.ofArguments ["a.lox", "--emit", "tokens"] = .evaluate (some "a.lox") .tokens ∧
      Request.ofArguments ["a.lox", "--emit", "ast"] = .evaluate (some "a.lox") .tree ∧
      Request.ofArguments ["a.lox"] = .evaluate (some "a.lox") .value ∧
      (Console.run ["a.lox"] (fun _ => .ok (encode "(nil)\n< true")) []).status = 70 := by
  have hname : Arguments.Form.of "a.lox" = .file := by cbv
  have htokens : Request.ofArguments ["a.lox", "--emit", "tokens"] =
      .evaluate (some "a.lox") .tokens := Prompt.ofArguments_file_emit hname (by decide) rfl
  have htree : Request.ofArguments ["a.lox", "--emit", "ast"] =
      .evaluate (some "a.lox") .tree := Prompt.ofArguments_file_emit hname (by decide) rfl
  have hvalue : Request.ofArguments ["a.lox"] = .evaluate (some "a.lox") .value := by cbv
  obtain ⟨-, -, -, -, hruntime, -⟩ := @stages_agree _ _ _ _ htokens htree hvalue
    (fun _ => .ok (encode "(nil)\n< true")) "(nil)\n< true" rfl []
  refine ⟨htokens, htree, hvalue, hruntime.mpr ⟨?_, .runtime 2 "Operand must be number.", rfl, ?_⟩⟩
  · cbv
  · cbv

end Reckoner.StageAgreement
