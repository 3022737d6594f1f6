import Reckoner.Proofs.Reports
import Reckoner.Session

/-!
Runs of fresh sessions. The flags of a fresh session are not set, so what it does with a text
depends on the text alone: it reports the errors of the scan, or the syntax error, or it writes the
value of the expression or reports why there is none. All that is known of a run follows from the
course that it takes.
-/

namespace Reckoner

namespace Journal

theorem reset_eq_self_iff {j : Journal} :
    j.reset = j ↔ j.hadError = false ∧ j.hadRuntimeError = false := by
  obtain ⟨hadError, hadRuntimeError, reporter⟩ := j
  simp only [reset, ofReporter, mk.injEq, and_true]
  exact ⟨fun h => ⟨h.1.symm, h.2.symm⟩, fun h => ⟨h.1.symm, h.2.symm⟩⟩

end Journal

namespace Session

/-- Whether no flag of the journal is set. -/
def Fresh (s : Session) : Prop := s.journal.reset = s.journal

theorem fresh_reset (s : Session) : s.reset.Fresh := rfl

theorem fresh_unlimited : Fresh unlimited := rfl

/-- Reports diagnostics in order. -/
def reportAll (s : Session) (ds : List Diagnostic) : Session :=
  ⟨s.output, s.journal.reportAll ds⟩

theorem scan_eq (s : Session) (source : String) :
    s.scan source = (s.reportAll ((Scan.ofText source).errors.map LexicalError.diagnostic),
      (Scan.ofText source).tokens) := rfl

variable {s : Session} {source : String}

theorem parse_ok {r : TokenReader} {e : Expr} (h : r.parse.1 = .ok e) :
    s.parse r = (s, .ok e, r.parse.2) := by
  simp only [parse, h]

theorem parse_error {r : TokenReader} {err : SyntaxError} (h : r.parse.1 = .error err) :
    s.parse r = (s.report err.diagnostic, .error err, r.parse.2) := by
  simp only [parse, h]

theorem interpret_ok {e : Expr} {v : Value} (h : e.evaluate = .ok v) :
    s.interpret e = s.write (v.text ++ "\n") := by
  simp only [interpret, h]

theorem interpret_mismatch {e : Expr} {err : RuntimeError}
    (h : e.evaluate = .error (.mismatch err)) :
    s.interpret e = (s.report err.diagnostic, .completed) := by
  simp only [interpret, h]

theorem interpret_foreign {e : Expr} {o : ForeignOperator}
    (h : e.evaluate = .error (.foreign o)) : s.interpret e = (s, .foreign o) := by
  simp only [interpret, h]

theorem scan_of_no_errors (h : (Scan.ofText source).errors = []) :
    s.scan source = (s, (Scan.ofText source).tokens) := by
  rw [scan_eq, h]
  rfl

/-- An error of the scan sets a flag. -/
theorem hadError_scan_of_errors (h : (Scan.ofText source).errors ≠ []) :
    (s.scan source).1.journal.hadError = true := by
  obtain ⟨e, rest, herrors⟩ := List.exists_cons_of_ne_nil h
  rw [scan_eq, reportAll, Journal.hadError_reportAll, herrors]
  simp [LexicalError.diagnostic, Diagnostic.isRuntime]

/-- A static error, new or old, stops a run behind its scan. -/
theorem run_of_stopped (h : (Scan.ofText source).errors ≠ [] ∨ s.journal.hadError = true) :
    s.run source = (s.reportAll (Scan.diagnostics source), .completed) := by
  have hflag : (s.scan source).1.journal.hadError = true := by
    rcases h with herrors | hold
    · exact hadError_scan_of_errors herrors
    · rw [scan_eq, reportAll, Journal.hadError_reportAll, hold, Bool.true_or]
  simp only [run, hflag, if_true]
  rfl

theorem run_of_errors (h : (Scan.ofText source).errors ≠ []) :
    s.run source =
      (s.reportAll ((Scan.ofText source).errors.map LexicalError.diagnostic), .completed) :=
  run_of_stopped (.inl h)

/-- Without a static error, new or old, a run goes on to the expression. -/
theorem run_of_no_errors (hflag : s.journal.hadError = false)
    (h : (Scan.ofText source).errors = []) :
    s.run source = match Expr.ofTokens (Scan.ofText source).tokens with
      | .ok e => s.interpret e
      | .error err => (s.report err.diagnostic, .completed) := by
  simp only [run, scan_of_no_errors h, hflag, Bool.false_eq_true, if_false]
  unfold Expr.ofTokens
  cases hparse : (TokenReader.ofTokens (Scan.ofText source).tokens).parse.1 with
  | ok e => simp only [parse_ok hparse]
  | error err => simp only [parse_error hparse]

theorem Fresh.hadError_eq_false (hs : s.Fresh) : s.journal.hadError = false :=
  (Journal.reset_eq_self_iff.mp hs).1

theorem Fresh.run_of_no_errors (hs : s.Fresh) (h : (Scan.ofText source).errors = []) :
    s.run source = match Expr.ofTokens (Scan.ofText source).tokens with
      | .ok e => s.interpret e
      | .error err => (s.report err.diagnostic, .completed) :=
  Session.run_of_no_errors hs.hadError_eq_false h

/-- What fresh sessions do with a text, for each way that the work on it may end. -/
inductive Course (source : String) : (Session → Session × Ending) → Prop
  | lexical (h : (Scan.ofText source).errors ≠ []) : Course source fun s =>
      (s.reportAll ((Scan.ofText source).errors.map LexicalError.diagnostic), .completed)
  | refused {err : SyntaxError} (hno : (Scan.ofText source).errors = [])
      (he : Expr.ofTokens (Scan.ofText source).tokens = .error err) :
      Course source fun s => (s.report err.diagnostic, .completed)
  | written {e : Expr} {v : Value} (hno : (Scan.ofText source).errors = [])
      (he : Expr.ofTokens (Scan.ofText source).tokens = .ok e) (hv : e.evaluate = .ok v) :
      Course source fun s => s.write (v.text ++ "\n")
  | failed {e : Expr} {err : RuntimeError} (hno : (Scan.ofText source).errors = [])
      (he : Expr.ofTokens (Scan.ofText source).tokens = .ok e)
      (hv : e.evaluate = .error (.mismatch err)) :
      Course source fun s => (s.report err.diagnostic, .completed)
  | foreign {e : Expr} {o : ForeignOperator} (hno : (Scan.ofText source).errors = [])
      (he : Expr.ofTokens (Scan.ofText source).tokens = .ok e)
      (hv : e.evaluate = .error (.foreign o)) : Course source fun s => (s, .foreign o)

theorem exists_course (source : String) :
    ∃ act, Course source act ∧ ∀ s : Session, s.Fresh → s.run source = act s := by
  by_cases hno : (Scan.ofText source).errors = []
  · cases he : Expr.ofTokens (Scan.ofText source).tokens with
    | error err =>
      refine ⟨_, .refused hno he, fun s hs => ?_⟩
      rw [hs.run_of_no_errors hno, he]
    | ok e =>
      have hrun : ∀ s : Session, s.Fresh → s.run source = s.interpret e := by
        intro s hs
        rw [hs.run_of_no_errors hno, he]
      cases hv : e.evaluate with
      | ok v => exact ⟨_, .written hno he hv, fun s hs => (hrun s hs).trans (interpret_ok hv)⟩
      | error failure =>
        cases failure with
        | mismatch err =>
          exact ⟨_, .failed hno he hv, fun s hs => (hrun s hs).trans (interpret_mismatch hv)⟩
        | foreign o =>
          exact ⟨_, .foreign hno he hv, fun s hs => (hrun s hs).trans (interpret_foreign hv)⟩
  · exact ⟨_, .lexical hno, fun s _ => run_of_errors hno⟩

end Session

end Reckoner
