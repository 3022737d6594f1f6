import Reckoner.Proofs.FreshRuns
import Reckoner.Proofs.ParsedOperators

/-!
The outcomes of a run. A run is stopped by a static error, new or old, or the parser refuses its
tokens, or evaluation fails, or the run writes a value. Flags that are set before a run decide only
whether it is stopped, so in each case it is known what it reports and writes and which flags are
set afterwards.
-/

namespace Reckoner

/-- What a run reports and writes, and the flags after it. -/
structure Outcome where
  reported : List Diagnostic
  written : String
  hadError : Bool
  hadRuntimeError : Bool

namespace Outcome

/-- The outcomes of a run by the flags before it. -/
inductive Of (source : String) (hadError hadRuntimeError : Bool) : Outcome → Prop
  | stopped (h : (Scan.ofText source).errors ≠ [] ∨ hadError = true) :
      Of source hadError hadRuntimeError
        ⟨Scan.diagnostics source, "", true, hadRuntimeError⟩
  | refused {err : SyntaxError} (hno : (Scan.ofText source).errors = [])
      (hflag : hadError = false)
      (he : Expr.ofTokens (Scan.ofText source).tokens = .error err) :
      Of source hadError hadRuntimeError ⟨[err.diagnostic], "", true, hadRuntimeError⟩
  | failed {e : Expr} {err : RuntimeError} (hno : (Scan.ofText source).errors = [])
      (hflag : hadError = false) (he : Expr.ofTokens (Scan.ofText source).tokens = .ok e)
      (hv : e.evaluate = .error (.mismatch err)) :
      Of source hadError hadRuntimeError ⟨[err.diagnostic], "", hadError, true⟩
  | written {e : Expr} {v : Value} (hno : (Scan.ofText source).errors = [])
      (hflag : hadError = false) (he : Expr.ofTokens (Scan.ofText source).tokens = .ok e)
      (hv : e.evaluate = .ok v) :
      Of source hadError hadRuntimeError ⟨[], v.text ++ "\n", hadError, hadRuntimeError⟩

/-- The session after an outcome, with all that its output held and was reported to it before. -/
def session (o : Outcome) (held : List UInt8) (reporter : Reporter) : Session where
  output := ⟨none, held ++ Utf8.encode o.written⟩
  journal := ⟨o.hadError, o.hadRuntimeError, o.reported.foldl Reporter.report reporter⟩

variable {source : String} {hadError hadRuntimeError : Bool}

theorem encode_empty : Utf8.encode "" = [] := rfl

theorem session_reportAll (held : List UInt8) (reporter : Reporter) (ds : List Diagnostic) :
    (⟨⟨none, held⟩, ⟨hadError, hadRuntimeError, reporter⟩⟩ : Session).reportAll ds =
      session ⟨ds, "", hadError || ds.any (!·.isRuntime), hadRuntimeError || ds.any (·.isRuntime)⟩
        held reporter := by
  rw [Session.reportAll, Journal.reportAll_eq, session, encode_empty, List.append_nil]

theorem session_report (held : List UInt8) (reporter : Reporter) (d : Diagnostic) :
    (⟨⟨none, held⟩, ⟨hadError, hadRuntimeError, reporter⟩⟩ : Session).report d =
      session ⟨[d], "", hadError || !d.isRuntime, hadRuntimeError || d.isRuntime⟩
        held reporter := by
  rw [session, encode_empty, List.append_nil]
  rfl

theorem session_write (held : List UInt8) (reporter : Reporter) (text : String) :
    (⟨⟨none, held⟩, ⟨hadError, hadRuntimeError, reporter⟩⟩ : Session).write text =
      (session ⟨[], text, hadError, hadRuntimeError⟩ held reporter, .completed) := by
  simp [Session.write, Sink.write, Sink.keep, session]

/-- A stopped run knows a static error afterwards: one of its own, or an older one. -/
theorem run_stopped (hstop : (Scan.ofText source).errors ≠ [] ∨ hadError = true)
    (held : List UInt8) (reporter : Reporter) :
    (⟨⟨none, held⟩, ⟨hadError, hadRuntimeError, reporter⟩⟩ : Session).run source =
      (session ⟨Scan.diagnostics source, "", true, hadRuntimeError⟩ held reporter,
        .completed) := by
  have hset : (hadError || (Scan.diagnostics source).any (!·.isRuntime)) = true := by
    rw [Scan.any_static_diagnostics]
    simpa [or_comm] using hstop
  rw [Session.run_of_stopped hstop, session_reportAll, hset, Scan.any_isRuntime_diagnostics,
    Bool.or_false]

theorem run_refused {err : SyntaxError} (hno : (Scan.ofText source).errors = [])
    (he : Expr.ofTokens (Scan.ofText source).tokens = .error err) (held : List UInt8)
    (reporter : Reporter) :
    (⟨⟨none, held⟩, ⟨false, hadRuntimeError, reporter⟩⟩ : Session).run source =
      (session ⟨[err.diagnostic], "", true, hadRuntimeError⟩ held reporter, .completed) := by
  rw [Session.run_of_no_errors rfl hno, he]
  simp only [session_report, SyntaxError.diagnostic, Diagnostic.isRuntime, Bool.not_false,
    Bool.or_true, Bool.or_false]

theorem run_failed {e : Expr} {err : RuntimeError} (hno : (Scan.ofText source).errors = [])
    (he : Expr.ofTokens (Scan.ofText source).tokens = .ok e)
    (hv : e.evaluate = .error (.mismatch err)) (held : List UInt8) (reporter : Reporter) :
    (⟨⟨none, held⟩, ⟨false, hadRuntimeError, reporter⟩⟩ : Session).run source =
      (session ⟨[err.diagnostic], "", false, true⟩ held reporter, .completed) := by
  rw [Session.run_of_no_errors rfl hno, he]
  simp only [Session.interpret_mismatch hv, session_report, RuntimeError.diagnostic,
    Diagnostic.isRuntime, Bool.not_true, Bool.or_true, Bool.or_false]

theorem run_written {e : Expr} {v : Value} (hno : (Scan.ofText source).errors = [])
    (he : Expr.ofTokens (Scan.ofText source).tokens = .ok e) (hv : e.evaluate = .ok v)
    (held : List UInt8) (reporter : Reporter) :
    (⟨⟨none, held⟩, ⟨false, hadRuntimeError, reporter⟩⟩ : Session).run source =
      (session ⟨[], v.text ++ "\n", false, hadRuntimeError⟩ held reporter, .completed) := by
  rw [Session.run_of_no_errors rfl hno, he]
  simp only [Session.interpret_ok hv, session_write]

/-- Whatever the output holds and wherever the reports go, the run has one of the outcomes. -/
theorem exists_of (source : String) (hadError hadRuntimeError : Bool) :
    ∃ o, Of source hadError hadRuntimeError o ∧ ∀ held reporter,
      (⟨⟨none, held⟩, ⟨hadError, hadRuntimeError, reporter⟩⟩ : Session).run source =
        (o.session held reporter, .completed) := by
  by_cases hstop : (Scan.ofText source).errors ≠ [] ∨ hadError = true
  · exact ⟨_, .stopped hstop, run_stopped hstop⟩
  · obtain ⟨hsome, hflag⟩ := not_or.mp hstop
    have hno : (Scan.ofText source).errors = [] := not_not.mp hsome
    obtain rfl : hadError = false := Bool.eq_false_iff.mpr hflag
    cases he : Expr.ofTokens (Scan.ofText source).tokens with
    | error err => exact ⟨_, .refused hno rfl he, run_refused hno he⟩
    | ok e =>
      cases hv : e.evaluate with
      | ok v => exact ⟨_, .written hno rfl he hv, run_written hno he hv⟩
      | error failure =>
        cases failure with
        | mismatch err => exact ⟨_, .failed hno rfl he hv, run_failed hno he hv⟩
        | foreign o => exact absurd hv ((TokenReader.regular_of_parse he).evaluate_ne_foreign o)

/-- The outcomes exclude each other. -/
theorem Of.unique {o o' : Outcome} (h : Of source hadError hadRuntimeError o)
    (h' : Of source hadError hadRuntimeError o') : o = o' := by
  cases h <;> cases h' <;> simp_all

theorem Of.reported_or_written {o : Outcome} (h : Of source hadError hadRuntimeError o) :
    o.reported = [] ∨ o.written = "" := by
  cases h with
  | stopped _ => exact .inr rfl
  | refused _ _ _ => exact .inr rfl
  | failed _ _ _ _ => exact .inr rfl
  | written _ _ _ _ => exact .inl rfl

theorem Of.static_or_runtime {o : Outcome} (h : Of source hadError hadRuntimeError o) :
    (∀ d ∈ o.reported, d.isRuntime = false) ∨ ∀ d ∈ o.reported, d.isRuntime = true := by
  cases h with
  | stopped _ => exact .inl (by simpa using Scan.any_isRuntime_diagnostics source)
  | refused _ _ _ => exact .inl (by simp [SyntaxError.diagnostic, Diagnostic.isRuntime])
  | failed _ _ _ _ => exact .inr (by simp [RuntimeError.diagnostic, Diagnostic.isRuntime])
  | written _ _ _ _ => exact .inl (by simp)

/-- Whatever the flags are before a run, it has exactly one of the outcomes: it is stopped, or
refused, or it fails, or it writes a value. The output and the reporter take what the outcome says
and have no influence on it. No outcome has both a diagnostic and a text, or diagnostics of both
kinds. -/
theorem run_has_one_outcome (source : String) (hadError hadRuntimeError : Bool) :
    ∃ o, (∀ o', Of source hadError hadRuntimeError o' ↔ o' = o) ∧
      (∀ held reporter,
        (⟨⟨none, held⟩, ⟨hadError, hadRuntimeError, reporter⟩⟩ : Session).run source =
          (o.session held reporter, .completed)) ∧
      (o.reported = [] ∨ o.written = "") ∧
      ((∀ d ∈ o.reported, d.isRuntime = false) ∨ ∀ d ∈ o.reported, d.isRuntime = true) := by
  obtain ⟨o, ho, hrun⟩ := exists_of source hadError hadRuntimeError
  refine ⟨o, fun o' => ⟨fun ho' => ho'.unique ho, fun heq => heq ▸ ho⟩, hrun, ?_, ?_⟩
  · exact ho.reported_or_written
  · exact ho.static_or_runtime

end Outcome

end Reckoner
