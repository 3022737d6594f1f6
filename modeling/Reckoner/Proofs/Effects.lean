import Reckoner.Proofs.FreshRuns

/-!
The effects of steps. A step reports diagnostics, and then it gives an answer or comes to a value
that is to be written. Both depend on the step and on whether a static error is known, and neither
on what the session has written and reported before.
-/

namespace Reckoner

open Session (Answer Step)

/-- What a step comes to: an answer, or a value that is to be written. -/
inductive Finish
  | answer (answer : Answer)
  | value (v : Value)

def Finish.written : Finish → List UInt8
  | answer _ => []
  | value v => Utf8.encode (v.text ++ "\n")

/-- What a step adds to a session: it reports diagnostics and then comes to its finish. -/
structure Effect where
  reported : List Diagnostic
  finish : Finish

namespace Effect

def syntactic : Except SyntaxError Expr → List Diagnostic
  | .ok _ => []
  | .error err => [err.diagnostic]

def ofExpr (e : Expr) : Effect :=
  match e.evaluate with
  | .ok v => ⟨[], .value v⟩
  | .error (.mismatch err) => ⟨[err.diagnostic], .answer (.ended .completed)⟩
  | .error (.foreign o) => ⟨[], .answer (.ended (.foreign o))⟩

def ofRun (hadError : Bool) (source : String) : Effect :=
  if hadError || !(Scan.ofText source).errors.isEmpty then
    ⟨Scan.diagnostics source, .answer (.ended .completed)⟩
  else match Expr.ofTokens (Scan.ofText source).tokens with
    | .ok e => ofExpr e
    | .error err => ⟨[err.diagnostic], .answer (.ended .completed)⟩

/-- What a step adds, given whether a static error is known. -/
def ofStep (hadError : Bool) : Step → Effect
  | .run source => ofRun hadError source
  | .scan source =>
    ⟨Scan.diagnostics source, .answer (.tokenCount (Scan.ofText source).tokens.length)⟩
  | .parse source =>
    let result := Expr.ofTokens (Scan.ofText source).tokens
    ⟨Scan.diagnostics source ++ syntactic result, .answer (.parsed result)⟩
  | .interpret e => ofExpr e
  | .report d => ⟨[d], .answer (.ended .completed)⟩
  | .reset => ⟨[], .answer (.ended .completed)⟩

def applied (a : Effect) (s : Session) : Session × Answer :=
  match a.finish with
  | .answer answer => (s.reportAll a.reported, answer)
  | .value v =>
    let (after, ending) := (s.reportAll a.reported).write (v.text ++ "\n")
    (after, .ended ending)

end Effect

namespace Session

theorem perform_interpret (s : Session) (e : Expr) :
    s.perform (.interpret e) = (Effect.ofExpr e).applied s := by
  unfold Effect.ofExpr
  cases hv : e.evaluate with
  | ok v => simp only [perform, interpret_ok hv]; rfl
  | error failure =>
    cases failure with
    | mismatch err => simp only [perform, interpret_mismatch hv]; rfl
    | foreign o => simp only [perform, interpret_foreign hv]; rfl

theorem perform_run (s : Session) (source : String) :
    s.perform (.run source) = (Effect.ofRun s.journal.hadError source).applied s := by
  unfold Effect.ofRun
  split
  · next hstop =>
    have hstop : (Scan.ofText source).errors ≠ [] ∨ s.journal.hadError = true := by
      simpa [or_comm] using hstop
    simp only [perform, run_of_stopped hstop]
    rfl
  · next hgo =>
    obtain ⟨hflag, hno⟩ : s.journal.hadError = false ∧ (Scan.ofText source).errors = [] := by
      simpa using hgo
    simp only [perform, run_of_no_errors hflag hno]
    cases Expr.ofTokens (Scan.ofText source).tokens with
    | ok e => exact perform_interpret s e
    | error err => rfl

theorem perform_parse (s : Session) (source : String) :
    s.perform (.parse source) = (Effect.ofStep s.journal.hadError (.parse source)).applied s := by
  have happend (ds ds' : List Diagnostic) :
      s.reportAll (ds ++ ds') = (s.reportAll ds).reportAll ds' := by
    simp only [reportAll, Journal.reportAll, List.foldl_append]
  simp only [perform, scan_eq, Effect.ofStep, Effect.applied, happend, Expr.ofTokens]
  cases h : (TokenReader.ofTokens (Scan.ofText source).tokens).parse.1 with
  | ok e => simp only [parse_ok h]; rfl
  | error err => simp only [parse_error h]; rfl

/-- What a step does, whatever the session has written and reported before. -/
theorem perform_of_ne_reset (s : Session) {step : Step} (hstep : step ≠ .reset) :
    s.perform step = (Effect.ofStep s.journal.hadError step).applied s := by
  cases step with
  | run source => exact perform_run s source
  | scan source => rfl
  | parse source => exact perform_parse s source
  | interpret e => exact perform_interpret s e
  | report d => rfl
  | reset => exact absurd rfl hstep

end Session

end Reckoner
