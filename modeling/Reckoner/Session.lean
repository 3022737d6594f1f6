import Reckoner.Expr.Evaluation
import Reckoner.Journal
import Reckoner.Scan
import Reckoner.TokenReader

/-!
Sessions, in which texts are scanned, parsed and run one after another. They share one journal and
one output. A text is run only while the journal shows no static error, not even an earlier one.
-/

namespace Reckoner

structure Session where
  output : Sink
  journal : Journal

/-- How running a text or an expression ended. -/
inductive Ending
  | completed
  | outputFull
  | foreign (o : ForeignOperator)

namespace Session

/-- A session that keeps all that is written and reported to it as text. -/
def unlimited : Session := ⟨.empty none, .ofReporter (.writingTo none)⟩

def report (s : Session) (d : Diagnostic) : Session := ⟨s.output, s.journal.report d⟩

/-- Forgets the flags of the journal. -/
def reset (s : Session) : Session := ⟨s.output, s.journal.reset⟩

def write (s : Session) (text : String) : Session × Ending :=
  let (output, fitted) := s.output.write text
  (⟨output, s.journal⟩, if fitted then .completed else .outputFull)

/-- Scans a text and reports its lexical errors. -/
def scan (s : Session) (source : String) : Session × List Token :=
  let scanned := Scan.ofText source
  (⟨s.output, s.journal.reportAll (scanned.errors.map LexicalError.diagnostic)⟩, scanned.tokens)

/-- Reads an expression and reports a syntax error. -/
def parse (s : Session) (r : TokenReader) : Session × Except SyntaxError Expr × TokenReader :=
  let (result, next) := r.parse
  match result with
  | .ok e => (s, .ok e, next)
  | .error e => (s.report e.diagnostic, .error e, next)

/-- Reads an expression some times in a row, each time from where the last reading stopped. -/
def parseTimes (s : Session) (r : TokenReader) :
    Nat → Session × List (Except SyntaxError Expr) × TokenReader
  | 0 => (s, [], r)
  | n + 1 =>
    let (after, result, next) := s.parse r
    let (last, others, stopped) := after.parseTimes next n
    (last, result :: others, stopped)

/-- Evaluates an expression and writes its value, or reports why it has none. -/
def interpret (s : Session) (e : Expr) : Session × Ending :=
  match e.evaluate with
  | .ok v => s.write (v.text ++ "\n")
  | .error (.mismatch err) => (s.report err.diagnostic, .completed)
  | .error (.foreign o) => (s, .foreign o)

/-- Scans, reads and interprets a text. Nothing follows a static error, old or new. -/
def run (s : Session) (source : String) : Session × Ending :=
  let (scanned, tokens) := s.scan source
  if scanned.journal.hadError then (scanned, .completed)
  else
    let (parsed, result, _) := scanned.parse (.ofTokens tokens)
    match result with
    | .ok e => parsed.interpret e
    | .error _ => (parsed, .completed)

/-- One request to a session. -/
inductive Step
  | run (source : String)
  | scan (source : String)
  | parse (source : String)
  | interpret (e : Expr)
  | report (d : Diagnostic)
  | reset

inductive Answer
  | ended (ending : Ending)
  | tokenCount (n : Nat)
  | parsed (result : Except SyntaxError Expr)

def perform (s : Session) : Step → Session × Answer
  | .run source =>
    let (after, ending) := s.run source
    (after, .ended ending)
  | .scan source =>
    let (after, tokens) := s.scan source
    (after, .tokenCount tokens.length)
  | .parse source =>
    let (scanned, tokens) := s.scan source
    let (after, result, _) := scanned.parse (.ofTokens tokens)
    (after, .parsed result)
  | .interpret e =>
    let (after, ending) := s.interpret e
    (after, .ended ending)
  | .report d => (s.report d, .ended .completed)
  | .reset => (s.reset, .ended .completed)

/-- The sessions after each of some steps in turn, with their answers. -/
def performAll (s : Session) : List Step → List (Session × Answer)
  | [] => []
  | step :: rest =>
    let (after, answer) := s.perform step
    (after, answer) :: after.performAll rest

end Session

end Reckoner
