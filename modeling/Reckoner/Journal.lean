import Reckoner.Diagnostic
import Reckoner.Sink

/-!
Journals of diagnostics. A journal remembers which kinds of diagnostics were reported since its
flags were last reset, and hands each diagnostic on to its reporter.
-/

namespace Reckoner

/-- A reporter keeps diagnostics, or writes them to a sink one after another. A diagnostic that
cannot be written whole is counted as a failure and is otherwise ignored. -/
inductive Reporter
  | keeping (kept : List Diagnostic)
  | writing (sink : Sink) (failures : Nat)

namespace Reporter

def collecting : Reporter := keeping []

def writingTo (capacity : Option Nat) : Reporter := writing (Sink.empty capacity) 0

def report (r : Reporter) (d : Diagnostic) : Reporter :=
  match r with
  | keeping kept => keeping (kept ++ [d])
  | writing sink failures =>
    let (after, fitted) := sink.write (d.text ++ "\n")
    writing after (if fitted then failures else failures + 1)

def kept : Reporter → List Diagnostic
  | keeping kept => kept
  | writing .. => []

def written : Reporter → List UInt8
  | keeping _ => []
  | writing sink _ => sink.held

def failures : Reporter → Nat
  | keeping _ => 0
  | writing _ failures => failures

end Reporter

structure Journal where
  hadError : Bool
  hadRuntimeError : Bool
  reporter : Reporter

namespace Journal

def ofReporter (reporter : Reporter) : Journal := ⟨false, false, reporter⟩

def report (j : Journal) (d : Diagnostic) : Journal where
  hadError := j.hadError || !d.isRuntime
  hadRuntimeError := j.hadRuntimeError || d.isRuntime
  reporter := j.reporter.report d

/-- Reports diagnostics in order. -/
def reportAll (j : Journal) (ds : List Diagnostic) : Journal := ds.foldl report j

/-- Forgets the flags. What was reported stays reported. -/
def reset (j : Journal) : Journal := ofReporter j.reporter

theorem reportAll_cons (j : Journal) (d : Diagnostic) (rest : List Diagnostic) :
    j.reportAll (d :: rest) = (j.report d).reportAll rest := rfl

theorem hadError_reportAll (j : Journal) (ds : List Diagnostic) :
    (j.reportAll ds).hadError = (j.hadError || ds.any (!·.isRuntime)) := by
  induction ds generalizing j with
  | nil => simp [reportAll]
  | cons d rest ih =>
    rw [reportAll_cons, ih]
    simp [report, Bool.or_assoc]

theorem hadRuntimeError_reportAll (j : Journal) (ds : List Diagnostic) :
    (j.reportAll ds).hadRuntimeError = (j.hadRuntimeError || ds.any (·.isRuntime)) := by
  induction ds generalizing j with
  | nil => simp [reportAll]
  | cons d rest ih =>
    rw [reportAll_cons, ih]
    simp [report, Bool.or_assoc]

theorem reporter_reportAll (j : Journal) (ds : List Diagnostic) :
    (j.reportAll ds).reporter = ds.foldl Reporter.report j.reporter := by
  induction ds generalizing j with
  | nil => rfl
  | cons d rest ih => rw [reportAll_cons, ih, List.foldl_cons, report]

/-- All that reporting changes: the flags know the kinds of the diagnostics, and the reporter takes
the diagnostics themselves. -/
theorem reportAll_eq (j : Journal) (ds : List Diagnostic) :
    j.reportAll ds = ⟨j.hadError || ds.any (!·.isRuntime), j.hadRuntimeError || ds.any (·.isRuntime),
      ds.foldl Reporter.report j.reporter⟩ := by
  rw [← hadError_reportAll, ← hadRuntimeError_reportAll, ← reporter_reportAll]

end Journal

end Reckoner
