import Mathlib.Data.List.Forall2
import Reckoner.Proofs.Effects

/-!
The history of a session. Steps have one history, in which diagnostics are reported and values
written, and a session that has gone through them holds what its output and its reporter make of it.
The flags tell which kinds of diagnostics were reported since the last reset.
-/

namespace Reckoner

open Session (Answer Step)

namespace Session

/-- The session after some steps. -/
def after (s : Session) (steps : List Step) : Session :=
  steps.foldl (fun s step => (s.perform step).1) s

/-- Each step is performed by the session that the steps before it lead to. -/
theorem performAll_append (s : Session) (steps later : List Step) :
    s.performAll (steps ++ later) = s.performAll steps ++ (s.after steps).performAll later := by
  induction steps generalizing s with
  | nil => rfl
  | cons step rest ih =>
    simp only [List.cons_append, performAll, ih]
    rfl

/-- A session with an output of the given capacity, to which nothing has been written yet. -/
def start (capacity : Option Nat) (reporter : Reporter) : Session :=
  ⟨.empty capacity, .ofReporter reporter⟩

end Session

/-- All that was reported and written since the start, and what was reported since the last
reset. -/
structure History where
  reported : List Diagnostic
  recent : List Diagnostic
  written : List UInt8

namespace History

def empty : History := ⟨[], [], []⟩

def hadError (h : History) : Bool := h.recent.any (!·.isRuntime)

def hadRuntimeError (h : History) : Bool := h.recent.any (·.isRuntime)

def add (h : History) (a : Effect) : History :=
  ⟨h.reported ++ a.reported, h.recent ++ a.reported, h.written ++ a.finish.written⟩

def next (h : History) : Step → History
  | .reset => ⟨h.reported, [], h.written⟩
  | step => h.add (.ofStep h.hadError step)

def ofSteps (steps : List Step) : History := steps.foldl next empty

/-- What a session holds whose output and reporter were given this history. -/
def session (h : History) (capacity : Option Nat) (reporter : Reporter) : Session where
  output := ⟨capacity, Sink.keep capacity h.written⟩
  journal := ⟨h.hadError, h.hadRuntimeError, h.reported.foldl Reporter.report reporter⟩

variable {capacity : Option Nat} {reporter : Reporter}

theorem next_of_ne_reset (h : History) {step : Step} (hstep : step ≠ .reset) :
    h.next step = h.add (.ofStep h.hadError step) := by
  cases step with
  | reset => exact absurd rfl hstep
  | _ => rfl

theorem reportAll_session (h : History) (ds : List Diagnostic) :
    (h.session capacity reporter).reportAll ds =
      (h.add ⟨ds, .answer (.ended .completed)⟩).session capacity reporter := by
  simp only [Session.reportAll, Journal.reportAll_eq, session, add, hadError, hadRuntimeError,
    List.any_append, List.foldl_append, Finish.written, List.append_nil]

theorem applied_session (h : History) (a : Effect) :
    (a.applied (h.session capacity reporter)).1 = (h.add a).session capacity reporter := by
  obtain ⟨ds, finish⟩ := a
  cases finish with
  | answer answer => exact reportAll_session h ds
  | value v =>
    simp only [Effect.applied, reportAll_session]
    simp only [Session.write, Sink.write, session, add, Finish.written, List.append_nil,
      Sink.keep_keep_append]
    rfl

/-- A step takes what a history has led to where the continued history leads. -/
theorem perform_session (h : History) (step : Step) :
    ((h.session capacity reporter).perform step).1 = (h.next step).session capacity reporter := by
  by_cases hstep : step = .reset
  · subst hstep
    rfl
  · rw [Session.perform_of_ne_reset _ hstep, next_of_ne_reset h hstep]
    exact applied_session h _

theorem after_session (h : History) (steps : List Step) :
    (h.session capacity reporter).after steps = (steps.foldl next h).session capacity reporter := by
  induction steps generalizing h with
  | nil => rfl
  | cons step rest ih =>
    have hfirst : (h.session capacity reporter).after (step :: rest) =
        ((h.session capacity reporter).perform step).1.after rest := rfl
    rw [hfirst, perform_session, ih, List.foldl_cons]

/-- Steps have one history for all outputs and reporters. -/
theorem after_start (capacity : Option Nat) (reporter : Reporter) (steps : List Step) :
    (Session.start capacity reporter).after steps =
      (ofSteps steps).session capacity reporter := by
  have hstart : Session.start capacity reporter = empty.session capacity reporter := by
    rw [session, empty, Sink.keep_nil]
    rfl
  rw [hstart, after_session, ofSteps]

theorem written_next (h : History) (step : Step) : (h.next step).written =
    h.written ++ (Effect.ofStep h.hadError step).finish.written := by
  cases step with
  | reset => exact (List.append_nil h.written).symm
  | _ => rfl

theorem ofSteps_append (steps later : List Step) :
    ofSteps (steps ++ later) = later.foldl next (ofSteps steps) :=
  List.foldl_append

theorem exists_added (h : History) {later : List Step} (hlater : .reset ∉ later) :
    ∃ ds, (later.foldl next h).reported = h.reported ++ ds ∧
      (later.foldl next h).recent = h.recent ++ ds := by
  induction later generalizing h with
  | nil => exact ⟨[], by simp, by simp⟩
  | cons step rest ih =>
    obtain ⟨hstep, hrest⟩ := List.ne_and_not_mem_of_not_mem_cons hlater
    obtain ⟨ds, hreported, hrecent⟩ := ih (h.next step) hrest
    rw [next_of_ne_reset h (Ne.symm hstep)] at hreported hrecent
    refine ⟨(Effect.ofStep h.hadError step).reported ++ ds, ?_, ?_⟩
    · rw [List.foldl_cons, next_of_ne_reset h (Ne.symm hstep), hreported, add, List.append_assoc]
    · rw [List.foldl_cons, next_of_ne_reset h (Ne.symm hstep), hrecent, add, List.append_assoc]

theorem recent_eq_reported {steps : List Step} (hsteps : .reset ∉ steps) :
    (ofSteps steps).recent = (ofSteps steps).reported := by
  obtain ⟨ds, hreported, hrecent⟩ := exists_added empty hsteps
  exact hrecent.trans hreported.symm

theorem reported_of_reset {earlier later : List Step} (hlater : .reset ∉ later) :
    (ofSteps (earlier ++ .reset :: later)).reported =
      (ofSteps earlier).reported ++ (ofSteps (earlier ++ .reset :: later)).recent := by
  obtain ⟨ds, hreported, hrecent⟩ := exists_added ((ofSteps earlier).next .reset) hlater
  rw [ofSteps_append, List.foldl_cons, hreported, hrecent]
  rfl

theorem reported_prefix_next (h : History) (step : Step) :
    h.reported <+: (h.next step).reported := by
  cases step with
  | reset => exact List.prefix_refl _
  | _ => exact List.prefix_append _ _

theorem reported_prefix (h : History) (later : List Step) :
    h.reported <+: (later.foldl next h).reported := by
  induction later generalizing h with
  | nil => exact List.prefix_refl _
  | cons step rest ih => exact (reported_prefix_next h step).trans (ih (h.next step))

/-- A static error stays known until a reset. -/
theorem hadError_foldl (h : History) {later : List Step} (hlater : .reset ∉ later)
    (hset : h.hadError = true) : (later.foldl next h).hadError = true := by
  obtain ⟨ds, -, hrecent⟩ := exists_added h hlater
  rw [hadError, hrecent, List.any_append, Bool.or_eq_true]
  exact .inl hset

end History

namespace Session

/-- Whether two sessions differ in nothing but the flag of runtime errors. -/
structure Alike (s t : Session) : Prop where
  output_eq : s.output = t.output
  hadError_eq : s.journal.hadError = t.journal.hadError
  reporter_eq : s.journal.reporter = t.journal.reporter

variable {s t : Session}

theorem Alike.reportAll (h : s.Alike t) (ds : List Diagnostic) :
    (s.reportAll ds).Alike (t.reportAll ds) where
  output_eq := h.output_eq
  hadError_eq := by simp only [Session.reportAll, Journal.hadError_reportAll, h.hadError_eq]
  reporter_eq := by simp only [Session.reportAll, Journal.reporter_reportAll, h.reporter_eq]

theorem Alike.write (h : s.Alike t) (text : String) :
    (s.write text).1.Alike (t.write text).1 ∧ (s.write text).2 = (t.write text).2 := by
  simp only [Session.write, h.output_eq, and_true]
  exact ⟨rfl, h.hadError_eq, h.reporter_eq⟩

theorem Alike.applied (h : s.Alike t) (a : Effect) :
    (a.applied s).1.Alike (a.applied t).1 ∧ (a.applied s).2 = (a.applied t).2 := by
  have hreported := h.reportAll a.reported
  unfold Effect.applied
  cases a.finish with
  | answer answer => exact ⟨hreported, rfl⟩
  | value v =>
    obtain ⟨hwritten, hending⟩ := hreported.write (v.text ++ "\n")
    exact ⟨hwritten, congrArg Answer.ended hending⟩

theorem Alike.perform (h : s.Alike t) (step : Step) :
    (s.perform step).1.Alike (t.perform step).1 ∧ (s.perform step).2 = (t.perform step).2 := by
  by_cases hstep : step = .reset
  · subst hstep
    exact ⟨⟨h.output_eq, rfl, h.reporter_eq⟩, rfl⟩
  · rw [perform_of_ne_reset s hstep, perform_of_ne_reset t hstep, h.hadError_eq]
    exact h.applied _

/-- The flag of runtime errors has no influence on later steps. -/
theorem Alike.performAll (h : s.Alike t) (later : List Step) :
    List.Forall₂ (fun a b => a.1.Alike b.1 ∧ a.2 = b.2) (s.performAll later)
      (t.performAll later) := by
  induction later generalizing s t with
  | nil => exact .nil
  | cons step rest ih => exact .cons (h.perform step) (ih (h.perform step).1)

end Session

namespace History

/-- After any steps, with any output and any reporter, a flag is set exactly if a diagnostic of its
kind was reported since the last reset, which is what the reporter was given since then. A reporter
that collects has kept all that was ever reported. While a static error is known, a run does nothing
but report the errors of its scan; the flag of runtime errors has no influence on any step. -/
theorem flags_tell_history (capacity : Option Nat) (reporter : Reporter) (steps : List Step) :
    let s := (Session.start capacity reporter).after steps
    let h := ofSteps steps
    (s.journal.hadError = true ↔ ∃ d ∈ h.recent, d.isRuntime = false) ∧
    (s.journal.hadRuntimeError = true ↔ ∃ d ∈ h.recent, d.isRuntime = true) ∧
    (.reset ∉ steps → h.recent = h.reported) ∧
    (∀ earlier later, steps = earlier ++ .reset :: later → .reset ∉ later →
      h.reported = (ofSteps earlier).reported ++ h.recent) ∧
    s.journal.reporter = h.reported.foldl Reporter.report reporter ∧
    ((Session.start capacity .collecting).after steps).journal.reporter = .keeping h.reported ∧
    (∀ later, h.reported <+: (ofSteps (steps ++ later)).reported) ∧
    (s.journal.hadError = true → ∀ later, .reset ∉ later → ∀ source,
      (s.after later).run source =
        ((s.after later).reportAll (Scan.diagnostics source), .completed)) ∧
    ∀ later, (Session.start capacity reporter).performAll (steps ++ later) =
        (Session.start capacity reporter).performAll steps ++ s.performAll later ∧
      ∀ t, s.Alike t → List.Forall₂ (fun a b => a.1.Alike b.1 ∧ a.2 = b.2)
        (s.performAll later) (t.performAll later) := by
  intro s h
  have hs : s = h.session capacity reporter := after_start capacity reporter steps
  refine ⟨?_, ?_, recent_eq_reported, ?_, ?_, ?_, ?_, ?_, fun later => ⟨?_, ?_⟩⟩
  · simp [hs, session, hadError]
  · simp [hs, session, hadRuntimeError]
  · rintro earlier later rfl hlater
    exact reported_of_reset hlater
  · rw [hs, session]
  · rw [after_start, session, Reporter.collecting, Reporter.foldl_report_keeping]
    rfl
  · intro later
    rw [ofSteps_append]
    exact reported_prefix h later
  · intro hset later hlater source
    have hlast : s.after later = (later.foldl next h).session capacity reporter := by
      rw [hs, after_session]
    have hset : h.hadError = true := by
      rw [hs] at hset
      exact hset
    refine Session.run_of_stopped (.inr ?_)
    rw [hlast]
    exact hadError_foldl h hlater hset
  · exact Session.performAll_append _ steps later
  · exact fun t hst => hst.performAll later

end History

end Reckoner
