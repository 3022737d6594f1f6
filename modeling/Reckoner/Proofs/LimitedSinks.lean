import Reckoner.Proofs.Histories

/-!
Sessions with limited sinks. A sink with a limit holds the first bytes of all that was written to
it, and a text that does not end within the limit fails to be written. So a session whose output and
whose reporter have limits goes through the same history as one whose sinks take everything: the
limits cut what is held, and show otherwise only in failures to write a report and in answers to the
steps whose value is cut.
-/

namespace Reckoner

open Session (Answer Step)

theorem Session.write_ending {s : Session} {capacity : Option Nat} {bytes : List UInt8}
    (hs : s.output = ⟨capacity, Sink.keep capacity bytes⟩) {text : String}
    (htext : Utf8.encode text ≠ []) :
    (s.write text).2 =
      if Sink.exceeds capacity (bytes ++ Utf8.encode text).length then .outputFull
      else .completed := by
  simp only [Session.write, hs, Sink.write_keep capacity bytes htext]
  split <;> simp_all

namespace History

variable {capacity : Option Nat} {reporter : Reporter}

/-- The answer to a step that comes to a value tells whether the value ends within the limit of the
output; it depends on nothing else that the session holds. -/
theorem answer_session (h : History) (step : Step) :
    ((h.session capacity reporter).perform step).2 =
      match (Effect.ofStep h.hadError step).finish with
      | .answer answer => answer
      | .value _ => .ended
          (if Sink.exceeds capacity (h.next step).written.length then .outputFull
            else .completed) := by
  by_cases hstep : step = .reset
  · subst hstep
    rfl
  · rw [Session.perform_of_ne_reset _ hstep, written_next]
    have hflag : (h.session capacity reporter).journal.hadError = h.hadError := rfl
    rw [hflag, Effect.applied]
    cases (Effect.ofStep h.hadError step).finish with
    | answer answer => rfl
    | value v =>
      have hline : Utf8.encode (v.text ++ "\n") ≠ [] := Utf8.encode_line_ne_nil v.text
      exact congrArg Answer.ended (Session.write_ending rfl hline)

end History

namespace Effect

theorem finish_ofExpr_ne_outputFull (e : Expr) :
    (ofExpr e).finish ≠ .answer (.ended .outputFull) := by
  unfold ofExpr
  split <;> simp

/-- Nothing but the limit of the output makes a step end with a full output. -/
theorem finish_ne_outputFull (hadError : Bool) (step : Step) :
    (ofStep hadError step).finish ≠ .answer (.ended .outputFull) := by
  cases step with
  | run source =>
    simp only [ofStep, ofRun]
    split
    · simp
    · split
      · exact finish_ofExpr_ne_outputFull _
      · simp
  | interpret e => exact finish_ofExpr_ne_outputFull e
  | _ => simp [ofStep]

end Effect

namespace History

/-- The answer in a session whose output has a limit, by the answer in one whose output has none. -/
theorem answer_limited (h : History) (limit : Nat) (reporter reporter' : Reporter) (step : Step) :
    ((h.session (some limit) reporter).perform step).2 =
      if h.written.length < (h.next step).written.length ∧
          limit < (h.next step).written.length then .ended .outputFull
      else ((h.session none reporter').perform step).2 := by
  rw [answer_session, answer_session, written_next]
  cases (Effect.ofStep h.hadError step).finish with
  | answer answer => simp [Finish.written]
  | value v =>
    have hpos : 0 < (Finish.value v).written.length :=
      List.length_pos_iff.mpr (Utf8.encode_line_ne_nil v.text)
    simp only [Sink.exceeds, Option.any_some, Option.any_none, List.length_append,
      decide_eq_true_eq]
    split <;> simp_all

theorem answer_unlimited_ne_outputFull (h : History) (reporter : Reporter) (step : Step) :
    ((h.session none reporter).perform step).2 ≠ .ended .outputFull := by
  rw [answer_session]
  have hne := Effect.finish_ne_outputFull h.hadError step
  cases hfinish : (Effect.ofStep h.hadError step).finish with
  | answer answer => simpa [hfinish] using hne
  | value v => simp [Sink.exceeds]

/-- After any steps, a session whose reporter and output have limits has the flags of a session that
keeps everything, and it holds the first bytes of the report and of the output. Its failures are the
diagnostics that end behind the limit of the report, and its answers differ only where a value ends
behind the limit of the output. A session that collects its diagnostics has the same flags, output
and answers as one that writes them. -/
theorem limits_only_cut (reportLimit outputLimit : Nat) (steps : List Step) :
    let whole := Session.unlimited.after steps
    let cut := (Session.start (some outputLimit) (.writingTo (some reportLimit))).after steps
    let kept := ((Session.start none .collecting).after steps).journal.reporter.kept
    (cut.journal.hadError = whole.journal.hadError ∧
      cut.journal.hadRuntimeError = whole.journal.hadRuntimeError) ∧
    cut.journal.reporter.written = whole.journal.reporter.written.take reportLimit ∧
    cut.output.held = whole.output.held.take outputLimit ∧
    whole.journal.reporter.written = reportText kept ∧
    cut.journal.reporter.failures = (endsFrom 0 kept).countP (reportLimit < ·) ∧
    (∀ step, (cut.perform step).2 =
      if whole.output.held.length < (whole.perform step).1.output.held.length ∧
          outputLimit < (whole.perform step).1.output.held.length then .ended .outputFull
      else (whole.perform step).2) ∧
    (∀ step, (whole.perform step).2 ≠ .ended .outputFull) ∧
    ∀ capacity limit,
      let writing := (Session.start capacity (.writingTo limit)).after steps
      let collecting := (Session.start capacity .collecting).after steps
      (collecting.journal.hadError = writing.journal.hadError ∧
        collecting.journal.hadRuntimeError = writing.journal.hadRuntimeError) ∧
      collecting.output = writing.output ∧
      ∀ step, (collecting.perform step).2 = (writing.perform step).2 := by
  intro whole cut kept
  have hwhole : whole = (ofSteps steps).session none (.writingTo none) :=
    after_start none (.writingTo none) steps
  have hcut : cut = (ofSteps steps).session (some outputLimit) (.writingTo (some reportLimit)) :=
    after_start (some outputLimit) (.writingTo (some reportLimit)) steps
  have hkept : kept = (ofSteps steps).reported := by
    simp only [kept, after_start, session, Reporter.collecting, Reporter.foldl_report_keeping,
      Reporter.kept, List.nil_append]
  rw [hwhole, hcut, hkept]
  refine ⟨⟨rfl, rfl⟩, ?_, rfl, ?_, ?_, fun step => ?_, ?_, fun capacity limit => ?_⟩
  · simp only [session, Reporter.foldl_report_writingTo, Reporter.written, Sink.keep]
  · simp only [session, Reporter.foldl_report_writingTo, Reporter.written, Sink.keep]
  · simp only [session, Reporter.foldl_report_writingTo, Reporter.failures]
    rfl
  · rw [perform_session]
    exact answer_limited (ofSteps steps) outputLimit _ _ step
  · exact answer_unlimited_ne_outputFull (ofSteps steps) _
  · simp only [after_start]
    refine ⟨⟨rfl, rfl⟩, rfl, fun step => ?_⟩
    rw [answer_session, answer_session]

end History

end Reckoner
