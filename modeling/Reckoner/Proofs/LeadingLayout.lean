import Reckoner.Proofs.ChangedLines
import Reckoner.Proofs.Effects
import Reckoner.Proofs.Reports
import Reckoner.Proofs.RoundTrip
import Reckoner.Proofs.Verdict

/-!
Layout before an expression. Blanks and comments that end with their line leave nothing behind in a
scan, and no piece of the text that follows them begins in them; they only move this text to a later
line. The parser and the evaluator do not look at lines, so that a run does the same as without the
layout and reports the same on later lines.
-/

namespace Reckoner

/-- The error with its line changed. -/
def LexicalError.mapLine (f : Nat → Nat) (e : LexicalError) : LexicalError := ⟨e.fault, f e.line⟩

def SyntaxError.mapLine (f : Nat → Nat) (e : SyntaxError) : SyntaxError :=
  ⟨e.fault, f e.line, e.place⟩

/-- The diagnostic with its line changed. -/
def Diagnostic.mapLine (f : Nat → Nat) : Diagnostic → Diagnostic
  | static line place message => static (f line) place message
  | runtime line message => runtime (f line) message

theorem Diagnostic.isRuntime_mapLine (f : Nat → Nat) (d : Diagnostic) :
    (d.mapLine f).isRuntime = d.isRuntime := by
  cases d with
  | static line place message => rfl
  | runtime line message => rfl

/-- The flags of a journal do not know the lines of what was reported. -/
theorem Journal.flags_reportAll_mapLine (j : Journal) (f : Nat → Nat) (ds : List Diagnostic) :
    (j.reportAll (ds.map (Diagnostic.mapLine f))).hadError = (j.reportAll ds).hadError ∧
      (j.reportAll (ds.map (Diagnostic.mapLine f))).hadRuntimeError =
        (j.reportAll ds).hadRuntimeError := by
  simp only [reportAll_eq, List.any_map, Function.comp_def, Diagnostic.isRuntime_mapLine, and_self]

namespace Layout

open Piece Rendering

/-- Blanks, and comments with the line feed that ends them. -/
inductive IsLayout : List Char → Prop
  | nil : IsLayout []
  | blank {c : Char} {rest : List Char} (hc : c ∈ [' ', '\r', '\t', '\n']) (h : IsLayout rest) :
      IsLayout (c :: rest)
  | comment {cs rest : List Char} (hcs : ∀ d ∈ cs, d ≠ '\n') (h : IsLayout rest) :
      IsLayout ('/' :: '/' :: (cs ++ '\n' :: rest))

theorem entriesAt_blank {c : Char} (hc : c ∈ [' ', '\r', '\t', '\n']) (line : Nat)
    (text : List Char) : entriesAt line (c :: text) = entriesAt (line + [c].count '\n') text := by
  have hends : Ends .blank text := fun _ _ => rfl
  exact entriesAt_append line (.blank hc) hends

/-- A comment leaves the line feed that ends it to the next piece. -/
theorem entriesAt_comment {cs : List Char} (hcs : ∀ d ∈ cs, d ≠ '\n') (line : Nat)
    (text : List Char) :
    entriesAt line ('/' :: '/' :: (cs ++ '\n' :: text)) = entriesAt (line + 1) text := by
  have hends : Ends .comment ('\n' :: text) := by
    intro d hd
    cases hd
    rfl
  have hcount : ('/' :: '/' :: cs).count '\n' = 0 := by
    rw [List.count_cons_of_ne (by decide), List.count_cons_of_ne (by decide)]
    exact List.count_eq_zero.mpr fun hmem => hcs _ hmem rfl
  have happend := entriesAt_append line (.comment hcs) hends
  rw [hcount] at happend
  exact happend.trans (entriesAt_blank (by decide) line text)

/-- Layout moves what follows it to a later line and leaves nothing else behind. -/
theorem entriesAt_layout {p : List Char} (hp : IsLayout p) (line : Nat) (text : List Char) :
    entriesAt line (p ++ text) = entriesAt (line + p.count '\n') text := by
  induction hp generalizing line with
  | nil => rfl
  | @blank c rest hc _ ih =>
    have hcount : ([c] ++ rest).count '\n' = [c].count '\n' + rest.count '\n' := List.count_append
    rw [List.cons_append, entriesAt_blank hc, ih, Nat.add_assoc, ← hcount]
    rfl
  | @comment cs rest hcs _ ih =>
    have hcount : ('/' :: '/' :: (cs ++ '\n' :: rest)).count '\n' = 1 + rest.count '\n' := by
      have hnone : cs.count '\n' = 0 := List.count_eq_zero.mpr fun hmem => hcs _ hmem rfl
      simp [hnone, Nat.add_comm]
    simp only [List.cons_append, List.append_assoc]
    rw [entriesAt_comment hcs, ih, hcount, Nat.add_assoc]

/-- The entry with its line changed. -/
def mapEntry (f : Nat → Nat) : Entry → Entry
  | .ok t => .ok (t.mapLine f)
  | .error e => .error (e.mapLine f)

/-- The line on which a piece ends shows in its entry and nowhere else. -/
theorem entry?_mapEntry (f : Nat → Nat) (p : Piece) (line : Nat) :
    p.entry? (f line) = (p.entry? line).map (mapEntry f) := by
  obtain ⟨kind, text⟩ := p
  cases kind with
  | number =>
    simp only [Piece.entry?]
    split <;> rfl
  | stray =>
    simp only [Piece.entry?, Option.map_map]
    rfl
  | _ => rfl

theorem entriesFrom_add (k line : Nat) (ps : List Piece) :
    entriesFrom (line + k) ps = (entriesFrom line ps).map (mapEntry (· + k)) := by
  induction ps generalizing line with
  | nil => rfl
  | cons p ps ih =>
    rw [entriesFrom_cons, entriesFrom_cons, Nat.add_right_comm, ih, List.map_append,
      entry?_mapEntry (· + k)]
    cases p.entry? (line + p.lineBreaks) <;> rfl

theorem ofEntries_mapEntry (f : Nat → Nat) (entries : List Entry) :
    Scan.ofEntries (entries.map (mapEntry f)) =
      ⟨(Scan.ofEntries entries).tokens.map (Token.mapLine f),
        (Scan.ofEntries entries).errors.map (LexicalError.mapLine f)⟩ := by
  simp only [Scan.ofEntries, List.filterMap_map, List.map_filterMap, Scan.mk.injEq]
  constructor
  · congr 1
    funext entry
    cases entry <;> rfl
  · congr 1
    funext entry
    cases entry <;> rfl

/-- What is scanned behind layout is scanned without it on earlier lines. -/
theorem ofText_layout {p : String} (hp : IsLayout p.toList) (source : String) :
    Scan.ofText (p ++ source) =
      ⟨(Scan.ofText source).tokens.map (Token.mapLine (· + p.toList.count '\n')),
        (Scan.ofText source).errors.map (LexicalError.mapLine (· + p.toList.count '\n'))⟩ := by
  have hentries := entriesAt_layout hp 1 source.toList
  unfold entriesAt at hentries
  rw [Scan.ofText, String.toList_append, hentries, entriesFrom_add, ofEntries_mapEntry]
  rfl

/-- Reading to the end of input always leaves a token. -/
theorem exists_cons_of_run {ts : List Token} {last : Token} (hlast : ts.getLast? = some last)
    (hend : last.isEnd = true) : ∃ t rest, (Reading.start.run ts).2 = t :: rest := by
  obtain ⟨t, ht, -⟩ := Verdict.exists_judge_token .start hlast (Token.isEnd_iff.mp hend)
  have hlength := (Verdict.judge_ofReading .start ts).1
  have hlt : (Verdict.State.start.judge ts).1 < ts.length := (List.getElem?_eq_some_iff.mp ht).1
  apply List.exists_cons_of_ne_nil
  intro hnil
  rw [hnil, List.length_nil] at hlength
  change (Verdict.State.start.judge ts).1 + 0 = ts.length at hlength
  omega

theorem ofTokens_mapLine (f : Nat → Nat) {ts : List Token} {last : Token}
    (hlast : ts.getLast? = some last) (hend : last.isEnd = true) :
    Expr.ofTokens (ts.map (Token.mapLine f)) =
      match Expr.ofTokens ts with
      | .ok e => .ok (e.mapLine f)
      | .error err => .error (err.mapLine f) := by
  obtain ⟨t, rest, hrest⟩ := exists_cons_of_run hlast hend
  have hrun : Reading.start.run (ts.map (Token.mapLine f)) = _ := Reading.run_mapLine f .start ts
  have hlast' : (ts.map (Token.mapLine f)).getLast? = some (last.mapLine f) := by
    rw [List.getLast?_map, hlast]
    rfl
  have hend' : (last.mapLine f).isEnd = true := hend
  simp only [Expr.ofTokens, TokenReader.parse, TokenReader.ofTokens, TokenReader.ahead, hlast,
    hlast', Option.any_some, hend, hend', if_true, List.drop_zero, hrun, hrest]
  cases (Reading.start.run ts).1 with
  | ok e => rfl
  | error fault => rfl

end Layout

namespace Effect

/-- The effect with its diagnostics on other lines. -/
def mapLine (f : Nat → Nat) (a : Effect) : Effect :=
  ⟨a.reported.map (Diagnostic.mapLine f), a.finish⟩

theorem ofExpr_mapLine (f : Nat → Nat) (e : Expr) :
    ofExpr (e.mapLine f) = (ofExpr e).mapLine f := by
  unfold ofExpr
  rw [Expr.evaluate_mapLine]
  cases e.evaluate with
  | ok v => rfl
  | error failure =>
    cases failure with
    | mismatch err => rfl
    | foreign o => rfl

theorem journal_applied (a : Effect) (s : Session) :
    (a.applied s).1.journal = s.journal.reportAll a.reported := by
  obtain ⟨reported, finish⟩ := a
  cases finish with
  | answer answer => rfl
  | value v => rfl

/-- The lines of diagnostics have no influence on what is written. -/
theorem output_applied_mapLine (f : Nat → Nat) (a : Effect) (s : Session) :
    ((a.mapLine f).applied s).1.output = (a.applied s).1.output ∧
      ((a.mapLine f).applied s).2 = (a.applied s).2 := by
  obtain ⟨reported, finish⟩ := a
  cases finish with
  | answer answer => exact ⟨rfl, rfl⟩
  | value v => exact ⟨rfl, rfl⟩

end Effect

namespace Layout

theorem getLast?_tokens (source : String) :
    ∃ last, (Scan.ofText source).tokens.getLast? = some last ∧ last.isEnd = true := by
  have hsound := (Piece.splits_cut source.toList).sound
  obtain ⟨found, line, htokens, -⟩ := Piece.entriesFrom_spec 1 hsound
  exact ⟨.endOfInput line, by rw [Scan.ofText, htokens, List.getLast?_concat], rfl⟩

/-- Layout before a text moves the diagnostics of its run to later lines. -/
theorem ofRun_layout {p : String} (hp : IsLayout p.toList) (hadError : Bool) (source : String) :
    Effect.ofRun hadError (p ++ source) =
      (Effect.ofRun hadError source).mapLine (· + p.toList.count '\n') := by
  obtain ⟨last, hlast, hend⟩ := getLast?_tokens source
  unfold Effect.ofRun Scan.diagnostics
  rw [ofText_layout hp]
  simp only [List.isEmpty_map, ofTokens_mapLine _ hlast hend]
  split
  · simp only [Effect.mapLine, List.map_map]
    rfl
  · cases Expr.ofTokens (Scan.ofText source).tokens with
    | ok e => exact Effect.ofExpr_mapLine _ e
    | error err => rfl

/-- Layout before a text has no influence on what a run of the text writes, on how it ends and on
the flags after it. The run reports the same diagnostics, each of them as many lines later as there
are line feeds in the layout. -/
theorem leading_layout_moves_lines {p : String} (hp : IsLayout p.toList) (source : String)
    (hadError : Bool) : ∃ ds, ∀ s : Session, s.journal.hadError = hadError →
      (s.run source).1.journal = s.journal.reportAll ds ∧
      (s.run (p ++ source)).1.journal =
        s.journal.reportAll (ds.map (Diagnostic.mapLine (· + p.toList.count '\n'))) ∧
      (s.run (p ++ source)).1.journal.hadError = (s.run source).1.journal.hadError ∧
      (s.run (p ++ source)).1.journal.hadRuntimeError =
        (s.run source).1.journal.hadRuntimeError ∧
      (s.run (p ++ source)).1.output = (s.run source).1.output ∧
      (s.run (p ++ source)).2 = (s.run source).2 := by
  refine ⟨(Effect.ofRun hadError source).reported, ?_⟩
  rintro s rfl
  have hplain : ((s.run source).1, Session.Answer.ended (s.run source).2) =
      (Effect.ofRun s.journal.hadError source).applied s := s.perform_run source
  have hmoved : ((s.run (p ++ source)).1, Session.Answer.ended (s.run (p ++ source)).2) =
      (Effect.ofRun s.journal.hadError (p ++ source)).applied s := s.perform_run (p ++ source)
  rw [ofRun_layout hp] at hmoved
  have hjournal : (s.run source).1.journal =
      s.journal.reportAll (Effect.ofRun s.journal.hadError source).reported := by
    rw [← Effect.journal_applied, ← hplain]
  have hjournal' : (s.run (p ++ source)).1.journal = s.journal.reportAll
      ((Effect.ofRun s.journal.hadError source).mapLine (· + p.toList.count '\n')).reported := by
    rw [← Effect.journal_applied, ← hmoved]
  have hsame := Effect.output_applied_mapLine (· + p.toList.count '\n')
    (Effect.ofRun s.journal.hadError source) s
  rw [← hplain, ← hmoved] at hsame
  obtain ⟨hhadError, hhadRuntimeError⟩ := s.journal.flags_reportAll_mapLine
    (· + p.toList.count '\n') (Effect.ofRun s.journal.hadError source).reported
  refine ⟨hjournal, hjournal', ?_, ?_, hsame.1, Session.Answer.ended.inj hsame.2⟩
  · rw [hjournal, hjournal']
    exact hhadError
  · rw [hjournal, hjournal']
    exact hhadRuntimeError

/-- Behind a comment, a blank line and a tab, a comparison that fails on line 2 fails on line 4. -/
theorem leading_layout_moves_lines_comparison :
    IsLayout "// \"a\n\r\n\t".toList ∧
      ((⟨.empty none, .ofReporter .collecting⟩ : Session).run
        ("// \"a\n\r\n\t" ++ "(nil)\n< true")).1.journal.reporter.kept.map Diagnostic.line =
          [4] := by
  have hcomment : ∀ d ∈ [' ', '"', 'a'], d ≠ '\n' := by simp
  have hchars : IsLayout ('/' :: '/' :: ([' ', '"', 'a'] ++ '\n' :: ['\r', '\n', '\t'])) :=
    .comment hcomment (.blank (by decide) (.blank (by decide) (.blank (by decide) .nil)))
  have hlayout : IsLayout "// \"a\n\r\n\t".toList := by
    simpa using hchars
  obtain ⟨ds, hds⟩ := leading_layout_moves_lines hlayout "(nil)\n< true" false
  obtain ⟨hplain, hmoved, -⟩ := hds ⟨.empty none, .ofReporter .collecting⟩ rfl
  have hkept (ds : List Diagnostic) :
      ((Journal.ofReporter .collecting).reportAll ds).reporter.kept = ds := by
    rw [Journal.reporter_reportAll]
    exact congrArg Reporter.kept (Reporter.foldl_report_keeping [] ds)
  have hlines : ds.map Diagnostic.line = [2] := by
    rw [← hkept ds, ← hplain]
    cbv
  refine ⟨hlayout, ?_⟩
  rw [hmoved, hkept, List.map_map]
  have hshift : Diagnostic.line ∘ Diagnostic.mapLine (· + 2) = (· + 2) ∘ Diagnostic.line := by
    funext d
    cases d <;> rfl
  change ds.map (Diagnostic.line ∘ Diagnostic.mapLine (· + 2)) = [4]
  rw [hshift, ← List.map_map, hlines]
  rfl

end Layout

end Reckoner
