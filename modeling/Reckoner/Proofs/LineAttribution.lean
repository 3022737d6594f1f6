import Reckoner.Proofs.Acceptance
import Reckoner.Proofs.FirstFailure
import Reckoner.Proofs.FreshRuns
import Reckoner.Proofs.Occurrences
import Reckoner.Proofs.Verdict

/-!
The lines that a run reports. Each diagnostic is led back to a place in the text: a lexical error to
its piece, a syntax error to the token that decides, and a runtime error to the operator that
failed, which is found among the tokens by what stands before it in the tree.
-/

namespace Reckoner.Occurrence

open FirstFailure (Blamed Offends)
open Grammar (Item itemOf items)

/-- Evaluation fails at the operator behind the items `before`, on values that it does not
accept. -/
inductive FailsAt : Expr → List Item → RuntimeError → Prop
  | group {e : Expr} {before : List Item} {err : RuntimeError} (h : FailsAt e before err) :
      FailsAt (.group e) (.opening :: before) err
  | operand {op : Token} {e : Expr} {before : List Item} {err : RuntimeError}
      (h : FailsAt e before err) : FailsAt (.unary op e) (.operator op :: before) err
  | unary {op : Token} {e : Expr} {err : RuntimeError} (hoffends : Offends (.unary op e))
      (hblamed : Blamed (.unary op e) (.mismatch err)) : FailsAt (.unary op e) [] err
  | left {l r : Expr} {op : Token} {before : List Item} {err : RuntimeError}
      (h : FailsAt l before err) : FailsAt (.binary l op r) before err
  | right {l r : Expr} {op : Token} {v : Value} {before : List Item} {err : RuntimeError}
      (hl : l.evaluate = .ok v) (h : FailsAt r before err) :
      FailsAt (.binary l op r) (items l ++ .operator op :: before) err
  | binary {l r : Expr} {op : Token} {err : RuntimeError} (hoffends : Offends (.binary l op r))
      (hblamed : Blamed (.binary l op r) (.mismatch err)) : FailsAt (.binary l op r) (items l) err

/-- What a fresh session reports when it runs a text. -/
inductive Reported (source : String) : List Diagnostic → Prop
  | lexical (h : (Scan.ofText source).errors ≠ []) :
      Reported source ((Scan.ofText source).errors.map LexicalError.diagnostic)
  | syntaxAt {stop : Nat} {fault : SyntaxFault} {o : Occurrence}
      (hno : (Scan.ofText source).errors = [])
      (hjudge : Verdict.State.start.judge (Scan.ofText source).tokens = (stop, some fault))
      (ho : (tokens source)[stop]? = some o) :
      Reported source
        [.static (lineNumber o.through) (.atLexeme (String.ofList o.piece.text)) fault.message]
  | syntaxEnd {stop : Nat} {fault : SyntaxFault} (hno : (Scan.ofText source).errors = [])
      (hjudge : Verdict.State.start.judge (Scan.ofText source).tokens = (stop, some fault))
      (hstop : stop = (tokens source).length) :
      Reported source [.static (lineNumber source.toList) .atEnd fault.message]
  | runtime {e : Expr} {before : List Item} {err : RuntimeError} {o : Occurrence}
      (hno : (Scan.ofText source).errors = [])
      (he : Expr.ofTokens (Scan.ofText source).tokens = .ok e) (hfails : FailsAt e before err)
      (ho : (tokens source)[before.length]? = some o)
      (hlexeme : err.operator.lexeme.toList = o.piece.text) :
      Reported source [.runtime (lineNumber o.before) err.fault.message]
  | nothing {e : Expr} (hno : (Scan.ofText source).errors = [])
      (he : Expr.ofTokens (Scan.ofText source).tokens = .ok e)
      (hfine : ∀ err, e.evaluate ≠ .error (.mismatch err)) : Reported source []

theorem failsAt_of_evaluate {e : Expr} {err : RuntimeError}
    (h : e.evaluate = .error (.mismatch err)) : ∃ before, FailsAt e before err := by
  induction e with
  | literal v => cases h
  | group e ih =>
    obtain ⟨before, hfails⟩ := ih h
    exact ⟨_, .group hfails⟩
  | unary op e ih =>
    cases he : e.evaluate with
    | error failure =>
      rw [FirstFailure.evaluate_unary_error he] at h
      obtain ⟨before, hfails⟩ := ih (he.trans h)
      exact ⟨_, .operand hfails⟩
    | ok v =>
      rw [FirstFailure.evaluate_unary he] at h
      rcases FirstFailure.applyUnary_cases op v e with ⟨_, w, hw⟩ | ⟨hnot, failure, hblamed, hfail⟩
      · cases hw.symm.trans h
      · cases hfail.symm.trans h
        exact ⟨[], .unary (.unary he hnot) hblamed⟩
  | binary l op r ihl ihr =>
    cases hl : l.evaluate with
    | error failure =>
      rw [FirstFailure.evaluate_left_error hl] at h
      obtain ⟨before, hfails⟩ := ihl (hl.trans h)
      exact ⟨before, .left hfails⟩
    | ok v =>
      cases hr : r.evaluate with
      | error failure =>
        rw [FirstFailure.evaluate_right_error hl hr] at h
        obtain ⟨before, hfails⟩ := ihr (hr.trans h)
        exact ⟨_, .right hl hfails⟩
      | ok w =>
        rw [FirstFailure.evaluate_binary hl hr] at h
        rcases FirstFailure.applyBinary_cases op v w l r with
          ⟨_, u, hu⟩ | ⟨hnot, failure, hblamed, hfail⟩
        · cases hu.symm.trans h
        · cases hfail.symm.trans h
          exact ⟨items l, .binary (.binary hl hr hnot) hblamed⟩

/-- The operator that fails stands in the tree behind the items. -/
theorem FailsAt.items_eq {e : Expr} {before : List Item} {err : RuntimeError}
    (h : FailsAt e before err) : ∃ after, items e = before ++ .operator err.operator :: after := by
  induction h with
  | group _ ih =>
    obtain ⟨after, hafter⟩ := ih
    exact ⟨after ++ [.closing], by simp [items, hafter]⟩
  | operand _ ih =>
    obtain ⟨after, hafter⟩ := ih
    exact ⟨after, by simp [items, hafter]⟩
  | @unary op e err _ hblamed =>
    cases hblamed
    exact ⟨items e, rfl⟩
  | @left l r op before err _ ih =>
    obtain ⟨after, hafter⟩ := ih
    exact ⟨after ++ .operator op :: items r, by simp [items, hafter]⟩
  | right _ _ ih =>
    obtain ⟨after, hafter⟩ := ih
    exact ⟨after, by simp [items, hafter]⟩
  | @binary l r op err _ hblamed =>
    cases hblamed with
    | plus _ => exact ⟨items r, rfl⟩
    | numbers _ _ => exact ⟨items r, rfl⟩

theorem symbol_of_blamed {n : Expr} {err : RuntimeError} (h : Blamed n (.mismatch err)) :
    ∃ s, err.operator.kind = .symbol s := by
  cases h with
  | negation hop => exact ⟨_, hop⟩
  | plus hop => exact ⟨_, hop⟩
  | numbers hop _ => exact ⟨_, hop⟩

theorem FailsAt.exists_symbol {e : Expr} {before : List Item} {err : RuntimeError}
    (h : FailsAt e before err) : ∃ s, err.operator.kind = .symbol s := by
  induction h with
  | unary _ hblamed => exact symbol_of_blamed hblamed
  | binary _ hblamed => exact symbol_of_blamed hblamed
  | group _ ih => exact ih
  | operand _ ih => exact ih
  | left _ ih => exact ih
  | right _ _ ih => exact ih

theorem eq_of_itemOf {t op : Token} (h : itemOf t = .operator op) : t = op := by
  unfold itemOf at h
  split at h
  · cases h
  split at h
  · cases h
  split at h
  · cases h
  · cases h
    rfl

theorem symbol_of_tokenOf {p : Piece} {t : Token} {s : Symbol} (h : Piece.TokenOf p t)
    (ht : t.kind = .symbol s) : p.kind = .symbol s := by
  rcases h.kind_cases with ⟨s', hp, hs⟩ | h | h | h | ⟨w, h⟩
  · cases ht.symm.trans hs
    exact hp
  all_goals cases ht.symm.trans h

section Source

variable {source : String}

/-- A syntax error is about the token that decides. -/
theorem reported_of_syntax_error {err : SyntaxError} (hno : (Scan.ofText source).errors = [])
    (h : Expr.ofTokens (Scan.ofText source).tokens = .error err) :
    Reported source [err.diagnostic] := by
  obtain ⟨found, htokens, hgives⟩ := tokens_eq source
  have hlast : (Scan.ofText source).tokens.getLast? =
      some (.endOfInput (lineNumber source.toList)) := by simp [htokens]
  obtain ⟨t, ht, -⟩ := Verdict.exists_judge_token .start hlast rfl
  obtain ⟨result, hfault, hparse⟩ := Verdict.parse_eq_of_judge (i := 0) hlast rfl
    (by simp [htokens]) rfl (by simpa using ht)
  rw [Expr.ofTokens, TokenReader.ofTokens, hparse] at h
  cases result with
  | ok e => cases h
  | error fault =>
    cases h
    have hjudge : Verdict.State.start.judge (Scan.ofText source).tokens =
        ((Verdict.State.start.judge (Scan.ofText source).tokens).1, some fault) :=
      Prod.ext rfl hfault.symm
    generalize (Verdict.State.start.judge (Scan.ofText source).tokens).1 = stop at hjudge ht
    rw [htokens] at ht
    rcases Nat.lt_or_ge stop found.length with hlt | hge
    · rw [List.getElem?_append_left hlt] at ht
      obtain ⟨o, ho, htoken, hline⟩ := Piece.exists_of_forall₂ hgives ht
      have hlexeme : t.lexeme = String.ofList o.piece.text := by
        rw [← htoken.1, String.ofList_toList]
      have hreported := Reported.syntaxAt hno hjudge ho
      rw [← hline, ← hlexeme] at hreported
      simpa [SyntaxError.diagnostic, SyntaxError.about, htoken.isEnd_eq_false] using hreported
    · rw [List.getElem?_append_right hge, List.getElem?_singleton] at ht
      split at ht
      · next hzero =>
        cases ht
        exact .syntaxEnd hno hjudge (by rw [hgives.length_eq]; omega)
      · cases ht

/-- A runtime error is about the operator that fails. -/
theorem reported_of_mismatch {e : Expr} {err : RuntimeError}
    (hno : (Scan.ofText source).errors = [])
    (he : Expr.ofTokens (Scan.ofText source).tokens = .ok e)
    (h : e.evaluate = .error (.mismatch err)) : Reported source [err.diagnostic] := by
  obtain ⟨found, htokens, hgives⟩ := tokens_eq source
  obtain ⟨before, hfails⟩ := failsAt_of_evaluate h
  obtain ⟨after, hitems⟩ := hfails.items_eq
  obtain ⟨s, hs⟩ := hfails.exists_symbol
  obtain ⟨last, hlast, hend, hrun⟩ := Grammar.parse_eq_ok_iff.mp he
  have hderives := (Grammar.run_start_iff hlast hend e).mp hrun
  rw [htokens, Grammar.beforeEnd_append_end (isEnd_of_gives hgives) rfl] at hderives
  -- The items of the tree are those of the tokens, so the operator is found at its index.
  have hmap : found.map itemOf = before ++ .operator err.operator :: after :=
    hderives.map_itemOf.trans hitems
  have hitem : (found.map itemOf)[before.length]? = some (.operator err.operator) := by
    simp [hmap]
  rw [List.getElem?_map] at hitem
  obtain ⟨t, ht, hoperator⟩ := Option.map_eq_some_iff.mp hitem
  cases eq_of_itemOf hoperator
  obtain ⟨o, ho, htoken, hline⟩ := Piece.exists_of_forall₂ hgives ht
  have hmem : o ∈ all source := List.mem_of_mem_filter (List.mem_of_getElem? ho)
  have hbefore : lineNumber o.before = err.operator.line := by
    rw [hline, lineNumber_through hmem (.inr ⟨s, symbol_of_tokenOf htoken hs⟩)]
  have hreported := Reported.runtime hno he hfails ho htoken.1
  rwa [hbefore] at hreported

theorem exists_reported (source : String) : ∃ ds, Reported source ds ∧
    ∀ s : Session, s.Fresh → (s.run source).1.journal = s.journal.reportAll ds := by
  obtain ⟨act, hcourse, hrun⟩ := Session.exists_course source
  suffices hact : ∃ ds, Reported source ds ∧ ∀ s, (act s).1.journal = s.journal.reportAll ds by
    obtain ⟨ds, hds, hjournal⟩ := hact
    exact ⟨ds, hds, fun s hs => by rw [hrun s hs, hjournal]⟩
  cases hcourse with
  | lexical h => exact ⟨_, .lexical h, fun _ => rfl⟩
  | refused hno he => exact ⟨_, reported_of_syntax_error hno he, fun _ => rfl⟩
  | written hno he hv => exact ⟨[], .nothing hno he (by simp [hv]), fun _ => rfl⟩
  | failed hno he hv => exact ⟨_, reported_of_mismatch hno he hv, fun _ => rfl⟩
  | foreign hno he hv => exact ⟨[], .nothing hno he (by simp [hv]), fun _ => rfl⟩

end Source

/-- The lines of tokens and errors count the line feeds of the text up to a place in it. A token
bears the line on which its piece ends, the end of input and an unclosed string the last line, and
a stray character its own line; none of these lines decreases. A run of a fresh session reports
the errors of the scan, or a syntax error on the line on which the token that decides ends, or a
runtime error on the line of the operator that fails. -/
theorem lines_lead_to_places (source : String) :
    (∀ o ∈ all source, ∃ left, source.toList = o.through ++ left ∧
      Piece.First (o.piece.text ++ left) o.piece) ∧
    (∃ found, (Scan.ofText source).tokens =
        found ++ [⟨.endOfInput, "", none, lineNumber source.toList⟩] ∧
      List.Forall₂ Gives (tokens source) found) ∧
    List.Forall₂ (Breaks source) (faults source) (Scan.ofText source).errors ∧
    (Scan.ofText source).tokens.Pairwise (fun t t' => t.line ≤ t'.line) ∧
    ((Scan.ofText source).errors.map LexicalError.diagnostic).Pairwise
      (fun d d' => d.line ≤ d'.line) ∧
    ∃ ds, Reported source ds ∧
      ∀ s : Session, s.Fresh → (s.run source).1.journal = s.journal.reportAll ds :=
  ⟨fun _ => exists_left_of_mem, tokens_eq source, forall₂_faults source, pairwise_tokens source,
    List.pairwise_map.mpr (pairwise_errors source), exists_reported source⟩

end Reckoner.Occurrence
