import Reckoner.Proofs.FreshRuns
import Reckoner.Proofs.Occurrences
import Reckoner.Proofs.ParsedOperators
import Reckoner.Trace

/-!
The trace of a text against a run of it. The trace names all tokens, also when the text has errors.
A run that comes to evaluate a tree is traced by the nodes of this tree in pre-order: by all of them
if the run writes a value, and by those up to the last one below the failing operator if not.
-/

namespace Reckoner

open FirstFailure (Blamed)
open Traversal (FirstOffender places)

/-- The tokens of a text without the end of input are those that its trace names. -/
theorem trace_eq (source : String) : ∃ own last,
    (Scan.ofText source).tokens = own ++ [.endOfInput last] ∧ (∀ t ∈ own, t.isEnd = false) ∧
      trace source =
        own.map scannedText ++ (Scan.ofText source).entered.map enteredText := by
  obtain ⟨own, htokens, hgives⟩ := Occurrence.tokens_eq source
  have hend := Occurrence.isEnd_of_gives hgives
  have hown : (own ++ [Token.endOfInput (lineNumber source.toList)]).filter (!·.isEnd) = own := by
    rw [List.filter_append, List.filter_eq_self.mpr fun t ht => by rw [hend t ht]; rfl]
    exact List.append_nil own
  exact ⟨own, _, htokens, hend, by rw [trace, htokens, hown]⟩

/-- The nodes that are entered for a text, told from how a run of it goes on behind the scan. A node
that fails is known by its place, since the same subtree may stand at several places. -/
inductive Enters (source : String) : List Expr → Prop
  | nothing (h : ∀ s : Session, s.Fresh → (s.run source).1.journal.hadError = true) :
      Enters source []
  | whole {e : Expr} {v : Value} (he : Expr.ofTokens (Scan.ofText source).tokens = .ok e)
      (hv : e.evaluate = .ok v)
      (h : ∀ s : Session, s.Fresh → s.run source = s.write (v.text ++ "\n")) :
      Enters source e.nodes
  | upTo {e : Expr} {err : RuntimeError} {j : Nat} {n : Expr} {first rest : List Expr}
      (he : Expr.ofTokens (Scan.ofText source).tokens = .ok e)
      (hv : e.evaluate = .error (.mismatch err))
      (h : ∀ s : Session, s.Fresh → s.run source = (s.report err.diagnostic, .completed))
      (hn : FirstOffender (places e) (j, n)) (hblamed : Blamed n (.mismatch err))
      (hnodes : e.nodes = first ++ (n.nodes ++ rest)) (hj : first.length = j) :
      Enters source (first ++ n.nodes)

theorem enters_of_ok {source : String} {e : Expr} (hno : (Scan.ofText source).errors = [])
    (he : Expr.ofTokens (Scan.ofText source).tokens = .ok e) : Enters source e.entered := by
  have hrun (s : Session) (hs : s.Fresh) : s.run source = s.interpret e := by
    rw [hs.run_of_no_errors hno, he]
  cases hv : e.evaluate with
  | ok v =>
    rw [Expr.entered_eq_nodes hv]
    exact .whole he hv fun s hs => (hrun s hs).trans (Session.interpret_ok hv)
  | error failure =>
    cases failure with
    | mismatch err =>
      obtain ⟨j, n, first, rest, hn, hblamed, hnodes, hj, hentered⟩ :=
        Traversal.entered_of_evaluate_error hv
      rw [hentered]
      exact .upTo he hv (fun s hs => (hrun s hs).trans (Session.interpret_mismatch hv)) hn hblamed
        hnodes hj
    | foreign o => exact absurd hv ((TokenReader.regular_of_parse he).evaluate_ne_foreign o)

theorem enters_entered (source : String) : Enters source (Scan.ofText source).entered := by
  by_cases hno : (Scan.ofText source).errors = []
  · cases he : Expr.ofTokens (Scan.ofText source).tokens with
    | ok e =>
      have hentered : (Scan.ofText source).entered = e.entered := by simp [Scan.entered, hno, he]
      exact hentered ▸ enters_of_ok hno he
    | error err =>
      have hentered : (Scan.ofText source).entered = [] := by simp [Scan.entered, hno, he]
      rw [hentered]
      refine .nothing fun s hs => ?_
      rw [hs.run_of_no_errors hno, he]
      exact Bool.or_true _
  · have hentered : (Scan.ofText source).entered = [] := by simp [Scan.entered, hno]
    rw [hentered]
    refine .nothing fun s hs => ?_
    rw [Session.run_of_stopped (.inl hno), Session.reportAll, Journal.hadError_reportAll,
      Scan.any_static_diagnostics, List.isEmpty_eq_false_iff.mpr hno]
    exact Bool.or_true _

/-- Nothing is entered exactly if a static error is reported. -/
theorem Enters.eq_nil_iff {source : String} {es : List Expr} (h : Enters source es) {s : Session}
    (hs : s.Fresh) : es = [] ↔ (s.run source).1.journal.hadError = true := by
  cases h with
  | nothing h => simp [h s hs]
  | @whole e v he hv h =>
    have hflag : (s.run source).1.journal.hadError = false := by
      rw [h s hs]
      exact hs.hadError_eq_false
    simp [hflag, List.ne_nil_of_mem e.self_mem_nodes]
  | @upTo e err j n first rest he hv h hn hblamed hnodes hj =>
    have hflag : (s.run source).1.journal.hadError = false := by
      rw [h s hs]
      exact (Bool.or_false _).trans hs.hadError_eq_false
    simp [hflag, List.ne_nil_of_mem n.self_mem_nodes]

/-- The trace of a text names its tokens in order, without the end of input. Nothing follows if a
static error is reported. If a value is written, all nodes of the tree follow in pre-order, and if
an operator node fails, the nodes up to the last one of its own subtree. -/
theorem trace_ends_with_failing_subtree (source : String) : ∃ own last es,
    (Scan.ofText source).tokens = own ++ [.endOfInput last] ∧ (∀ t ∈ own, t.isEnd = false) ∧
      trace source = own.map scannedText ++ es.map enteredText ∧ Enters source es ∧
      ∀ s : Session, s.Fresh → (es = [] ↔ (s.run source).1.journal.hadError = true) := by
  obtain ⟨own, last, htokens, hend, htrace⟩ := trace_eq source
  have henters := enters_entered source
  exact ⟨own, last, _, htokens, hend, htrace, henters, fun s hs => henters.eq_nil_iff hs⟩

-- The right operand is scanned, but the left one fails before it is entered.
example : trace "(-nil)==!true" = ["Scanned LEFT_PAREN ( null", "Scanned MINUS - null",
    "Scanned NIL nil null", "Scanned RIGHT_PAREN ) null", "Scanned EQUAL_EQUAL == null",
    "Scanned BANG ! null", "Scanned TRUE true null",
    "Evaluating (== (group (- nil)) (! true))", "Evaluating (group (- nil))",
    "Evaluating (- nil)", "Evaluating nil"] := by
  cbv

end Reckoner
