import Reckoner.Journal
import Reckoner.Scan

/-!
Reports, the diagnostics that a reporter was given. A reporter that collects has kept them. A
reporter that writes holds as much of their text as its sink takes, from the first byte on, and
counts those that do not end within the limit of the sink.
-/

namespace Reckoner

/-- The errors of the scan of a text as they are reported. -/
def Scan.diagnostics (source : String) : List Diagnostic :=
  (Scan.ofText source).errors.map LexicalError.diagnostic

theorem Scan.any_isRuntime_diagnostics (source : String) :
    (Scan.diagnostics source).any (·.isRuntime) = false := by
  simp [Scan.diagnostics, LexicalError.diagnostic, Diagnostic.isRuntime]

theorem Scan.any_static_diagnostics (source : String) :
    (Scan.diagnostics source).any (!·.isRuntime) = !(Scan.ofText source).errors.isEmpty := by
  unfold Scan.diagnostics
  cases (Scan.ofText source).errors <;> rfl

theorem Utf8.encode_line_ne_nil (text : String) : Utf8.encode (text ++ "\n") ≠ [] := by
  rw [Utf8.encode_append]
  exact List.append_ne_nil_of_right_ne_nil _ (List.cons_ne_nil _ _)

/-- What is written of a diagnostic. -/
def Diagnostic.written (d : Diagnostic) : List UInt8 := Utf8.encode (d.text ++ "\n")

theorem Diagnostic.written_ne_nil (d : Diagnostic) : d.written ≠ [] :=
  Utf8.encode_line_ne_nil d.text

/-- What is written of diagnostics, one after another. -/
def reportText (ds : List Diagnostic) : List UInt8 := ds.flatMap Diagnostic.written

/-- The places at which diagnostics end in a text that has `start` bytes before them. -/
def endsFrom (start : Nat) : List Diagnostic → List Nat
  | [] => []
  | d :: rest =>
    let stop := start + d.written.length
    stop :: endsFrom stop rest

namespace Sink

/-- Whether a place lies behind the limit, if there is one. -/
def exceeds (capacity : Option Nat) (place : Nat) : Bool := capacity.any (· < place)

/-- A text that is not empty fits if it ends within the limit. -/
theorem write_keep (capacity : Option Nat) (before : List UInt8) {text : String}
    (htext : Utf8.encode text ≠ []) :
    (⟨capacity, keep capacity before⟩ : Sink).write text =
      (⟨capacity, keep capacity (before ++ Utf8.encode text)⟩,
        !exceeds capacity (before ++ Utf8.encode text).length) := by
  have hpos : 0 < (Utf8.encode text).length := List.length_pos_iff.mpr htext
  simp only [write, keep_keep_append, Prod.mk.injEq, true_and]
  cases capacity with
  | none => simp [keep, exceeds]
  | some n =>
    simp only [keep, exceeds, Option.any_some, List.length_take, List.length_append]
    rw [Bool.eq_iff_iff]
    simp only [beq_iff_eq, Bool.not_eq_true', decide_eq_false_iff_not]
    omega

end Sink

namespace Reporter

theorem foldl_report_keeping (kept ds : List Diagnostic) :
    ds.foldl report (.keeping kept) = .keeping (kept ++ ds) := by
  induction ds generalizing kept with
  | nil => rw [List.foldl_nil, List.append_nil]
  | cons d rest ih => simp only [List.foldl_cons, report, ih, List.append_assoc, List.cons_append,
      List.nil_append]

theorem foldl_report_writing (capacity : Option Nat) (before : List UInt8) (failures : Nat)
    (ds : List Diagnostic) :
    ds.foldl report (.writing ⟨capacity, Sink.keep capacity before⟩ failures) =
      .writing ⟨capacity, Sink.keep capacity (before ++ reportText ds)⟩
        (failures + (endsFrom before.length ds).countP (Sink.exceeds capacity)) := by
  induction ds generalizing before failures with
  | nil => simp [reportText, endsFrom]
  | cons d rest ih =>
    have hfirst : report (.writing ⟨capacity, Sink.keep capacity before⟩ failures) d =
        .writing ⟨capacity, Sink.keep capacity (before ++ d.written)⟩
          (failures + if Sink.exceeds capacity (before.length + d.written.length) then 1 else 0) := by
      simp only [report, Sink.write_keep capacity before d.written_ne_nil, List.length_append,
        Diagnostic.written]
      split <;> simp_all
    rw [List.foldl_cons, hfirst, ih, List.length_append, List.append_assoc, endsFrom,
      List.countP_cons, Nat.add_assoc, Nat.add_comm (List.countP _ _)]
    rfl

/-- The sink holds the first bytes of the text, and the diagnostics that end behind its limit are
failures. -/
theorem foldl_report_writingTo (capacity : Option Nat) (ds : List Diagnostic) :
    ds.foldl report (.writingTo capacity) =
      .writing ⟨capacity, Sink.keep capacity (reportText ds)⟩
        ((endsFrom 0 ds).countP (Sink.exceeds capacity)) := by
  have hstart : writingTo capacity = .writing ⟨capacity, Sink.keep capacity []⟩ 0 := by
    rw [Sink.keep_nil]
    rfl
  rw [hstart, foldl_report_writing, List.nil_append, Nat.zero_add, List.length_nil]

end Reporter

end Reckoner
