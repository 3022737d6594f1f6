import Reckoner.Proofs.DistinctNumerals
import Reckoner.Proofs.FirstFailure

/-!
Equality of values and what is written for them. Values are equal exactly if they are of one kind
and have the same text, but for NaN, which equals nothing. The text alone does not tell values
apart, as a string may have the text of any value, and the two zeros share theirs. Equality is
therefore symmetric and transitive, and the two operators that ask for it never fail.
-/

namespace Reckoner.Value

def isNaN : Value → Bool
  | number x => x.isNaN
  | _ => false

/-- That two values are of one kind and have the same text, and neither is NaN. -/
structure Alike (v w : Value) : Prop where
  kind : v.kind = w.kind
  text : v.text = w.text
  left : v.isNaN = false
  right : w.isNaN = false

theorem alike_iff {v w : Value} : Alike v w ↔
    v.kind = w.kind ∧ v.text = w.text ∧ v.isNaN = false ∧ w.isNaN = false :=
  ⟨fun h => ⟨h.kind, h.text, h.left, h.right⟩, fun ⟨hkind, htext, hv, hw⟩ => ⟨hkind, htext, hv, hw⟩⟩

instance (v w : Value) : Decidable (Alike v w) := decidable_of_iff' _ alike_iff

theorem number_beq_iff {x y : Float} :
    (number x == number y) = true ↔ Alike (number x) (number y) := by
  have hbeq : (number x == number y) = (x == y) := rfl
  rw [hbeq]
  constructor
  · intro h
    exact ⟨rfl, Numeral.write_eq_write_iff.mpr (.inl h), Numeral.isNaN_eq_false_of_beq h,
      Numeral.isNaN_eq_false_of_beq (BEq.symm h)⟩
  · rintro ⟨-, htext, hx, -⟩
    rcases Numeral.write_eq_write_iff.mp htext with h | ⟨hnan, -⟩
    · exact h
    · cases hx.symm.trans hnan

theorem string_beq_iff {s t : String} :
    (string s == string t) = true ↔ Alike (string s) (string t) := by
  have hbeq : (string s == string t) = (s == t) := rfl
  rw [hbeq, beq_iff_eq]
  exact ⟨fun h => ⟨rfl, h, rfl, rfl⟩, Alike.text⟩

theorem bool_beq_iff {b c : Bool} : (bool b == bool c) = true ↔ Alike (bool b) (bool c) := by
  cases b <;> cases c <;> decide

/-- Values of different kinds are not equal, and they are not alike. -/
theorem beq_iff_alike_of_kind_ne {v w : Value} (hbeq : (v == w) = false) (hkind : v.kind ≠ w.kind) :
    (v == w) = true ↔ Alike v w :=
  iff_of_false (Bool.eq_false_iff.mp hbeq) fun halike => hkind halike.kind

/-- Equality is told by the kind and the text, but for NaN. -/
theorem beq_iff_alike {v w : Value} : (v == w) = true ↔ Alike v w := by
  cases v with
  | number x =>
    cases w with
    | number y => exact number_beq_iff
    | _ => exact beq_iff_alike_of_kind_ne rfl nofun
  | string s =>
    cases w with
    | string t => exact string_beq_iff
    | _ => exact beq_iff_alike_of_kind_ne rfl nofun
  | bool b =>
    cases w with
    | bool c => exact bool_beq_iff
    | _ => exact beq_iff_alike_of_kind_ne rfl nofun
  | nil =>
    cases w with
    | nil => decide
    | _ => exact beq_iff_alike_of_kind_ne rfl nofun

theorem Alike.symm {v w : Value} (h : Alike v w) : Alike w v :=
  ⟨h.kind.symm, h.text.symm, h.right, h.left⟩

theorem Alike.trans {u v w : Value} (h : Alike u v) (h' : Alike v w) : Alike u w :=
  ⟨h.kind.trans h'.kind, h.text.trans h'.text, h.left, h'.right⟩

theorem beq_self_iff {v : Value} : (v == v) = true ↔ v.isNaN = false :=
  beq_iff_alike.trans ⟨Alike.left, fun h => ⟨rfl, rfl, h, h⟩⟩

instance : PartialEquivBEq Value where
  symm h := beq_iff_alike.mpr (beq_iff_alike.mp h).symm
  trans h h' := beq_iff_alike.mpr ((beq_iff_alike.mp h).trans (beq_iff_alike.mp h'))

theorem beq_eq_decide (v w : Value) : (v == w) = decide (Alike v w) :=
  Bool.eq_iff_iff.mpr (beq_iff_alike.trans decide_eq_true_iff.symm)

/-- Values are equal exactly if they are of one kind with one text and neither is NaN. So equality
is symmetric and transitive, only NaN differs from itself, and the two operators that ask whether
two values are equal or differ give the answer for all operands that have values. -/
theorem equal_values_are_alike :
    (∀ v w : Value, v == w ↔ Alike v w) ∧
    (∀ v w : Value, v == w → w == v) ∧
    (∀ u v w : Value, u == v → v == w → u == w) ∧
    (∀ v : Value, v == v ↔ v.isNaN = false) ∧
    ∀ (l r : Expr) (v w : Value) (op : Token), l.evaluate = .ok v → r.evaluate = .ok w →
      (op.kind = .symbol .equalEqual →
        (Expr.binary l op r).evaluate = .ok (.bool (decide (Alike v w)))) ∧
      (op.kind = .symbol .bangEqual →
        (Expr.binary l op r).evaluate = .ok (.bool (!decide (Alike v w)))) := by
  refine ⟨fun v w => beq_iff_alike, fun v w => BEq.symm, fun u v w => BEq.trans,
    fun v => beq_self_iff, ?_⟩
  intro l r v w op hl hr
  rw [FirstFailure.evaluate_binary hl hr, ← beq_eq_decide]
  constructor
  · intro hop
    simp only [Expr.applyBinary, hop]
  · intro hop
    simp only [Expr.applyBinary, hop]

/-- The negated zero equals zero, and the string with the text of a number does not equal it. -/
theorem equal_values_are_alike_zeros :
    let zero : Value := .number 0
    let negative : Expr := .unary ⟨.symbol .minus, "-", none, 1⟩ (.literal zero)
    let equal : Token := ⟨.symbol .equalEqual, "==", none, 1⟩
    let differ : Token := ⟨.symbol .bangEqual, "!=", none, 1⟩
    let compare (l : Expr) (op : Token) (r : Expr) : Result := (Expr.binary l op r).evaluate
    (zero == .number (-0)) ∧ (.number (-0) == zero) ∧ (zero == zero) ∧
      (Expr.literal zero).evaluate = .ok zero ∧ negative.evaluate = .ok (.number (-0)) ∧
      compare (.literal zero) equal negative = .ok (.bool true) ∧
      compare (.literal zero) differ negative = .ok (.bool false) ∧
      compare (.literal zero) equal (.literal (.string "0")) = .ok (.bool false) := by
  intro zero negative equal differ compare
  obtain ⟨halike, hsymm, htrans, -, hcompare⟩ := equal_values_are_alike
  have hsame : Alike zero (.number (-0)) := by decide +kernel
  have hother : ¬ Alike zero (.string "0") := fun h => nomatch h.kind
  have hzeros := (halike _ _).mpr hsame
  have hzeros' := hsymm _ _ hzeros
  have hzero : (Expr.literal zero).evaluate = .ok zero := rfl
  have hnegative : negative.evaluate = .ok (.number (-0)) := rfl
  have hstring : (Expr.literal (.string "0")).evaluate = .ok (.string "0") := rfl
  have hequal := (hcompare _ _ _ _ equal hzero hnegative).1 rfl
  have hdiffer := (hcompare _ _ _ _ differ hzero hnegative).2 rfl
  have hequal' := (hcompare _ _ _ _ equal hzero hstring).1 rfl
  rw [decide_eq_true hsame] at hequal hdiffer
  rw [decide_eq_false hother] at hequal'
  exact ⟨hzeros, hzeros', htrans _ _ _ hzeros hzeros', hzero, hnegative, hequal, hdiffer, hequal'⟩

end Reckoner.Value
