import Reckoner.Proofs.ChangedLines

/-!
Skeletons, trees without groups and without the lines of their operators. Evaluation passes through
groups, and the line of an operator shows only in the failure that it reports, so the skeleton of a
tree decides its value, and its failure up to a line.
-/

namespace Reckoner

/-- The token with its line forgotten. -/
def Token.unplaced (t : Token) : Token := ⟨t.kind, t.lexeme, t.literal, 0⟩

/-- The failure with the line of its operator forgotten. -/
def Failure.unplaced : Failure → Failure
  | mismatch e => mismatch ⟨e.fault, e.operator.unplaced⟩
  | foreign o => foreign o

theorem Failure.unplaced_eq : Failure.unplaced = Failure.mapLine (fun _ => 0) := by
  funext failure
  cases failure with
  | mismatch e => rfl
  | foreign o => rfl

namespace Expr

def skeleton : Expr → Expr
  | literal v => literal v
  | group e => e.skeleton
  | unary op e => unary op.unplaced e.skeleton
  | binary l op r => binary l.skeleton op.unplaced r.skeleton

/-- Evaluation does not see groups, and it sees the lines of operators only in failures. -/
theorem evaluate_skeleton (e : Expr) :
    e.skeleton.evaluate = e.evaluate.mapError Failure.unplaced := by
  rw [Failure.unplaced_eq]
  induction e with
  | literal v => rfl
  | group e ih => exact ih
  | unary op e ih =>
    simp only [skeleton, evaluate, ih]
    cases e.evaluate with
    | error failure => rfl
    | ok v => exact applyUnary_mapLine (fun _ => 0) op v
  | binary l op r ihl ihr =>
    simp only [skeleton, evaluate, ihl, ihr]
    cases l.evaluate with
    | error failure => rfl
    | ok left =>
      cases r.evaluate with
      | error failure => rfl
      | ok right => exact applyBinary_mapLine (fun _ => 0) op left right

end Expr

end Reckoner
