import Reckoner.Expr.Evaluation
import Reckoner.Expr.Reading

/-!
Tokens and trees with other lines. Reading and evaluation never look at the line of a token, and
the canonical form does not show it. So it does not matter whether the lines are changed before
tokens are read and trees are evaluated or afterwards, in the tree or the failure that comes out.
-/

namespace Reckoner

/-- The token with its line changed. -/
def Token.mapLine (f : Nat → Nat) (t : Token) : Token := ⟨t.kind, t.lexeme, t.literal, f t.line⟩

/-- The failure with the line of its operator changed. -/
def Failure.mapLine (f : Nat → Nat) : Failure → Failure
  | mismatch e => mismatch ⟨e.fault, e.operator.mapLine f⟩
  | foreign o => foreign o

/-- The failure with another token for its operator. -/
def Failure.moveTo (op : Token) : Failure → Failure
  | mismatch e => mismatch ⟨e.fault, op⟩
  | foreign o => foreign o

namespace Expr

/-- The tree with the lines of its operators changed. -/
def mapLine (f : Nat → Nat) : Expr → Expr
  | literal v => literal v
  | group e => group (e.mapLine f)
  | unary op e => unary (op.mapLine f) (e.mapLine f)
  | binary l op r => binary (l.mapLine f) (op.mapLine f) (r.mapLine f)

theorem text_mapLine (f : Nat → Nat) (e : Expr) : (e.mapLine f).text = e.text := by
  induction e with
  | literal v => rfl
  | group e ih => simp only [mapLine, text, ih]
  | unary op e ih => simp only [mapLine, text, ih, Token.mapLine]
  | binary l op r ihl ihr => simp only [mapLine, text, ihl, ihr, Token.mapLine]

/-- More of an operator than its kind is seen in failures only. -/
theorem applyUnary_moveTo {op op' : Token} (h : op.kind = op'.kind) (v : Value) :
    applyUnary op' v = (applyUnary op v).mapError (Failure.moveTo op') := by
  unfold applyUnary
  rw [← h]
  split
  · rfl
  · cases v <;> rfl
  · simp only [foreign, h]
    rfl

theorem applyBinary_moveTo {op op' : Token} (h : op.kind = op'.kind) (left right : Value) :
    applyBinary op' left right = (applyBinary op left right).mapError (Failure.moveTo op') := by
  have hforeign : foreign .binary op' = (foreign .binary op).mapError (Failure.moveTo op') := by
    simp only [foreign, h]
    rfl
  unfold applyBinary
  rw [← h]
  split
  · rfl
  · rfl
  · split <;> rfl
  · split
    · exact hforeign
    · split <;> rfl
  · exact hforeign

theorem mapLine_moveTo (f : Nat → Nat) (op : Token) (result : Result) :
    (result.mapError (Failure.moveTo op)).mapError (Failure.mapLine f) =
      result.mapError (Failure.moveTo (op.mapLine f)) := by
  rcases result with (_ | _) | _ <;> rfl

theorem applyUnary_mapLine (f : Nat → Nat) (op : Token) (v : Value) :
    applyUnary (op.mapLine f) v = (applyUnary op v).mapError (Failure.mapLine f) := by
  have hkind : op.kind = (op.mapLine f).kind := rfl
  calc applyUnary (op.mapLine f) v
      = (applyUnary op v).mapError (Failure.moveTo (op.mapLine f)) := applyUnary_moveTo hkind v
    _ = ((applyUnary op v).mapError (Failure.moveTo op)).mapError (Failure.mapLine f) :=
      (mapLine_moveTo f op _).symm
    _ = (applyUnary op v).mapError (Failure.mapLine f) := by rw [← applyUnary_moveTo rfl v]

theorem applyBinary_mapLine (f : Nat → Nat) (op : Token) (left right : Value) :
    applyBinary (op.mapLine f) left right =
      (applyBinary op left right).mapError (Failure.mapLine f) := by
  have hkind : op.kind = (op.mapLine f).kind := rfl
  calc applyBinary (op.mapLine f) left right
      = (applyBinary op left right).mapError (Failure.moveTo (op.mapLine f)) :=
      applyBinary_moveTo hkind left right
    _ = ((applyBinary op left right).mapError (Failure.moveTo op)).mapError (Failure.mapLine f) :=
      (mapLine_moveTo f op _).symm
    _ = (applyBinary op left right).mapError (Failure.mapLine f) := by
      rw [← applyBinary_moveTo rfl left right]

/-- Evaluation sees the lines of operators only in failures. -/
theorem evaluate_mapLine (f : Nat → Nat) (e : Expr) :
    (e.mapLine f).evaluate = e.evaluate.mapError (Failure.mapLine f) := by
  induction e with
  | literal v => rfl
  | group e ih => exact ih
  | unary op e ih =>
    simp only [mapLine, evaluate, ih]
    cases e.evaluate with
    | error failure => rfl
    | ok v => exact applyUnary_mapLine f op v
  | binary l op r ihl ihr =>
    simp only [mapLine, evaluate, ihl, ihr]
    cases l.evaluate with
    | error failure => rfl
    | ok left =>
      cases r.evaluate with
      | error failure => rfl
      | ok right => exact applyBinary_mapLine f op left right

end Expr

def Pending.mapLine (f : Nat → Nat) : Pending → Pending
  | unary op => unary (op.mapLine f)
  | group => group
  | binary level left op => binary level (left.mapLine f) (op.mapLine f)

theorem settle_mapLine (f : Nat → Nat) (level : Nat) (waiting : List Pending) (e : Expr) :
    settle level (waiting.map (Pending.mapLine f)) (e.mapLine f) =
      ((settle level waiting e).1.map (Pending.mapLine f),
        (settle level waiting e).2.mapLine f) := by
  induction waiting generalizing e with
  | nil => rfl
  | cons p rest ih =>
    cases p with
    | unary op => exact ih (.unary op e)
    | group => rfl
    | binary l left op =>
      simp only [List.map_cons, Pending.mapLine, settle]
      split
      · exact ih (.binary left op e)
      · rfl

namespace Reading

def mapLine (f : Nat → Nat) (state : Reading) : Reading :=
  ⟨state.waiting.map (Pending.mapLine f), state.operand.map (Expr.mapLine f)⟩

def Step.mapLine (f : Nat → Nat) : Step → Step
  | next state => next (state.mapLine f)
  | accepted e => accepted (e.mapLine f)
  | refused fault => refused fault

theorem stepOperand_mapLine (f : Nat → Nat) (waiting : List Pending) (t : Token) :
    stepOperand (waiting.map (Pending.mapLine f)) (t.mapLine f) =
      (stepOperand waiting t).mapLine f := by
  have hunary : (t.mapLine f).isUnary = t.isUnary := rfl
  have hopens : (t.mapLine f).opensGroup = t.opensGroup := rfl
  have hoperand : (t.mapLine f).operand? = t.operand? := rfl
  unfold stepOperand
  rw [hunary, hopens, hoperand]
  split
  · rfl
  split
  · rfl
  split <;> rfl

theorem stepOperator_mapLine (f : Nat → Nat) (waiting : List Pending) (e : Expr) (t : Token) :
    stepOperator (waiting.map (Pending.mapLine f)) (e.mapLine f) (t.mapLine f) =
      (stepOperator waiting e t).mapLine f := by
  have hlevel : (t.mapLine f).level? = t.level? := rfl
  have hcloses : (t.mapLine f).closesGroup = t.closesGroup := rfl
  have hisEnd : (t.mapLine f).isEnd = t.isEnd := rfl
  unfold stepOperator
  simp only [hlevel, hcloses, hisEnd, settle_mapLine]
  cases t.level? with
  | some level => rfl
  | none =>
    -- With no operator to join, the stack is empty or waits for a parenthesis.
    have hhead := settle_head 0 waiting e
    generalize settle 0 waiting e = settled at hhead ⊢
    obtain ⟨left, whole⟩ := settled
    rcases hhead with hnil | ⟨rest, hgroup⟩ | ⟨l, joined, op, rest, hbinary, hl⟩
    · cases hnil
      simp only [List.map_nil]
      split <;> rfl
    · cases hgroup
      simp only [List.map_cons, Pending.mapLine]
      split <;> rfl
    · omega

theorem step_mapLine (f : Nat → Nat) (state : Reading) (t : Token) :
    (state.mapLine f).step (t.mapLine f) = (state.step t).mapLine f := by
  obtain ⟨waiting, operand⟩ := state
  cases operand with
  | none => exact stepOperand_mapLine f waiting t
  | some e => exact stepOperator_mapLine f waiting e t

/-- Reading builds the same tree from tokens on other lines, or stops at the same token. -/
theorem run_mapLine (f : Nat → Nat) (state : Reading) (ts : List Token) :
    (state.mapLine f).run (ts.map (Token.mapLine f)) =
      ((state.run ts).1.map (Expr.mapLine f), (state.run ts).2.map (Token.mapLine f)) := by
  induction ts generalizing state with
  | nil => rfl
  | cons t rest ih =>
    simp only [List.map_cons, run, step_mapLine]
    cases state.step t with
    | next after => exact ih after
    | accepted e => rfl
    | refused fault => rfl

end Reading

end Reckoner
