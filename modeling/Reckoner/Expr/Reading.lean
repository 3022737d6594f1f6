import Reckoner.Expr

/-!
Reading an expression from tokens in one pass. Operators that wait for their right operand and open
parentheses are kept on a stack. A complete operand is joined to the waiting operators that bind at
least as tightly as the next one, which makes binary operators associate to the left; a unary
operator binds tighter than all of them.
-/

namespace Reckoner

/-- How tightly a binary operator binds. Operators of equal level associate to the left. -/
def Symbol.level? : Symbol → Option Nat
  | .bangEqual | .equalEqual => some 0
  | .greater | .greaterEqual | .less | .lessEqual => some 1
  | .minus | .plus => some 2
  | .slash | .star => some 3
  | _ => none

namespace Token

def level? (t : Token) : Option Nat :=
  match t.kind with
  | .symbol s => s.level?
  | _ => none

def isUnary (t : Token) : Bool := t.kind == .symbol .bang || t.kind == .symbol .minus

def opensGroup (t : Token) : Bool := t.kind == .symbol .leftParen

def closesGroup (t : Token) : Bool := t.kind == .symbol .rightParen

/-- The value of a token that is an operand by itself. A number or string token needs its literal. -/
def operand? (t : Token) : Option Value :=
  match t.kind with
  | .keyword .falseWord => some (.bool false)
  | .keyword .trueWord => some (.bool true)
  | .keyword .nilWord => some .nil
  | .number | .string => t.literal.map Literal.value
  | _ => none

end Token

inductive SyntaxFault
  | expectedExpression
  | expectedRightParen
  | expectedEnd
  deriving DecidableEq

/-- What waits for an operand. -/
inductive Pending
  | unary (operator : Token)
  | group
  | binary (level : Nat) (left : Expr) (operator : Token)

/-- Joins an operand to the waiting operators that bind at least as tightly as `level`. -/
def settle (level : Nat) : List Pending → Expr → List Pending × Expr
  | .unary op :: rest, e => settle level rest (.unary op e)
  | .binary l left op :: rest, e =>
    if level ≤ l then settle level rest (.binary left op e) else (.binary l left op :: rest, e)
  | waiting, e => (waiting, e)

/-- What then waits first is an open group or an operator that binds less tightly. -/
theorem settle_head (level : Nat) (waiting : List Pending) (e : Expr) :
    (settle level waiting e).1 = [] ∨ (∃ rest, (settle level waiting e).1 = .group :: rest) ∨
      ∃ l left op rest, (settle level waiting e).1 = .binary l left op :: rest ∧ l < level := by
  induction waiting generalizing e with
  | nil => exact Or.inl rfl
  | cons p rest ih =>
    cases p with
    | unary op => exact ih _
    | group => exact Or.inr (Or.inl ⟨rest, rfl⟩)
    | binary l left op =>
      simp only [settle]
      split
      · exact ih _
      · exact Or.inr (Or.inr ⟨l, left, op, rest, rfl, by omega⟩)

/-- The state of reading: what waits, innermost first, and the operand read last, unless one is
expected next. -/
structure Reading where
  waiting : List Pending
  operand : Option Expr

namespace Reading

inductive Step
  | next (state : Reading)
  | accepted (e : Expr)
  | refused (fault : SyntaxFault)

/-- The state before the first token. -/
def start : Reading := ⟨[], none⟩

def stepOperand (waiting : List Pending) (t : Token) : Step :=
  if t.isUnary then .next ⟨.unary t :: waiting, none⟩
  else if t.opensGroup then .next ⟨.group :: waiting, none⟩
  else match t.operand? with
    | some v => .next ⟨waiting, some (.literal v)⟩
    | none => .refused .expectedExpression

def stepOperator (waiting : List Pending) (e : Expr) (t : Token) : Step :=
  match t.level? with
  | some level =>
    let (rest, left) := settle level waiting e
    .next ⟨.binary level left t :: rest, none⟩
  | none =>
    match settle 0 waiting e with
    | (.group :: rest, inner) =>
      if t.closesGroup then .next ⟨rest, some (.group inner)⟩ else .refused .expectedRightParen
    | (_, whole) => if t.isEnd then .accepted whole else .refused .expectedEnd

def step (state : Reading) (t : Token) : Step :=
  match state.operand with
  | none => stepOperand state.waiting t
  | some e => stepOperator state.waiting e t

/-- Reads tokens up to the end of input or the first one that does not fit, and gives what is left
from there on. -/
def run (state : Reading) : List Token → Except SyntaxFault Expr × List Token
  | [] => (.error .expectedExpression, [])
  | t :: rest =>
    match state.step t with
    | .next after => after.run rest
    | .accepted e => (.ok e, t :: rest)
    | .refused fault => (.error fault, t :: rest)

theorem run_suffix (state : Reading) (tokens : List Token) : (state.run tokens).2 <:+ tokens := by
  induction tokens generalizing state with
  | nil => exact List.suffix_refl []
  | cons t rest ih =>
    simp only [run]
    split
    · next after _ => exact (ih after).trans (List.suffix_cons t rest)
    · exact List.suffix_refl _
    · exact List.suffix_refl _

end Reading

end Reckoner
