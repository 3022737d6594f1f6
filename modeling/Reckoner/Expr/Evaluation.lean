import Reckoner.Diagnostic
import Reckoner.Expr

/-!
Evaluation of expressions. The operands of an operator are evaluated first, the left one before the
right one, and the operator is looked at afterwards. Equality accepts all operands, plus two numbers
or two strings, and the other operators numbers only.
-/

namespace Reckoner

inductive OperandFault
  | notNumber
  | notNumbersOrStrings
  deriving DecidableEq

def OperandFault.message : OperandFault → String
  | notNumber => "Operand must be number."
  | notNumbersOrStrings => "Operands must be two numbers or two strings."

/-- Operands that the operator does not accept. -/
structure RuntimeError where
  fault : OperandFault
  operator : Token

def RuntimeError.diagnostic (e : RuntimeError) : Diagnostic :=
  .runtime e.operator.line e.fault.message

def RuntimeError.text (e : RuntimeError) : String := e.diagnostic.text

inductive Arity
  | unary
  | binary
  deriving DecidableEq

def Arity.text : Arity → String
  | unary => "unary"
  | binary => "binary"

/-- A token at an operator node that is no operator of this arity. -/
structure ForeignOperator where
  arity : Arity
  kind : TokenKind
  deriving DecidableEq

def ForeignOperator.message (o : ForeignOperator) : String :=
  o.kind.name ++ " is not a " ++ o.arity.text ++ " operator"

inductive Failure
  | mismatch (e : RuntimeError)
  | foreign (o : ForeignOperator)

abbrev Result := Except Failure Value

namespace Expr

def mismatch (fault : OperandFault) (op : Token) : Result := .error (.mismatch ⟨fault, op⟩)

def foreign (arity : Arity) (op : Token) : Result := .error (.foreign ⟨arity, op.kind⟩)

def applyUnary (op : Token) (v : Value) : Result :=
  match op.kind with
  | .symbol .bang => .ok (.bool (!v.isTruthy))
  | .symbol .minus =>
    match v with
    | .number x => .ok (.number (-x))
    | _ => mismatch .notNumber op
  | _ => foreign .unary op

/-- What an operator computes that accepts numbers only. -/
def numeric? : Symbol → Option (Float → Float → Value)
  | .minus => some fun x y => .number (x - y)
  | .slash => some fun x y => .number (x / y)
  | .star => some fun x y => .number (x * y)
  | .greater => some fun x y => .bool (x > y)
  | .greaterEqual => some fun x y => .bool (x ≥ y)
  | .less => some fun x y => .bool (x < y)
  | .lessEqual => some fun x y => .bool (x ≤ y)
  | _ => none

def applyBinary (op : Token) (left right : Value) : Result :=
  match op.kind with
  | .symbol .equalEqual => .ok (.bool (left == right))
  | .symbol .bangEqual => .ok (.bool (!(left == right)))
  | .symbol .plus =>
    match left, right with
    | .number x, .number y => .ok (.number (x + y))
    | .string s, .string t => .ok (.string (s ++ t))
    | _, _ => mismatch .notNumbersOrStrings op
  | .symbol s =>
    match numeric? s with
    | none => foreign .binary op
    | some compute =>
      match left, right with
      | .number x, .number y => .ok (compute x y)
      | _, _ => mismatch .notNumber op
  | _ => foreign .binary op

def evaluate : Expr → Result
  | literal v => .ok v
  | group e => evaluate e
  | unary op e => do
    let v ← evaluate e
    applyUnary op v
  | binary l op r => do
    let left ← evaluate l
    let right ← evaluate r
    applyBinary op left right

/-- The nodes that evaluation enters, in order. A failure on the left keeps it from the right. -/
def entered : Expr → List Expr
  | literal v => [literal v]
  | group e => group e :: entered e
  | unary op e => unary op e :: entered e
  | binary l op r =>
    binary l op r :: (entered l ++
      match evaluate l with
      | .ok _ => entered r
      | .error _ => [])

end Expr

end Reckoner
