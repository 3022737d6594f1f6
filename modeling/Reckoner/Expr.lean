import Reckoner.Value

/-!
Expressions as trees. An operator node keeps the token of its operator, so that a fault can be shown
at its line; a tree built by hand may hold any token there. The canonical form writes each node
with its operator first.
-/

namespace Reckoner

inductive Expr
  | literal (value : Value)
  | group (inner : Expr)
  | unary (operator : Token) (operand : Expr)
  | binary (left : Expr) (operator : Token) (right : Expr)
  deriving BEq

namespace Expr

/-- The canonical form. -/
def text : Expr → String
  | literal v => v.text
  | group e => "(group " ++ e.text ++ ")"
  | unary op e => "(" ++ op.lexeme ++ " " ++ e.text ++ ")"
  | binary l op r => "(" ++ op.lexeme ++ " " ++ l.text ++ " " ++ r.text ++ ")"

/-- The subtrees with their depths, each before its parts and the left part before the right. -/
def outlineFrom (depth : Nat) : Expr → List (Nat × Expr)
  | literal v => [(depth, literal v)]
  | group e => (depth, group e) :: outlineFrom (depth + 1) e
  | unary op e => (depth, unary op e) :: outlineFrom (depth + 1) e
  | binary l op r =>
    (depth, binary l op r) :: (outlineFrom (depth + 1) l ++ outlineFrom (depth + 1) r)

def outline (e : Expr) : List (Nat × Expr) := outlineFrom 0 e

/-- The starting depth has no influence on the order of the subtrees. -/
theorem map_snd_outlineFrom (a b : Nat) (e : Expr) :
    (e.outlineFrom a).map Prod.snd = (e.outlineFrom b).map Prod.snd := by
  induction e generalizing a b with
  | literal v => rfl
  | group e ih => simp only [outlineFrom, List.map_cons, ih (a + 1) (b + 1)]
  | unary op e ih => simp only [outlineFrom, List.map_cons, ih (a + 1) (b + 1)]
  | binary l op r ihl ihr =>
    simp only [outlineFrom, List.map_cons, List.map_append, ihl (a + 1) (b + 1),
      ihr (a + 1) (b + 1)]

end Expr

end Reckoner
