/-!
Decimals and their text. A decimal with few digits before or behind the point is written
positionally, any other one with one digit before the point and an exponent.
-/

namespace Reckoner

/-- The number `coefficient * 10 ^ exponent`. -/
structure Decimal where
  coefficient : Nat
  exponent : Int
  deriving DecidableEq, Repr

namespace Decimal

def digits (d : Decimal) : List Char := Nat.toDigits 10 d.coefficient

/-- The place of the decimal point, counted from the front of the digits. -/
def point (d : Decimal) : Int := d.digits.length + d.exponent

/-- The exponent that follows the mark `e`, always with its sign. -/
def exponentText (x : Int) : List Char :=
  (if x < 0 then '-' else '+') :: Nat.toDigits 10 x.natAbs

/-- The digits with the point after the first of them, and without a point if there is only one. -/
def mantissaText : List Char → List Char
  | first :: second :: rest => first :: '.' :: second :: rest
  | ds => ds

/-- The positional text of digits whose point stands at most at the 21st place and at most five
zeros before them. -/
def positionalText (ds : List Char) (point : Int) : List Char :=
  if ds.length ≤ point then ds ++ List.replicate (point - ds.length).toNat '0'
  else if 0 < point then ds.take point.toNat ++ '.' :: ds.drop point.toNat
  else '0' :: '.' :: List.replicate (-point).toNat '0' ++ ds

def text (d : Decimal) : List Char :=
  if -6 < d.point ∧ d.point ≤ 21 then positionalText d.digits d.point
  else mantissaText d.digits ++ 'e' :: exponentText (d.point - 1)

end Decimal

end Reckoner
