import Reckoner.Binary64
import Reckoner.Decimal

/-!
The shortest decimal of a finite magnitude. Among the multiples of a power of ten that round to
the magnitude, it takes those of the highest power, and of these the nearest one. All quantities
are counted in units of 10^-1074, of which every finite magnitude is a whole number.
-/

namespace Reckoner.Decimal

/-- The numbers that round to one magnitude, by twice their lowest and highest bounds. -/
structure Span where
  low : Nat
  high : Nat
  closed : Bool

def Span.contains (s : Span) (x : Nat) : Bool :=
  if s.closed then s.low ≤ 2 * x && 2 * x ≤ s.high else s.low < 2 * x && 2 * x < s.high

/-- The multiple of `10 ^ place` in the span that is nearest to `x`, divided by that power. Of two
that are equally near it takes the upper one. -/
def nearestMultiple? (s : Span) (x place : Nat) : Option Nat :=
  let unit := 10 ^ place
  let below := x / unit
  match s.contains (below * unit), s.contains ((below + 1) * unit) with
  | true, true => some (if 2 * (x % unit) < unit then below else below + 1)
  | true, false => some below
  | false, true => some (below + 1)
  | false, false => none

/-- The first place from `place` downwards at which the span holds a multiple, with the multiple.
The number `x` itself stands at place zero. -/
def coarsest (s : Span) (x : Nat) : (place : Nat) → Nat × Nat
  | 0 => (x, 0)
  | place + 1 =>
    match nearestMultiple? s x (place + 1) with
    | some multiple => (multiple, place + 1)
    | none => coarsest s x place

theorem contains_of_nearestMultiple? {s : Span} {x place multiple : Nat}
    (h : nearestMultiple? s x place = some multiple) :
    s.contains (multiple * 10 ^ place) = true := by
  simp only [nearestMultiple?] at h
  split at h <;> simp_all
  split at h <;> simp_all

theorem contains_coarsest {s : Span} {x : Nat} (hx : s.contains x = true) (place : Nat) :
    s.contains ((coarsest s x place).1 * 10 ^ (coarsest s x place).2) = true := by
  induction place with
  | zero => simpa [coarsest] using hx
  | succ place ih =>
    simp only [coarsest]
    split
    · next multiple h => exact contains_of_nearestMultiple? h
    · exact ih

/-- A place so high that its power of ten exceeds `n`, since 2^13 is less than 10^4. -/
def placeAbove (n : Nat) : Nat := 4 * (n.log2 / 13 + 1)

/-- The numbers that round to a magnitude, in units of 10^-1074. -/
def spanOf (m : Nat) : Span where
  low := Binary64.lowerBound m * 5 ^ 1074
  high := Binary64.upperBound m * 5 ^ 1074
  closed := Binary64.takesBounds m

/-- The decimal with the fewest digits that rounds to a finite magnitude other than zero. -/
def shortest (m : Nat) : Decimal :=
  let s := spanOf m
  let (multiple, place) := coarsest s (Binary64.units m * 5 ^ 1074) (placeAbove s.high)
  ⟨multiple, (place : Int) - 1074⟩

end Reckoner.Decimal
