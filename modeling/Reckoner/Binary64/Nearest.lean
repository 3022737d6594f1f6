import Reckoner.Binary64

/-!
Rounding a fraction to the nearest magnitude. A fraction reaches a magnitude if it lies above the
halfway point below it, or on this point and the magnitude is even. The magnitudes that a fraction
reaches are an initial segment, and the last of them is the nearest.
-/

namespace Reckoner.Binary64

/-- The largest number that is `base` plus less than `2 ^ width` and passes a test, for a test that
`base` passes and that no number passes after one that fails. -/
def lastPassing (test : Nat → Bool) : (width base : Nat) → Nat
  | 0, base => base
  | width + 1, base =>
    if test (base + 2 ^ width) then lastPassing test width (base + 2 ^ width)
    else lastPassing test width base

theorem lastPassing_lt (test : Nat → Bool) (width base : Nat) :
    lastPassing test width base < base + 2 ^ width := by
  induction width generalizing base with
  | zero => simp [lastPassing]
  | succ width ih =>
    have hpow : 2 ^ (width + 1) = 2 ^ width + 2 ^ width := by omega
    have hpos : 0 < 2 ^ width := Nat.two_pow_pos width
    simp only [lastPassing]
    split
    · have := ih (base + 2 ^ width)
      omega
    · have := ih base
      omega

theorem test_lastPassing (test : Nat → Bool) (width base : Nat) (h : test base = true) :
    test (lastPassing test width base) = true := by
  induction width generalizing base with
  | zero => exact h
  | succ width ih =>
    simp only [lastPassing]
    split
    · next hnext => exact ih _ hnext
    · exact ih base h

/-- Nothing in the range after the number that is found passes the test. -/
theorem le_lastPassing (test : Nat → Bool)
    (hdown : ∀ a b, a ≤ b → test b = true → test a = true) (width base n : Nat)
    (hn : test n = true) (hlt : n < base + 2 ^ width) : n ≤ lastPassing test width base := by
  induction width generalizing base with
  | zero =>
    simp only [lastPassing]
    omega
  | succ width ih =>
    have hpow : 2 ^ (width + 1) = 2 ^ width + 2 ^ width := by omega
    simp only [lastPassing]
    split
    · exact ih _ (by omega)
    · next hfail =>
      rcases Nat.lt_or_ge n (base + 2 ^ width) with hin | hout
      · exact ih base hin
      · exact absurd (hdown _ _ hout hn) hfail

/-- Whether `num / den` units round to the magnitude `m` or to a larger one. -/
def reaches (num den m : Nat) : Bool :=
  if takesBounds m then den * lowerBound m ≤ 2 * num else den * lowerBound m < 2 * num

/-- The magnitude nearest to `num / den` units. Ties go to the even magnitude, and what is not
nearer to a finite one than to the number after the largest becomes infinity. -/
def nearest (num den : Nat) : Nat :=
  lastPassing (fun m => m ≤ infinity && reaches num den m) 63 0

/-- The magnitude nearest to `coefficient * 10 ^ (-places)`. -/
def ofDecimal (coefficient places : Nat) : Nat :=
  nearest (coefficient * 2 ^ 1074) (10 ^ places)

end Reckoner.Binary64
