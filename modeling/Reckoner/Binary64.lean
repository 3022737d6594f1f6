/-!
Magnitudes of 64-bit floating-point numbers. A magnitude is a bit pattern without its sign, read as
a natural number. The magnitude after a finite one is the next larger number, and each finite one is
a whole number of units of 2^-1074, so that rounding is a comparison of natural numbers.
-/

namespace Reckoner.Binary64

/-- Powers are those of natural numbers, also beside a library that has powers in every monoid. -/
@[default_instance 20000]
instance (priority := high) powNat : Pow Nat Nat := instPowNat

/-- The magnitude of infinity. Finite magnitudes lie below it and those of no number above it. -/
def infinity : Nat := 0x7ff * 2 ^ 52

/-- The sign bit, which stands above all magnitudes. -/
def signBit : Nat := 2 ^ 63

/-- The power of two that the significand is multiplied by. The two lowest exponent fields share
the scale zero. -/
def scale (m : Nat) : Nat := m / 2 ^ 52 - 1

def significand (m : Nat) : Nat := m - 2 ^ 52 * scale m

/-- The number that a finite magnitude stands for, counted in units of 2^-1074. -/
def units (m : Nat) : Nat := significand m * 2 ^ scale m

/-- Twice the point halfway between a magnitude and the one before it. -/
def lowerBound (m : Nat) : Nat := units (m - 1) + units m

/-- Twice the point halfway between a magnitude and the one after it. -/
def upperBound (m : Nat) : Nat := units m + units (m + 1)

/-- A magnitude whose last bit is zero takes the halfway points on both sides. -/
def takesBounds (m : Nat) : Bool := m % 2 == 0

theorem units_lt_units_succ (m : Nat) : units m < units (m + 1) := by
  have hcases : scale (m + 1) = scale m ∧ significand (m + 1) = significand m + 1 ∨
      scale (m + 1) = scale m + 1 ∧ significand (m + 1) = 2 ^ 52 ∧ significand m < 2 ^ 53 := by
    simp only [significand, scale]
    omega
  have hpos : 0 < 2 ^ scale m := Nat.two_pow_pos _
  rcases hcases with ⟨hs, hm⟩ | ⟨hs, hm, hlt⟩
  · simp only [units, hs, hm]
    exact Nat.mul_lt_mul_of_pos_right (by omega) hpos
  · simp only [units, hs, hm, Nat.pow_succ]
    have := Nat.mul_lt_mul_of_pos_right hlt hpos
    omega

/-- A larger magnitude stands for a larger number. -/
theorem units_lt_units {a b : Nat} (h : a < b) : units a < units b := by
  induction b with
  | zero => omega
  | succ b ih =>
    rcases Nat.lt_or_ge a b with hlt | hge
    · exact Nat.lt_trans (ih hlt) (units_lt_units_succ b)
    · have hab : a = b := by omega
      subst hab
      exact units_lt_units_succ a

theorem units_le_units {a b : Nat} (h : a ≤ b) : units a ≤ units b := by
  rcases Nat.eq_or_lt_of_le h with rfl | hlt
  · exact Nat.le_refl _
  · exact Nat.le_of_lt (units_lt_units hlt)

theorem lowerBound_succ (m : Nat) : lowerBound (m + 1) = upperBound m := rfl

end Reckoner.Binary64
