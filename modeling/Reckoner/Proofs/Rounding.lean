import Mathlib
import Reckoner.Decimal.Shortest
import Reckoner.Binary64.Nearest

/-!
Rounding and the shortest decimal. Rounding keeps the order of fractions, and it sends every number
of the span of a finite magnitude back to this magnitude. The shortest decimal of a magnitude is
taken from its span, and its size follows from the size of the magnitude.
-/

namespace Reckoner

namespace Binary64

theorem lowerBound_lt_lowerBound {a b : Nat} (h : a < b) : lowerBound a < lowerBound b := by
  have hpred : units (a - 1) ≤ units (b - 1) := units_le_units (by omega)
  have hlt : units a < units b := units_lt_units h
  unfold lowerBound
  omega

theorem reaches_zero (num den : Nat) : reaches num den 0 = true := by
  simp [reaches, takesBounds, lowerBound, units, significand]

/-- A fraction that reaches a magnitude reaches all smaller ones. -/
theorem reaches_of_le {num den a b : Nat} (hden : 0 < den) (hab : a ≤ b)
    (hb : reaches num den b = true) : reaches num den a = true := by
  rcases Nat.eq_or_lt_of_le hab with rfl | hlt
  · exact hb
  · have hbound : den * lowerBound a < den * lowerBound b :=
      Nat.mul_lt_mul_of_pos_left (lowerBound_lt_lowerBound hlt) hden
    unfold reaches at hb ⊢
    split at hb <;> split <;> simp only [decide_eq_true_eq] at hb ⊢ <;> omega

/-- A larger fraction reaches whatever a smaller one reaches. -/
theorem reaches_of_fraction_le {num den num' den' m : Nat} (hden : 0 < den) (hden' : 0 < den')
    (hle : num * den' ≤ num' * den) (h : reaches num den m = true) :
    reaches num' den' m = true := by
  have hcross : den' * (2 * num) ≤ den * (2 * num') := by
    calc den' * (2 * num) = 2 * (num * den') := by rw [Nat.mul_comm den', Nat.mul_assoc]
      _ ≤ 2 * (num' * den) := Nat.mul_le_mul_left 2 hle
      _ = den * (2 * num') := by rw [← Nat.mul_assoc, Nat.mul_comm]
  have hswap : den' * (den * lowerBound m) = den * (den' * lowerBound m) :=
    Nat.mul_left_comm den' den _
  unfold reaches at h ⊢
  by_cases hclosed : takesBounds m = true
  · rw [if_pos hclosed, decide_eq_true_eq] at h ⊢
    have hscaled := Nat.mul_le_mul_left den' h
    have hprod : den * (den' * lowerBound m) ≤ den * (2 * num') := by omega
    exact Nat.le_of_mul_le_mul_left hprod hden
  · rw [if_neg hclosed, decide_eq_true_eq] at h ⊢
    have hscaled := Nat.mul_lt_mul_of_pos_left h hden'
    have hprod : den * (den' * lowerBound m) < den * (2 * num') := by omega
    exact Nat.lt_of_mul_lt_mul_left hprod

/-- Rounding is an adjoint of reaching. -/
theorem le_nearest_iff {num den m : Nat} (hden : 0 < den) (hm : m ≤ infinity) :
    m ≤ nearest num den ↔ reaches num den m = true := by
  have hdown : ∀ a b, a ≤ b → (decide (b ≤ infinity) && reaches num den b) = true →
      (decide (a ≤ infinity) && reaches num den a) = true := by
    intro a b hab hb
    rw [Bool.and_eq_true, decide_eq_true_eq] at hb ⊢
    exact ⟨by omega, reaches_of_le hden hab hb.2⟩
  constructor
  · intro hle
    have htest := test_lastPassing (fun m => m ≤ infinity && reaches num den m) 63 0
      (by simp [reaches_zero])
    have hat := hdown m _ hle htest
    rw [Bool.and_eq_true] at hat
    exact hat.2
  · intro h
    have hlt : m < 0 + 2 ^ 63 := by
      unfold infinity at hm
      omega
    exact le_lastPassing _ hdown 63 0 m (by simp [hm, h]) hlt

theorem nearest_le_infinity (num den : Nat) : nearest num den ≤ infinity := by
  have htest := test_lastPassing (fun m => m ≤ infinity && reaches num den m) 63 0
    (by simp [reaches_zero])
  simp only [Bool.and_eq_true, decide_eq_true_eq] at htest
  exact htest.1

theorem nearest_mono {num den num' den' : Nat} (hden : 0 < den) (hden' : 0 < den')
    (hle : num * den' ≤ num' * den) : nearest num den ≤ nearest num' den' := by
  have hinf := nearest_le_infinity num den
  have hself := (le_nearest_iff hden hinf).mp (Nat.le_refl _)
  exact (le_nearest_iff hden' hinf).mpr (reaches_of_fraction_le hden hden' hle hself)

theorem nearest_eq_of_reaches {num den m : Nat} (hden : 0 < den) (hm : m < infinity)
    (h : reaches num den m = true) (hnext : reaches num den (m + 1) = false) :
    nearest num den = m := by
  have hle : m ≤ nearest num den := (le_nearest_iff hden (by omega)).mpr h
  have hlt : ¬ m + 1 ≤ nearest num den := by
    rw [le_nearest_iff hden (by omega), hnext]
    decide
  omega

theorem ofDecimal_mono {c p c' p' : Nat} (h : c * 10 ^ p' ≤ c' * 10 ^ p) :
    ofDecimal c p ≤ ofDecimal c' p' := by
  apply nearest_mono (Nat.pow_pos (by omega)) (Nat.pow_pos (by omega))
  rw [Nat.mul_right_comm, Nat.mul_right_comm c']
  exact Nat.mul_le_mul_right _ h

theorem ofDecimal_zero (p : Nat) : ofDecimal 0 p = 0 := by
  have hnone : reaches (0 * 2 ^ 1074) (10 ^ p) (0 + 1) = false := by
    rw [Nat.zero_mul]
    rfl
  exact nearest_eq_of_reaches (Nat.pow_pos (by omega)) (by decide) (reaches_zero _ _) hnone

end Binary64

namespace Decimal

open Binary64

theorem two_pow_mul_five_pow (n : Nat) : 2 ^ n * 5 ^ n = 10 ^ n := by
  rw [← Nat.mul_pow]

theorem five_pow_pos (n : Nat) : 0 < 5 ^ n := Nat.pow_pos (by omega)

theorem contains_units (m : Nat) : (spanOf m).contains (units m * 5 ^ 1074) = true := by
  have hpos := five_pow_pos 1074
  have hprev : units (m - 1) ≤ units m := units_le_units (by omega)
  have hnext : units m < units (m + 1) := units_lt_units_succ m
  have hdouble : 2 * (units m * 5 ^ 1074) = (units m + units m) * 5 ^ 1074 := by
    rw [← Nat.two_mul, Nat.mul_assoc]
  unfold Span.contains spanOf lowerBound upperBound
  simp only [hdouble]
  by_cases hclosed : takesBounds m = true
  · rw [if_pos hclosed, Bool.and_eq_true, decide_eq_true_eq, decide_eq_true_eq]
    exact ⟨Nat.mul_le_mul_right _ (by omega), Nat.mul_le_mul_right _ (by omega)⟩
  · have hzero : m ≠ 0 := by
      intro h
      subst h
      exact hclosed rfl
    have hprev' : units (m - 1) < units m := units_lt_units (by omega)
    rw [if_neg hclosed, Bool.and_eq_true, decide_eq_true_eq, decide_eq_true_eq]
    exact ⟨Nat.mul_lt_mul_of_pos_right (by omega) hpos,
      Nat.mul_lt_mul_of_pos_right (by omega) hpos⟩

/-- A decimal reaches a magnitude if, in units of 10^-1074, it lies on the right side of the lower
end of the span. -/
theorem reaches_iff {c p x : Nat} (m : Nat) (h : c * 10 ^ 1074 = x * 10 ^ p) :
    reaches (c * 2 ^ 1074) (10 ^ p) m = true ↔
      if takesBounds m then (spanOf m).low ≤ 2 * x else (spanOf m).low < 2 * x := by
  have hfive := five_pow_pos 1074
  have hten : 0 < 10 ^ p := Nat.pow_pos (by omega)
  have hleft : 10 ^ p * lowerBound m * 5 ^ 1074 = (spanOf m).low * 10 ^ p := by
    unfold spanOf
    rw [Nat.mul_assoc, Nat.mul_comm]
  have hright : 2 * (c * 2 ^ 1074) * 5 ^ 1074 = 2 * x * 10 ^ p := by
    rw [Nat.mul_assoc, Nat.mul_assoc c, two_pow_mul_five_pow 1074, h, Nat.mul_assoc]
  unfold reaches
  split
  · rw [decide_eq_true_eq, ← Nat.mul_le_mul_right_iff hfive, hleft, hright,
      Nat.mul_le_mul_right_iff hten]
  · rw [decide_eq_true_eq, ← Nat.mul_lt_mul_right hfive, hleft, hright, Nat.mul_lt_mul_right hten]

/-- The span of a magnitude holds what reaches the magnitude but not the next one. -/
theorem contains_iff_reaches {m c p x : Nat} (h : c * 10 ^ 1074 = x * 10 ^ p) :
    (spanOf m).contains x = true ↔
      reaches (c * 2 ^ 1074) (10 ^ p) m = true ∧
        ¬ reaches (c * 2 ^ 1074) (10 ^ p) (m + 1) = true := by
  have hclosed : (spanOf m).closed = takesBounds m := rfl
  have hhigh : (spanOf m).high = (spanOf (m + 1)).low := rfl
  have hparity : takesBounds (m + 1) = !takesBounds m := by
    unfold takesBounds
    rcases Nat.mod_two_eq_zero_or_one m with heven | hodd
    · have hsucc : (m + 1) % 2 = 1 := by omega
      rw [heven, hsucc]
      rfl
    · have hsucc : (m + 1) % 2 = 0 := by omega
      rw [hodd, hsucc]
      rfl
  rw [reaches_iff m h, reaches_iff (m + 1) h, hparity, ← hhigh]
  unfold Span.contains
  cases htakes : takesBounds m <;> simp [hclosed, htakes]

/-- Rounding sends the whole span of a magnitude back to the magnitude. -/
theorem ofDecimal_eq_of_contains {m c p x : Nat} (hm : m < infinity)
    (hx : (spanOf m).contains x = true) (h : c * 10 ^ 1074 = x * 10 ^ p) :
    ofDecimal c p = m := by
  obtain ⟨hreach, hnext⟩ := (contains_iff_reaches h).mp hx
  exact nearest_eq_of_reaches (Nat.pow_pos (by omega)) hm hreach (Bool.eq_false_iff.mpr hnext)

-- The two sides are compared as functions: a comparison of their values would run the search.
theorem shortest_eq : shortest = fun m =>
    ⟨(coarsest (spanOf m) (units m * 5 ^ 1074) (placeAbove (spanOf m).high)).1,
      ((coarsest (spanOf m) (units m * 5 ^ 1074) (placeAbove (spanOf m).high)).2 : Int) - 1074⟩ := by
  delta shortest
  funext m
  extract_lets s
  cases coarsest s (units m * 5 ^ 1074) (placeAbove s.high) with
  | mk multiple place => rfl

theorem contains_shortest (m : Nat) :
    ∃ multiple place : Nat, shortest m = ⟨multiple, (place : Int) - 1074⟩ ∧
      (spanOf m).contains (multiple * 10 ^ place) = true := by
  rw [shortest_eq]
  exact ⟨_, _, rfl, contains_coarsest (contains_units m) _⟩

/-- The shortest decimal of a magnitude rounds to the magnitude, however its exponent is split into
a power of ten and a number of decimal places. -/
theorem ofDecimal_shortest {m a b : Nat} (hm : m < infinity)
    (h : (shortest m).exponent = (a : Int) - b) :
    ofDecimal ((shortest m).coefficient * 10 ^ a) b = m := by
  obtain ⟨multiple, place, hshort, hmem⟩ := contains_shortest m
  rw [hshort] at h ⊢
  have hplace : a + 1074 = place + b := by
    simp only at h
    omega
  apply ofDecimal_eq_of_contains hm hmem
  rw [Nat.mul_assoc, Nat.mul_assoc, ← Nat.pow_add 10 a 1074, ← Nat.pow_add 10 place b, hplace]

theorem exists_exponent_eq (m : Nat) :
    ∃ place depth : Nat, (shortest m).exponent = (place : Int) - depth := by
  obtain ⟨multiple, place, hshort, -⟩ := contains_shortest m
  rw [hshort]
  exact ⟨place, 1074, rfl⟩

theorem digits_ne_nil (d : Decimal) : d.digits ≠ [] := Nat.toDigits_ne_nil

theorem length_digits_pos (d : Decimal) : 0 < d.digits.length := Nat.length_toDigits_pos

theorem coefficient_lt (d : Decimal) : d.coefficient < 10 ^ d.digits.length :=
  (Nat.length_toDigits_le_iff (by omega) d.length_digits_pos).mp (Nat.le_refl _)

theorem pow_le_coefficient {d : Decimal} {k : Nat} (hpos : 0 < d.coefficient)
    (hk : k < d.digits.length) : 10 ^ k ≤ d.coefficient := by
  by_cases hzero : k = 0
  · subst hzero
    exact hpos
  · apply Nat.le_of_not_lt
    intro hlt
    have hlen := (Nat.length_toDigits_le_iff (b := 10) (by omega) (by omega)).mpr hlt
    have hdef : d.digits.length = (Nat.toDigits 10 d.coefficient).length := rfl
    omega

/-- A magnitude above that of 10^(a - b) has its decimal point behind the place a - b. -/
theorem lt_point {m a b : Nat} (hm : m < infinity) (h : ofDecimal (10 ^ a) b < m) :
    (a : Int) - b < (shortest m).point := by
  obtain ⟨place, depth, hexp⟩ := exists_exponent_eq m
  apply Int.lt_of_not_ge
  intro hle
  unfold point at hle
  have hpow : (shortest m).digits.length + place + b ≤ a + depth := by omega
  have hvalue : (shortest m).coefficient * 10 ^ place * 10 ^ b ≤ 10 ^ a * 10 ^ depth := by
    calc (shortest m).coefficient * 10 ^ place * 10 ^ b
        ≤ 10 ^ (shortest m).digits.length * 10 ^ place * 10 ^ b :=
          Nat.mul_le_mul_right _ (Nat.mul_le_mul_right _ (Nat.le_of_lt (coefficient_lt _)))
      _ = 10 ^ ((shortest m).digits.length + place + b) := by rw [← Nat.pow_add, ← Nat.pow_add]
      _ ≤ 10 ^ (a + depth) := Nat.pow_le_pow_right (by omega) hpow
      _ = 10 ^ a * 10 ^ depth := by rw [Nat.pow_add]
  have hmono := ofDecimal_mono hvalue
  rw [ofDecimal_shortest hm hexp] at hmono
  omega

theorem coefficient_pos {m : Nat} (hm : m < infinity) (hpos : 0 < m) :
    0 < (shortest m).coefficient := by
  obtain ⟨place, depth, hexp⟩ := exists_exponent_eq m
  apply Nat.pos_of_ne_zero
  intro hzero
  have hself := ofDecimal_shortest hm hexp
  rw [hzero, Nat.zero_mul, ofDecimal_zero] at hself
  omega

/-- A magnitude below that of 10^(a - b) has its decimal point at most at the place a - b. -/
theorem point_le {m a b : Nat} (hpos : 0 < m) (h : m < ofDecimal (10 ^ a) b) :
    (shortest m).point ≤ (a : Int) - b := by
  have hm : m < infinity := Nat.lt_of_lt_of_le h (nearest_le_infinity _ _)
  obtain ⟨place, depth, hexp⟩ := exists_exponent_eq m
  apply Int.le_of_not_gt
  intro hlt
  unfold point at hlt
  have hlen : (shortest m).digits.length - 1 < (shortest m).digits.length := by
    have hdigits := (shortest m).length_digits_pos
    omega
  have hpow : a + depth ≤ (shortest m).digits.length - 1 + place + b := by omega
  have hvalue : 10 ^ a * 10 ^ depth ≤ (shortest m).coefficient * 10 ^ place * 10 ^ b := by
    calc 10 ^ a * 10 ^ depth = 10 ^ (a + depth) := by rw [← Nat.pow_add]
      _ ≤ 10 ^ ((shortest m).digits.length - 1 + place + b) := Nat.pow_le_pow_right (by omega) hpow
      _ = 10 ^ ((shortest m).digits.length - 1) * 10 ^ place * 10 ^ b := by
          rw [Nat.pow_add, Nat.pow_add]
      _ ≤ (shortest m).coefficient * 10 ^ place * 10 ^ b :=
          Nat.mul_le_mul_right _
            (Nat.mul_le_mul_right _ (pow_le_coefficient (coefficient_pos hm hpos) hlen))
  have hmono := ofDecimal_mono hvalue
  rw [ofDecimal_shortest hm hexp] at hmono
  omega

end Decimal

end Reckoner
