import Reckoner.Proofs.Rounding

/-!
The shortest decimal has the fewest digits. The search stops at the highest power of ten that has a
multiple in the span of the magnitude. A decimal that ends with a zero would be a multiple of the
next higher power, and between a decimal with fewer digits and the shortest one there would be a
power of ten, which is such a multiple as well.
-/

namespace Reckoner.Decimal

open Binary64

variable {s : Span} {x y z : Nat}

theorem Span.contains_between (hx : s.contains x = true) (hz : s.contains z = true)
    (hxy : x ≤ y) (hyz : y ≤ z) : s.contains y = true := by
  unfold Span.contains at hx hz ⊢
  split at hx <;> simp_all <;> omega

/-- If a span that holds `x` holds a multiple of a power of ten, it holds one next to `x`. -/
theorem nearestMultiple?_ne_none {c place : Nat} (hx : s.contains x = true)
    (hc : s.contains (c * 10 ^ place) = true) : nearestMultiple? s x place ≠ none := by
  have hunit : 0 < 10 ^ place := Nat.pow_pos (by omega)
  have hnext : s.contains (x / 10 ^ place * 10 ^ place) = true ∨
      s.contains ((x / 10 ^ place + 1) * 10 ^ place) = true := by
    rcases Nat.lt_or_ge x (c * 10 ^ place) with hlt | hge
    · right
      have hc' : x / 10 ^ place + 1 ≤ c := (Nat.div_lt_iff_lt_mul hunit).mpr hlt
      have habove : x ≤ (x / 10 ^ place + 1) * 10 ^ place :=
        Nat.le_of_lt ((Nat.div_lt_iff_lt_mul hunit).mp (Nat.lt_succ_self _))
      exact Span.contains_between hx hc habove (Nat.mul_le_mul_right _ hc')
    · left
      have hc' : c ≤ x / 10 ^ place := (Nat.le_div_iff_mul_le hunit).mpr hge
      exact Span.contains_between hc hx (Nat.mul_le_mul_right _ hc') (Nat.div_mul_le_self _ _)
  unfold nearestMultiple?
  rcases hnext with h | h <;> simp only [h] <;> split <;> simp_all

/-- The search stops at the place where it starts, or where there is no multiple one place up. -/
theorem coarsest_stops (s : Span) (x place : Nat) : (coarsest s x place).2 = place ∨
    nearestMultiple? s x ((coarsest s x place).2 + 1) = none := by
  induction place with
  | zero => exact .inl rfl
  | succ place ih =>
    simp only [coarsest]
    split
    · exact .inl rfl
    · next hnone =>
      right
      rcases ih with hstart | hnext
      · rw [hstart]
        exact hnone
      · exact hnext

theorem lt_pow_placeAbove (n : Nat) : n < 10 ^ placeAbove n := by
  calc n < 2 ^ (n.log2 + 1) := Nat.lt_log2_self
    _ ≤ 2 ^ (13 * (n.log2 / 13 + 1)) := Nat.pow_le_pow_right (by omega) (by omega)
    _ = (2 ^ 13) ^ (n.log2 / 13 + 1) := Nat.pow_mul ..
    _ ≤ (10 ^ 4) ^ (n.log2 / 13 + 1) := Nat.pow_le_pow_left (by omega) _
    _ = 10 ^ placeAbove n := by rw [← Nat.pow_mul, placeAbove]

variable {m : Nat}

theorem exists_search (m : Nat) :
    ∃ multiple place : Nat, shortest m = ⟨multiple, (place : Int) - 1074⟩ ∧
      (spanOf m).contains (multiple * 10 ^ place) = true ∧
      (place = placeAbove (spanOf m).high ∨
        nearestMultiple? (spanOf m) (units m * 5 ^ 1074) (place + 1) = none) := by
  rw [shortest_eq]
  exact ⟨_, _, rfl, contains_coarsest (contains_units m) _, coarsest_stops _ _ _⟩

/-- The shortest decimal lies in the span of its magnitude, and no multiple of the next higher power
of ten does. -/
theorem exists_place (hm : m < infinity) (hpos : 0 < m) :
    ∃ place : Nat, (shortest m).exponent = (place : Int) - 1074 ∧
      (spanOf m).contains ((shortest m).coefficient * 10 ^ place) = true ∧
      ∀ c, (spanOf m).contains (c * 10 ^ (place + 1)) = false := by
  obtain ⟨multiple, place, hshort, hmem, hstop⟩ := exists_search m
  have hmultiple : 0 < multiple := by
    have hcoefficient := coefficient_pos hm hpos
    rw [hshort] at hcoefficient
    exact hcoefficient
  rw [hshort]
  refine ⟨place, rfl, hmem, fun c => Bool.eq_false_iff.mpr fun hc => ?_⟩
  rcases hstop with rfl | hnone
  · -- at the first place every multiple but zero lies beyond the span
    have hhigh := lt_pow_placeAbove (spanOf m).high
    have hbeyond := Nat.le_mul_of_pos_left (10 ^ placeAbove (spanOf m).high) hmultiple
    unfold Span.contains at hmem
    split at hmem <;> simp only [Bool.and_eq_true, decide_eq_true_eq] at hmem <;> omega
  · exact nearestMultiple?_ne_none (contains_units m) hc hnone

theorem coefficient_mod_ten_ne_zero (hm : m < infinity) (hpos : 0 < m) :
    (shortest m).coefficient % 10 ≠ 0 := by
  intro hzero
  obtain ⟨place, -, hmem, hnone⟩ := exists_place hm hpos
  have hten : (shortest m).coefficient * 10 ^ place =
      (shortest m).coefficient / 10 * 10 ^ (place + 1) := by
    rw [Nat.pow_succ', ← Nat.mul_assoc, Nat.div_mul_cancel (Nat.dvd_of_mod_eq_zero hzero)]
  rw [hten, hnone] at hmem
  cases hmem

theorem contains_of_ofDecimal_eq {c p x : Nat} (hm : m < infinity) (hself : ofDecimal c p = m)
    (h : c * 10 ^ 1074 = x * 10 ^ p) : (spanOf m).contains x = true := by
  have hten : 0 < 10 ^ p := Nat.pow_pos (by omega)
  refine (contains_iff_reaches h).mpr ⟨?_, fun hnext => ?_⟩
  · exact (le_nearest_iff hten (Nat.le_of_lt hm)).mp (Nat.le_of_eq hself.symm)
  · have hle : m + 1 ≤ ofDecimal c p := (le_nearest_iff hten hm).mpr hnext
    omega

/-- No decimal that rounds to a magnitude has fewer digits than its shortest one. -/
theorem length_digits_shortest_le {c a b : Nat} (hm : m < infinity) (hpos : 0 < m)
    (hself : ofDecimal (c * 10 ^ a) b = m) :
    (shortest m).digits.length ≤ (Nat.toDigits 10 c).length := by
  obtain ⟨place, hexp, -, hnone⟩ := exists_place hm hpos
  have hshort : ofDecimal ((shortest m).coefficient * 10 ^ place) 1074 = m :=
    ofDecimal_shortest hm hexp
  apply Nat.le_of_not_lt
  intro hlt
  have hdigits : 0 < (Nat.toDigits 10 c).length := Nat.length_toDigits_pos
  have hc : c < 10 ^ ((shortest m).digits.length - 1) :=
    (Nat.length_toDigits_le_iff (by omega) (by omega)).mp (Nat.le_sub_one_of_lt hlt)
  rcases Nat.lt_or_ge (place + b) (a + 1074) with hcoarse | hfine
  · -- the other decimal is itself a multiple of a higher power
    obtain ⟨k, hk⟩ : ∃ k, a + 1074 = k + (place + 1) + b :=
      ⟨a + 1074 - (place + 1) - b, by omega⟩
    have hmem := contains_of_ofDecimal_eq (x := c * 10 ^ k * 10 ^ (place + 1)) hm hself (by
      rw [Nat.mul_assoc, ← Nat.pow_add, hk, Nat.pow_add, Nat.pow_add]
      ac_rfl)
    rw [hnone] at hmem
    cases hmem
  · -- a power of ten lies between the two decimals
    have hbelow : c * 10 ^ a * 10 ^ 1074 ≤
        10 ^ ((shortest m).digits.length - 1) * 10 ^ place * 10 ^ b := by
      rw [Nat.mul_assoc, Nat.mul_assoc, ← Nat.pow_add, ← Nat.pow_add]
      exact Nat.mul_le_mul (Nat.le_of_lt hc) (Nat.pow_le_pow_right (by omega) hfine)
    have habove : 10 ^ ((shortest m).digits.length - 1) ≤ (shortest m).coefficient :=
      pow_le_coefficient (coefficient_pos hm hpos) (by omega)
    have hlow := ofDecimal_mono hbelow
    have hhigh := ofDecimal_mono
      (Nat.mul_le_mul_right (10 ^ 1074) (Nat.mul_le_mul_right (10 ^ place) habove))
    have hpower : ofDecimal (10 ^ ((shortest m).digits.length - 1) * 10 ^ place) 1074 = m := by
      omega
    have hmem := contains_of_ofDecimal_eq hm hpower rfl
    have hnext : (shortest m).digits.length - 1 = (shortest m).digits.length - 2 + 1 := by omega
    rw [hnext, Nat.pow_succ, Nat.mul_assoc, ← Nat.pow_succ', hnone] at hmem
    cases hmem

/-- A number of more than one digit starts with the digits of its tenth. -/
theorem head?_toDigits_ne_zero {n : Nat} (hn : 0 < n) : (Nat.toDigits 10 n).head? ≠ some '0' := by
  induction n using Nat.strongRecOn with
  | ind n ih =>
    rcases Nat.lt_or_ge n 10 with hlt | hge
    · rw [Nat.toDigits_of_lt_base hlt, List.head?_cons, Ne, Option.some.injEq,
        Nat.digitChar_eq_zero]
      omega
    · rw [Nat.toDigits_of_base_le (by omega) hge, List.head?_append_of_ne_nil _ Nat.toDigits_ne_nil]
      exact ih (n / 10) (by omega) (by omega)

theorem getLast?_toDigits (n : Nat) :
    (Nat.toDigits 10 n).getLast? = some (n % 10).digitChar := by
  rcases Nat.lt_or_ge n 10 with hlt | hge
  · rw [Nat.toDigits_of_lt_base hlt, Nat.mod_eq_of_lt hlt]
    rfl
  · rw [Nat.toDigits_of_base_le (by omega) hge, List.getLast?_concat]

/-- Digits without a zero at either end. -/
structure Trimmed (d : Decimal) : Prop where
  first : d.digits.head? ≠ some '0'
  last : d.digits.getLast? ≠ some '0'

/-- A decimal that rounds to a magnitude, and that has no more digits than any other that does. -/
structure IsShortest (d : Decimal) (m : Nat) : Prop extends d.Trimmed where
  rounds : ∀ a b : Nat, d.exponent = (a : Int) - b → ofDecimal (d.coefficient * 10 ^ a) b = m
  fewest : ∀ c a b : Nat, ofDecimal (c * 10 ^ a) b = m →
    d.digits.length ≤ (Nat.toDigits 10 c).length

theorem isShortest_shortest (hm : m < infinity) (hpos : 0 < m) : (shortest m).IsShortest m where
  first := head?_toDigits_ne_zero (coefficient_pos hm hpos)
  last := by
    rw [digits, getLast?_toDigits, Ne, Option.some.injEq, Nat.digitChar_eq_zero]
    exact coefficient_mod_ten_ne_zero hm hpos
  rounds := fun _ _ hexp => ofDecimal_shortest hm hexp
  fewest := fun _ _ _ hself => length_digits_shortest_le hm hpos hself

/-- The point stands where the exponents of finite magnitudes allow, so the digits are not many. -/
theorem point_bounds (hm : m < infinity) (hpos : 0 < m) :
    -1074 < (shortest m).point ∧ (shortest m).point ≤ 309 ∧ (shortest m).digits.length ≤ 1383 := by
  obtain ⟨place, hexp, -⟩ := exists_place hm hpos
  have hdigits := (shortest m).length_digits_pos
  have hlarge : ofDecimal (10 ^ 309) 0 = infinity := by decide +kernel
  have hle : (shortest m).point ≤ 309 := point_le (a := 309) (b := 0) hpos (by rwa [hlarge])
  have hdef : (shortest m).point = (shortest m).digits.length + (shortest m).exponent := rfl
  omega

end Reckoner.Decimal
