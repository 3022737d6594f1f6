import Reckoner.Proofs.SignedNumerals

/-!
The floats nearest to rational numbers. A finite float stands for a rational number, which is its
magnitude in units of 2^-1074 or the opposite of it. What is rounded lies between the midpoints on
both sides of the magnitude that it is rounded to, so no float is nearer, and where another one is
as near, the last bit of the magnitude is zero.
-/

namespace Reckoner.Binary64

/-- The number that a finite float stands for. Infinities and NaN stand for no number. -/
def value? (x : Float) : Option ℚ :=
  match x.toModel.unpack with
  | .finite sign m e _ => some (sign.apply m * 2 ^ e)
  | .zero _ => some 0
  | .infinity _ => none
  | .notANumber => none

/-- The midpoint between the largest finite float and 2^1024. -/
def overflow : ℚ := 2 ^ 1024 - 2 ^ 970

/-- That a number from zero on is rounded to a float. No float is nearer to the number; if one that
stands for another number is as near, the float ends with a zero bit. The numbers from the midpoint
behind the largest finite float on are rounded to infinity. -/
inductive RoundsTo (q : ℚ) (x : Float) : Prop
  | finite {v : ℚ} (hx : value? x = some v) (hq : q < overflow)
      (hnear : ∀ y w, value? y = some w → |q - v| ≤ |q - w|)
      (heven : ∀ y w, value? y = some w → w ≠ v → |q - v| = |q - w| → x.toBits.toNat % 2 = 0)
  | infinite (hx : x = Float.inf) (hq : overflow ≤ q)

/-- The number that a finite magnitude stands for. -/
def amount (m : Nat) : ℚ := units m * 2 ^ (-1074 : ℤ)

theorem unit_pos : (0 : ℚ) < 2 ^ (-1074 : ℤ) := zpow_pos (by norm_num) _

theorem amount_zero : amount 0 = 0 := by
  simp [amount, units, significand]

theorem amount_nonneg (m : Nat) : 0 ≤ amount m :=
  mul_nonneg (Nat.cast_nonneg _) unit_pos.le

theorem amount_le_amount {a b : Nat} (h : a ≤ b) : amount a ≤ amount b :=
  mul_le_mul_of_nonneg_right (Nat.cast_le.mpr (units_le_units h)) unit_pos.le

theorem amount_lt_amount {a b : Nat} (h : a < b) : amount a < amount b :=
  mul_lt_mul_of_pos_right (Nat.cast_lt.mpr (units_lt_units h)) unit_pos

theorem amount_eq_of_fields (m : Nat) :
    amount m = significand m * 2 ^ ((scale m : ℤ) - 1074) := by
  have hpow : (2 : ℚ) ^ ((scale m : ℤ) - 1074) = 2 ^ scale m * 2 ^ (-1074 : ℤ) := by
    rw [sub_eq_add_neg, zpow_add₀ (by norm_num), zpow_natCast]
  have hcast : (units m : ℚ) = significand m * 2 ^ scale m := by
    rw [units, Nat.cast_mul, Nat.cast_pow, Nat.cast_ofNat]
  rw [amount, hcast, hpow, mul_assoc]

/-- A float without a sign stands for its magnitude. -/
theorem value?_of_lt_infinity {x : Float} (h : x.toBits.toNat < infinity) :
    value? x = some (amount x.toBits.toNat) := by
  rcases Nat.eq_zero_or_pos x.toBits.toNat with hzero | hpos
  · rw [hzero, amount_zero, Numeral.eq_zero_of_toBits (UInt64.toNat_inj.mp hzero), value?,
      Numeral.unpack_zero]
  · rw [value?, unpack_float hpos h, unpacked, amount_eq_of_fields]
    rfl

theorem isFinite_of_value? {x : Float} {v : ℚ} (h : value? x = some v) : x.isFinite = true := by
  have hmodel : x.isFinite = x.toModel.unpack.isFinite := rfl
  rw [hmodel]
  unfold value? at h
  split at h <;> simp_all [Float.Model.UnpackedFloat.isFinite]

/-- A finite float stands for a magnitude or for the opposite of one. -/
theorem exists_amount_of_value? {x : Float} {v : ℚ} (h : value? x = some v) :
    ∃ m, v = amount m ∨ v = -amount m := by
  have hfin := (Numeral.kind_iff x).1.mp (isFinite_of_value? h)
  have habs := value?_of_lt_infinity hfin
  refine ⟨x.abs.toBits.toNat, ?_⟩
  rcases abs_cases x with ⟨-, hself⟩ | ⟨hbits, -, -⟩
  · rw [hself] at habs ⊢
    exact .inl (Option.some.inj (h.symm.trans habs))
  · right
    have hneg : x.toModel.unpack = x.abs.toModel.unpack.neg := unpack_eq_neg hbits
    unfold value? at h habs
    rw [hneg] at h
    generalize x.abs.toModel.unpack = u at h habs
    cases u with
    | finite sign m e hm =>
      cases sign <;> cases h <;> rw [← Option.some.inj habs] <;>
        simp [Float.Model.UnpackedFloat.Sign.apply]
    | zero sign =>
      cases h
      rw [← Option.some.inj habs, neg_zero]
    | infinity sign => cases h
    | notANumber => cases h

/-- The fraction `num / den` of a unit. -/
def fraction (num den : Nat) : ℚ := num / den * 2 ^ (-1074 : ℤ)

variable {num den m : Nat}

theorem fraction_nonneg (num den : Nat) : 0 ≤ fraction num den :=
  mul_nonneg (div_nonneg (Nat.cast_nonneg _) (Nat.cast_nonneg _)) unit_pos.le

/-- A fraction reaches a magnitude from the midpoint on that lies before the magnitude. -/
theorem reaches_iff_midpoint (hden : 0 < den) : reaches num den m = true ↔
    if m % 2 = 0 then amount (m - 1) + amount m ≤ 2 * fraction num den
    else amount (m - 1) + amount m < 2 * fraction num den := by
  have hden' : (0 : ℚ) < den := Nat.cast_pos.mpr hden
  have hmidpoint : amount (m - 1) + amount m = lowerBound m * 2 ^ (-1074 : ℤ) := by
    rw [lowerBound, Nat.cast_add, add_mul]
    rfl
  have hfraction : 2 * fraction num den = (2 * num : ℚ) / den * 2 ^ (-1074 : ℤ) := by
    rw [fraction, ← mul_assoc, mul_div_assoc]
  have hproduct : (den * lowerBound m : ℚ) = ((den * lowerBound m : Nat) : ℚ) := by push_cast; rfl
  have htwice : (2 * num : ℚ) = ((2 * num : Nat) : ℚ) := by push_cast; rfl
  rw [hmidpoint, hfraction, mul_le_mul_iff_left₀ unit_pos, mul_lt_mul_iff_left₀ unit_pos,
    le_div_iff₀' hden', lt_div_iff₀' hden', hproduct, htwice, Nat.cast_le, Nat.cast_lt]
  unfold reaches takesBounds
  by_cases heven : m % 2 = 0 <;> simp [heven]

theorem abs_sub_le_of_midpoint_le {a b q : ℚ} (hab : a ≤ b) (h : a + b ≤ 2 * q) :
    |q - b| ≤ |q - a| := by
  calc |q - b| ≤ q - a := abs_le.mpr ⟨by linarith, by linarith⟩
    _ ≤ |q - a| := le_abs_self _

theorem abs_sub_lt_of_midpoint_lt {a b q : ℚ} (hab : a < b) (h : a + b < 2 * q) :
    |q - b| < |q - a| := by
  calc |q - b| < q - a := abs_lt.mpr ⟨by linarith, by linarith⟩
    _ ≤ |q - a| := le_abs_self _

theorem abs_sub_le_of_le_midpoint {a b q : ℚ} (hab : a ≤ b) (h : 2 * q ≤ a + b) :
    |q - a| ≤ |q - b| := by
  rw [abs_sub_comm q a, abs_sub_comm q b]
  calc |a - q| ≤ b - q := abs_le.mpr ⟨by linarith, by linarith⟩
    _ ≤ |b - q| := le_abs_self _

theorem abs_sub_lt_of_lt_midpoint {a b q : ℚ} (hab : a < b) (h : 2 * q < a + b) :
    |q - a| < |q - b| := by
  rw [abs_sub_comm q a, abs_sub_comm q b]
  calc |a - q| < b - q := abs_lt.mpr ⟨by linarith, by linarith⟩
    _ ≤ |b - q| := le_abs_self _

/-- The fraction lies between the midpoints on both sides of the magnitude nearest to it. -/
theorem midpoints_nearest (hden : 0 < den) (hfin : nearest num den < infinity) :
    amount (nearest num den - 1) + amount (nearest num den) ≤ 2 * fraction num den ∧
      2 * fraction num den ≤ amount (nearest num den) + amount (nearest num den + 1) ∧
      (nearest num den % 2 = 1 →
        amount (nearest num den - 1) + amount (nearest num den) < 2 * fraction num den ∧
          2 * fraction num den < amount (nearest num den) + amount (nearest num den + 1)) := by
  have hat : reaches num den (nearest num den) = true :=
    (le_nearest_iff hden hfin.le).mp (Nat.le_refl _)
  have hnext : ¬ reaches num den (nearest num den + 1) = true := by
    rw [← le_nearest_iff hden hfin]
    omega
  generalize nearest num den = m at *
  rw [reaches_iff_midpoint hden] at hat hnext
  rw [Nat.add_sub_cancel] at hnext
  rcases Nat.mod_two_eq_zero_or_one m with heven | hodd
  · rw [if_pos heven] at hat
    rw [if_neg (by omega), not_lt] at hnext
    exact ⟨hat, hnext, by omega⟩
  · rw [if_neg (by omega)] at hat
    rw [if_pos (by omega), not_le] at hnext
    exact ⟨hat.le, hnext.le, fun _ => ⟨hat, hnext⟩⟩

/-- No magnitude is nearer, and none is as near if the nearest one is odd. -/
theorem distance_nearest (hden : 0 < den) (hfin : nearest num den < infinity) (k : Nat) :
    |fraction num den - amount (nearest num den)| ≤ |fraction num den - amount k| ∧
      (nearest num den % 2 = 1 → k ≠ nearest num den →
        |fraction num den - amount (nearest num den)| < |fraction num den - amount k|) := by
  obtain ⟨hlow, hhigh, hodd⟩ := midpoints_nearest hden hfin
  generalize nearest num den = m at *
  rcases Nat.lt_trichotomy k m with hlt | rfl | hgt
  · have hprev : amount k ≤ amount (m - 1) := amount_le_amount (by omega)
    have hself : amount k < amount m := amount_lt_amount hlt
    refine ⟨abs_sub_le_of_midpoint_le hself.le (by linarith), fun hm _ => ?_⟩
    have hstrict := (hodd hm).1
    exact abs_sub_lt_of_midpoint_lt hself (by linarith)
  · exact ⟨le_refl _, fun _ hne => absurd rfl hne⟩
  · have hnext : amount (m + 1) ≤ amount k := amount_le_amount hgt
    have hself : amount m < amount k := amount_lt_amount hgt
    refine ⟨abs_sub_le_of_le_midpoint hself.le (by linarith), fun hm _ => ?_⟩
    have hstrict := (hodd hm).2
    exact abs_sub_lt_of_lt_midpoint hself (by linarith)

/-- The opposite of a magnitude is not nearer than zero. -/
theorem distance_zero_le (num den k : Nat) :
    |fraction num den - amount 0| ≤ |fraction num den - -amount k| := by
  have hpos := fraction_nonneg num den
  have hk := amount_nonneg k
  rw [amount_zero, sub_zero, sub_neg_eq_add, abs_of_nonneg hpos, abs_of_nonneg (by linarith)]
  linarith

theorem amount_infinity : amount (infinity - 1) + amount infinity = 2 * overflow := by
  have hunits : units (infinity - 1) + units infinity + 2 ^ 2045 = 2 ^ 2099 := by decide +kernel
  have hcast : (units (infinity - 1) + units infinity : ℚ) = 2 ^ (2099 : ℤ) - 2 ^ (2045 : ℤ) := by
    have hsum := congrArg (Nat.cast : ℕ → ℚ) hunits
    rw [Nat.cast_add, Nat.cast_add, Nat.cast_pow, Nat.cast_pow] at hsum
    exact eq_sub_of_add_eq hsum
  have htwice (n : ℤ) : (2 : ℚ) * 2 ^ n = 2 ^ (n + 1) := by
    rw [zpow_add_one₀ (by norm_num), mul_comm]
  have hoverflow : overflow = 2 ^ (1024 : ℤ) - 2 ^ (970 : ℤ) := rfl
  rw [amount, amount, ← add_mul, hcast, sub_mul, ← zpow_add₀ (by norm_num),
    ← zpow_add₀ (by norm_num), hoverflow, mul_sub, htwice, htwice]
  rfl

/-- What is rounded to infinity is what lies from the midpoint behind the largest float on. -/
theorem nearest_eq_infinity_iff (hden : 0 < den) :
    nearest num den = infinity ↔ overflow ≤ fraction num den := by
  have hle := nearest_le_infinity num den
  have hreach : infinity ≤ nearest num den ↔ overflow ≤ fraction num den := by
    rw [le_nearest_iff hden (Nat.le_refl _), reaches_iff_midpoint hden, if_pos (by decide),
      amount_infinity, mul_le_mul_iff_right₀ (by norm_num)]
  rw [← hreach]
  omega

theorem toNat_toBits_inf : Float.inf.toBits.toNat = infinity := by
  decide +kernel

/-- The float of the nearest magnitude is the nearest float. -/
theorem roundsTo_nearest (hden : 0 < den) :
    RoundsTo (fraction num den) (Float.ofBits (nearest num den).toUInt64) := by
  have hbits := toNat_toBits_ofBits (nearest_le_infinity num den)
  rcases Nat.eq_or_lt_of_le (nearest_le_infinity num den) with hinf | hfin
  · refine .infinite ?_ ((nearest_eq_infinity_iff hden).mp hinf)
    rw [hinf] at hbits ⊢
    exact Float.toBits_inj.mp (UInt64.toNat_inj.mp (hbits.trans toNat_toBits_inf.symm))
  · have hq : fraction num den < overflow := by
      rw [← not_le, ← nearest_eq_infinity_iff hden]
      omega
    have hvalue := value?_of_lt_infinity (hbits.symm ▸ hfin)
    rw [hbits] at hvalue
    refine .finite hvalue hq (fun y w hy => ?_) (fun y w hy hne heq => ?_)
    · obtain ⟨k, rfl | rfl⟩ := exists_amount_of_value? hy
      · exact (distance_nearest hden hfin k).1
      · exact (distance_nearest hden hfin 0).1.trans (distance_zero_le num den k)
    · rw [hbits]
      -- Beside an odd magnitude there is none as near, on either side of zero.
      by_contra hodd
      have hodd' : nearest num den % 2 = 1 := by omega
      obtain ⟨k, rfl | rfl⟩ := exists_amount_of_value? hy
      · have hk : k ≠ nearest num den := by
          intro hk
          exact hne (congrArg amount hk)
        exact heq.not_lt ((distance_nearest hden hfin k).2 hodd' hk)
      · have hlt := (distance_nearest hden hfin 0).2 hodd' (by omega)
        exact heq.not_lt (hlt.trans_le (distance_zero_le num den k))

/-- A decimal is rounded to the float of its magnitude. -/
theorem roundsTo_ofDecimal (c p : Nat) :
    RoundsTo (c / 10 ^ p) (Float.ofBits (ofDecimal c p).toUInt64) := by
  have hden : 0 < 10 ^ p := Nat.pow_pos (by omega)
  have hfraction : fraction (c * 2 ^ 1074) (10 ^ p) = c / 10 ^ p := by
    have hcancel : (2 : ℚ) ^ 1074 * 2 ^ (-1074 : ℤ) = 1 :=
      mul_inv_cancel₀ (pow_ne_zero _ (by norm_num))
    have hcast : ((c * 2 ^ 1074 : Nat) : ℚ) = c * 2 ^ 1074 := by
      rw [Nat.cast_mul, Nat.cast_pow, Nat.cast_ofNat]
    have hpow : ((10 ^ p : Nat) : ℚ) = 10 ^ p := by push_cast; rfl
    rw [fraction, hcast, hpow, mul_div_right_comm, mul_assoc, hcancel, mul_one]
  rw [← hfraction]
  exact roundsTo_nearest hden

theorem cases_of_le_infinity {x : Float} (h : x.toBits.toNat ≤ infinity) :
    x = 0 ∨ x = Float.inf ∨ 0 < x.toBits.toNat ∧ x.toBits.toNat < infinity := by
  rcases Nat.eq_zero_or_pos x.toBits.toNat with hzero | hpos
  · exact .inl (Numeral.eq_zero_of_toBits (UInt64.toNat_inj.mp hzero))
  rcases Nat.eq_or_lt_of_le h with hinf | hfin
  · right
    left
    exact Float.toBits_inj.mp (UInt64.toNat_inj.mp (hinf.trans toNat_toBits_inf.symm))
  · exact .inr (.inr ⟨hpos, hfin⟩)

/-- Floats without a sign are ordered as their patterns are. -/
theorem le_of_toNat_le {x y : Float} (hle : x.toBits.toNat ≤ y.toBits.toNat)
    (hy : y.toBits.toNat ≤ infinity) : x ≤ y := by
  have hmodel : x ≤ y ↔ (x.toModel.unpack).le y.toModel.unpack = true := decide_eq_true_iff
  have hzero : (0 : Float).toBits.toNat = 0 := rfl
  have hinf := toNat_toBits_inf
  rcases cases_of_le_infinity (hle.trans hy) with rfl | rfl | ⟨hpos, hfin⟩
  · rcases cases_of_le_infinity hy with rfl | rfl | ⟨hpos', hfin'⟩
    · decide +kernel
    · decide +kernel
    · rw [hmodel, unpack_float hpos' hfin']
      rfl
  · have hself : y = Float.inf := Float.toBits_inj.mp (UInt64.toNat_inj.mp (by omega))
    rw [hself]
    decide +kernel
  · rcases cases_of_le_infinity hy with rfl | rfl | ⟨hpos', hfin'⟩
    · omega
    · rw [hmodel, unpack_float hpos hfin]
      rfl
    · exact (le_iff_of_finite hpos hfin hpos' hfin').mpr hle

theorem isNaN_of_le_infinity {x : Float} (h : x.toBits.toNat ≤ infinity) : x.isNaN = false := by
  have hsign : x.toBits.toBitVec.toNat < signBit := by
    change x.toBits.toNat < signBit
    unfold infinity at h
    unfold signBit
    omega
  have hkind : x.isNaN = true ↔ infinity < x.toBits.toNat := (kind_unpack hsign).2
  rw [Bool.eq_false_iff, Ne, hkind]
  omega

theorem zero_le_of_le_infinity {x : Float} (h : x.toBits.toNat ≤ infinity) : 0 ≤ x :=
  le_of_toNat_le (Nat.zero_le _) h

theorem ne_negative_zero_of_le_infinity {x : Float} (h : x.toBits.toNat ≤ infinity) :
    x ≠ -0 := by
  have hbits : (-0 : Float).toBits.toNat = signBit := by decide +kernel
  rintro rfl
  rw [hbits] at h
  exact absurd h (by decide)

end Reckoner.Binary64
