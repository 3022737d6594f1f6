import Mathlib
import Reckoner.Binary64

/-!
Floats and their magnitudes. The bit pattern of a positive finite float is its magnitude, so the
order of such floats is the order of their patterns. Any other float but NaN is the opposite of its
absolute value or has no sign bit.
-/

namespace Reckoner.Binary64

open Float.Model Float.Model.UnpackedFloat

theorem toNat_mantissa (b : BitVec 64) :
    (@unpackMantissa Format.binary64 b).toNat = b.toNat % 2 ^ 52 := by
  simp [unpackMantissa]

theorem toNat_exponent (b : BitVec 64) :
    (@unpackExponent Format.binary64 b).toNat = b.toNat / 2 ^ 52 % 2 ^ 11 := by
  simp [unpackExponent, Nat.shiftRight_eq_div_pow]

theorem toNat_sign (b : BitVec 64) :
    (@unpackSign Format.binary64 b).toNat = b.toNat / 2 ^ 63 % 2 := by
  simp [unpackSign, Nat.shiftRight_eq_div_pow]

theorem mantissa_eq_zero_iff (b : BitVec 64) :
    @unpackMantissa Format.binary64 b = 0#52 ↔ b.toNat % 2 ^ 52 = 0 := by
  rw [← BitVec.toNat_inj, toNat_mantissa]
  rfl

theorem exponent_eq_zero_iff (b : BitVec 64) :
    @unpackExponent Format.binary64 b = 0#11 ↔ b.toNat / 2 ^ 52 % 2 ^ 11 = 0 := by
  rw [← BitVec.toNat_inj, toNat_exponent]
  rfl

theorem exponent_eq_ones_iff (b : BitVec 64) :
    @unpackExponent Format.binary64 b = -1#11 ↔ b.toNat / 2 ^ 52 % 2 ^ 11 = 2047 := by
  rw [← BitVec.toNat_inj, toNat_exponent]
  rfl

theorem sign_eq_zero_iff (b : BitVec 64) :
    @unpackSign Format.binary64 b = 0#1 ↔ b.toNat / 2 ^ 63 % 2 = 0 := by
  rw [← BitVec.toNat_inj, toNat_sign]
  rfl

theorem significand_pos {m : Nat} (hm : 0 < m) : 0 < significand m := by
  unfold significand scale
  omega

/-- The sign, the significand and the exponent of a positive magnitude. -/
def unpacked (m : Nat) (hm : 0 < m) : UnpackedFloat :=
  .finite .positive (significand m) ((scale m : Int) - 1074) (significand_pos hm)

/-- Comparing exponents first and significands second compares the magnitudes. -/
theorem unpacked_le_iff {a b : Nat} {ha : 0 < a} {hb : 0 < b} :
    (unpacked a ha).le (unpacked b hb) = true ↔ a ≤ b := by
  simp only [unpacked, UnpackedFloat.le, UnpackedFloat.compare, Option.any_some,
    Ordering.isLE_then_iff_or, Int.compare_eq_lt, Int.compare_eq_eq, Nat.isLE_compare]
  unfold significand scale
  omega

theorem unpacked_lt_iff {a b : Nat} {ha : 0 < a} {hb : 0 < b} :
    (unpacked a ha).lt (unpacked b hb) = true ↔ a < b := by
  simp only [unpacked, UnpackedFloat.lt, UnpackedFloat.compare, beq_iff_eq, Option.some.injEq,
    Ordering.then_eq_lt, Int.compare_eq_lt, Int.compare_eq_eq, Nat.compare_eq_lt]
  unfold significand scale
  omega

theorem unpack_eq_unpacked {b : BitVec 64} (hpos : 0 < b.toNat) (hfin : b.toNat < infinity) :
    unpack .binary64 b = unpacked b.toNat hpos := by
  have hbias : (Format.binary64.exponentBias : Int) + (52 : Nat) = 1075 := rfl
  unfold infinity at hfin
  have hsign : Sign.ofBitVec (@unpackSign Format.binary64 b) = .positive := by
    have hzero : @unpackSign Format.binary64 b = 0#1 := by
      rw [sign_eq_zero_iff]
      omega
    rw [hzero]
    rfl
  have hones : ¬ @unpackExponent Format.binary64 b = -1#11 := by
    rw [exponent_eq_ones_iff]
    omega
  rw [UnpackedFloat.unpack, if_neg hones, hsign]
  split
  · next hzero =>
    rw [exponent_eq_zero_iff] at hzero
    have hfraction : ¬ @unpackMantissa Format.binary64 b = 0#52 := by
      rw [mantissa_eq_zero_iff]
      omega
    rw [dif_neg hfraction]
    simp only [unpacked, UnpackedFloat.finite.injEq, true_and, toNat_mantissa, toNat_exponent,
      hbias]
    unfold significand scale
    omega
  · next hnonzero =>
    rw [exponent_eq_zero_iff] at hnonzero
    have happend : (1#1 ++ @unpackMantissa Format.binary64 b).toNat =
        2 ^ 52 + b.toNat % 2 ^ 52 := by
      rw [BitVec.toNat_append, ← Nat.shiftLeft_add_eq_or_of_lt (BitVec.isLt _), toNat_mantissa,
        Nat.shiftLeft_eq]
      rfl
    simp only [unpacked, UnpackedFloat.finite.injEq, true_and, toNat_exponent, hbias, happend]
    unfold significand scale
    omega

/-- A pattern is positive and finite, or it belongs to one of the other kinds of floats. -/
theorem unpack_cases (b : BitVec 64) :
    (0 < b.toNat ∧ b.toNat < infinity) ∨ unpack .binary64 b = .notANumber ∨
      (∃ s, unpack .binary64 b = .infinity s) ∨ (∃ s, unpack .binary64 b = .zero s) ∨
      ∃ f e hf, unpack .binary64 b = .finite .negative f e hf := by
  by_cases hones : @unpackExponent Format.binary64 b = -1#11
  · by_cases hfraction : @unpackMantissa Format.binary64 b = 0#52
    · exact .inr (.inr (.inl ⟨_, by rw [UnpackedFloat.unpack, if_pos hones, if_pos hfraction]⟩))
    · exact .inr (.inl (by rw [UnpackedFloat.unpack, if_pos hones, if_neg hfraction]))
  by_cases hzero : @unpackExponent Format.binary64 b = 0#11 ∧
      @unpackMantissa Format.binary64 b = 0#52
  · refine .inr (.inr (.inr (.inl ⟨Sign.ofBitVec (@unpackSign Format.binary64 b), ?_⟩)))
    rw [UnpackedFloat.unpack, if_neg hones, if_pos hzero.1, dif_pos hzero.2]
  by_cases hsign : @unpackSign Format.binary64 b = 0#1
  · left
    rw [exponent_eq_ones_iff] at hones
    rw [exponent_eq_zero_iff, mantissa_eq_zero_iff] at hzero
    rw [sign_eq_zero_iff] at hsign
    have hbound := b.isLt
    unfold infinity
    omega
  · have hnegative : Sign.ofBitVec (@unpackSign Format.binary64 b) = .negative := if_neg hsign
    refine .inr (.inr (.inr (.inr ?_)))
    by_cases hsmall : @unpackExponent Format.binary64 b = 0#11
    · have hfraction : ¬ @unpackMantissa Format.binary64 b = 0#52 := by
        intro h
        exact hzero ⟨hsmall, h⟩
      exact ⟨_, _, _, by
        rw [UnpackedFloat.unpack, if_neg hones, if_pos hsmall, dif_neg hfraction, hnegative]⟩
    · exact ⟨_, _, _, by rw [UnpackedFloat.unpack, if_neg hones, if_neg hsmall, hnegative]⟩

/-- What lies between two positive finite floats is positive and finite. -/
theorem finite_of_between {lo hi : Nat} {hlo : 0 < lo} {hhi : 0 < hi} {b : BitVec 64}
    (hle : (unpacked lo hlo).le (unpack .binary64 b) = true)
    (hlt : (unpack .binary64 b).lt (unpacked hi hhi) = true) :
    0 < b.toNat ∧ b.toNat < infinity := by
  rcases unpack_cases b with hfin | hnan | ⟨s, hinf⟩ | ⟨s, hzero⟩ | ⟨f, e, hf, hneg⟩
  · exact hfin
  · rw [hnan] at hle
    cases hle
  · rw [hinf] at hle hlt
    cases s with
    | positive => cases hlt
    | negative => cases hle
  · rw [hzero] at hle
    cases hle
  · rw [hneg] at hle
    cases hle

theorem unpack_float {x : Float} (hpos : 0 < x.toBits.toNat) (hfin : x.toBits.toNat < infinity) :
    x.toModel.unpack = unpacked x.toBits.toNat hpos :=
  unpack_eq_unpacked hpos hfin

theorem le_iff_of_finite {x y : Float} (hx : 0 < x.toBits.toNat) (hx' : x.toBits.toNat < infinity)
    (hy : 0 < y.toBits.toNat) (hy' : y.toBits.toNat < infinity) :
    x ≤ y ↔ x.toBits.toNat ≤ y.toBits.toNat := by
  have hle : x ≤ y ↔ (x.toModel.unpack).le y.toModel.unpack = true := decide_eq_true_iff
  rw [hle, unpack_float hx hx', unpack_float hy hy', unpacked_le_iff]

theorem lt_iff_of_finite {x y : Float} (hx : 0 < x.toBits.toNat) (hx' : x.toBits.toNat < infinity)
    (hy : 0 < y.toBits.toNat) (hy' : y.toBits.toNat < infinity) :
    x < y ↔ x.toBits.toNat < y.toBits.toNat := by
  have hlt : x < y ↔ (x.toModel.unpack).lt y.toModel.unpack = true := decide_eq_true_iff
  rw [hlt, unpack_float hx hx', unpack_float hy hy', unpacked_lt_iff]

/-- A float lies between two positive finite ones if its pattern lies between their patterns. -/
theorem between_iff {lo hi x : Float} (hlo : 0 < lo.toBits.toNat)
    (hlo' : lo.toBits.toNat < infinity) (hhi : 0 < hi.toBits.toNat)
    (hhi' : hi.toBits.toNat < infinity) :
    lo ≤ x ∧ x < hi ↔ lo.toBits.toNat ≤ x.toBits.toNat ∧ x.toBits.toNat < hi.toBits.toNat := by
  constructor
  · rintro ⟨hle, hlt⟩
    have hle' : (lo.toModel.unpack).le x.toModel.unpack = true := of_decide_eq_true hle
    have hlt' : (x.toModel.unpack).lt hi.toModel.unpack = true := of_decide_eq_true hlt
    rw [unpack_float hlo hlo'] at hle'
    rw [unpack_float hhi hhi'] at hlt'
    obtain ⟨hpos, hfin⟩ := finite_of_between hle' hlt'
    exact ⟨(le_iff_of_finite hlo hlo' hpos hfin).mp hle,
      (lt_iff_of_finite hpos hfin hhi hhi').mp hlt⟩
  · rintro ⟨hle, hlt⟩
    have hpos : 0 < x.toBits.toNat := by omega
    have hfin : x.toBits.toNat < infinity := by omega
    exact ⟨(le_iff_of_finite hlo hlo' hpos hfin).mpr hle,
      (lt_iff_of_finite hpos hfin hhi hhi').mpr hlt⟩

theorem abs_neg_unpacked (u : UnpackedFloat) : u.neg.abs = u.abs := by
  cases u <;> rfl

theorem toNat_packedNaN : (packedNaN Format.binary64).toNat = infinity + 2 ^ 51 := by
  decide +kernel

/-- The patterns without a sign bit are their own absolute values. -/
theorem abs_unpack {b : BitVec 64} (h : b.toNat < signBit) :
    (unpack .binary64 b).abs = unpack .binary64 b := by
  have hsign : Sign.ofBitVec (@unpackSign Format.binary64 b) = .positive := by
    have hzero : @unpackSign Format.binary64 b = 0#1 := by
      rw [sign_eq_zero_iff]
      unfold signBit at h
      omega
    rw [hzero]
    rfl
  simp only [UnpackedFloat.unpack, hsign]
  repeat' split
  all_goals rfl

/-- Two patterns that differ in their sign bit stand for opposite numbers. -/
theorem unpack_eq_neg {b b' : BitVec 64} (h : b.toNat = signBit + b'.toNat) :
    unpack .binary64 b = (unpack .binary64 b').neg := by
  have hbound := b.isLt
  unfold signBit at h
  have hexponent : @unpackExponent Format.binary64 b = @unpackExponent Format.binary64 b' := by
    apply BitVec.eq_of_toNat_eq
    rw [toNat_exponent, toNat_exponent]
    omega
  have hmantissa : @unpackMantissa Format.binary64 b = @unpackMantissa Format.binary64 b' := by
    apply BitVec.eq_of_toNat_eq
    rw [toNat_mantissa, toNat_mantissa]
    omega
  have hzero : @unpackSign Format.binary64 b' = 0#1 := by
    rw [sign_eq_zero_iff]
    omega
  have hone : @unpackSign Format.binary64 b = 1#1 := by
    have htoNat : (1#1).toNat = 1 := rfl
    apply BitVec.eq_of_toNat_eq
    rw [toNat_sign, htoNat]
    omega
  simp only [UnpackedFloat.unpack, hexponent, hmantissa, hzero, hone]
  repeat' split
  all_goals rfl

/-- A valid pattern above that of infinity is the one of NaN. -/
theorem eq_packedNaN {b : BitVec 64} (h : Format.binary64.Valid b)
    (hlt : infinity < b.toNat % signBit) : b = packedNaN .binary64 := by
  unfold infinity signBit at hlt
  apply h.eq_packedNaN
  · rw [exponent_eq_ones_iff]
    omega
  · rw [Ne, mantissa_eq_zero_iff]
    omega

theorem magnitude_le_infinity {b : BitVec 64} (h : Format.binary64.Valid b)
    (hsign : signBit ≤ b.toNat) : b.toNat % signBit ≤ infinity := by
  apply Nat.le_of_not_lt
  intro hlt
  have hnan := eq_packedNaN h hlt
  rw [hnan, toNat_packedNaN] at hsign
  unfold infinity signBit at hsign
  omega

theorem valid_of_le_infinity {b : BitVec 64} (h : b.toNat ≤ infinity) :
    Format.binary64.Valid b where
  eq_packedNaN hexponent hmantissa := by
    rw [exponent_eq_ones_iff] at hexponent
    rw [Ne, mantissa_eq_zero_iff] at hmantissa
    unfold infinity at h
    omega

theorem toBits_ofBits {bits : UInt64} (h : bits.toNat ≤ infinity) :
    (Float.ofBits bits).toBits = bits := by
  have hself := Float.ofBits_toBits ⟨⟨bits, valid_of_le_infinity h⟩⟩
  exact congrArg Float.toBits hself

/-- A magnitude is the bit pattern of a float without a sign. -/
theorem toNat_toBits_ofBits {m : Nat} (h : m ≤ infinity) :
    (Float.ofBits m.toUInt64).toBits.toNat = m := by
  have hm : m.toUInt64.toNat = m := by
    apply UInt64.toNat_ofNat_of_lt'
    unfold infinity at h
    show m < 2 ^ 64
    omega
  rw [toBits_ofBits (by rw [hm]; exact h), hm]

/-- The patterns without a sign bit from that of infinity on are not finite, and those behind it are
not numbers. -/
theorem kind_unpack {b : BitVec 64} (h : b.toNat < signBit) :
    ((unpack .binary64 b).isFinite = true ↔ b.toNat < infinity) ∧
      ((unpack .binary64 b).isNaN = true ↔ infinity < b.toNat) := by
  unfold signBit at h
  unfold infinity
  rw [UnpackedFloat.unpack]
  by_cases hones : @unpackExponent Format.binary64 b = -1#11
  · rw [if_pos hones]
    rw [exponent_eq_ones_iff] at hones
    by_cases hfraction : @unpackMantissa Format.binary64 b = 0#52
    · rw [if_pos hfraction]
      rw [mantissa_eq_zero_iff] at hfraction
      simp only [UnpackedFloat.isFinite, UnpackedFloat.isNaN, Bool.false_eq_true, false_iff]
      omega
    · rw [if_neg hfraction]
      rw [mantissa_eq_zero_iff] at hfraction
      simp only [UnpackedFloat.isFinite, UnpackedFloat.isNaN, Bool.false_eq_true, false_iff,
        true_iff]
      omega
  · rw [if_neg hones]
    rw [exponent_eq_ones_iff] at hones
    have hfinite : b.toNat < 0x7ff * 2 ^ 52 := by omega
    split
    · split <;> simp [UnpackedFloat.isFinite, UnpackedFloat.isNaN] <;> omega
    · simp [UnpackedFloat.isFinite, UnpackedFloat.isNaN]
      omega

theorem kind_neg (u : UnpackedFloat) :
    u.neg.isFinite = u.isFinite ∧ u.neg.isNaN = u.isNaN := by
  cases u <;> exact ⟨rfl, rfl⟩

theorem toBitVec_abs (x : Float) : x.abs.toBits.toBitVec =
    UnpackedFloat.pack .binary64 (unpack .binary64 x.toBits.toBitVec).abs := rfl

theorem toBitVec_neg (x : Float) : (-x).toBits.toBitVec =
    UnpackedFloat.pack .binary64 (unpack .binary64 x.toBits.toBitVec).neg := rfl

/-- A float has no sign bit and is its own absolute value, or it is the opposite of its absolute
value, which has its pattern without the sign bit and is not NaN. -/
theorem abs_cases (x : Float) : (x.toBits.toNat < signBit ∧ x.abs = x) ∨
    x.toBits.toNat = signBit + x.abs.toBits.toNat ∧ x.abs.toBits.toNat ≤ infinity ∧ -x.abs = x := by
  have hvalid : Format.binary64.Valid x.toBits.toBitVec := x.toModel.valid
  rcases Nat.lt_or_ge x.toBits.toNat signBit with hlt | hge
  · refine .inl ⟨hlt, ?_⟩
    apply Float.toBits_inj.mp
    apply UInt64.toBitVec_inj.mp
    rw [toBitVec_abs, abs_unpack hlt, pack_unpack_of_valid hvalid]
  · have hmagnitude := magnitude_le_infinity hvalid hge
    have hbound := x.toBits.toBitVec.isLt
    have hbits : x.toBits.toNat = x.toBits.toBitVec.toNat := rfl
    have hcleared : x.toBits.toBitVec.toNat =
        signBit + (BitVec.ofNat 64 (x.toBits.toNat % signBit)).toNat := by
      rw [BitVec.toNat_ofNat]
      unfold signBit at hge ⊢
      omega
    generalize BitVec.ofNat 64 (x.toBits.toNat % signBit) = b at hcleared
    have hle : b.toNat ≤ infinity := by
      unfold infinity signBit at *
      omega
    have habs : x.abs.toBits.toBitVec = b := by
      have hlt : b.toNat < signBit := by
        unfold infinity signBit at *
        omega
      rw [toBitVec_abs, unpack_eq_neg hcleared, abs_neg_unpacked, abs_unpack hlt,
        pack_unpack_of_valid (valid_of_le_infinity hle)]
    have htoNat : x.abs.toBits.toNat = b.toNat := congrArg BitVec.toNat habs
    refine .inr ⟨by rw [htoNat]; exact hcleared, by rw [htoNat]; exact hle, ?_⟩
    apply Float.toBits_inj.mp
    apply UInt64.toBitVec_inj.mp
    rw [toBitVec_neg, habs, ← unpack_eq_neg hcleared, pack_unpack_of_valid hvalid]

end Reckoner.Binary64
