import Reckoner.Proofs.PositionalNumerals

/-!
Numerals of all floats. A negative float is written as its absolute value behind a minus sign. The
absolute values that are not written positionally are those of NaN and infinity, which are written
as words, and those outside the range from 10^-6 up to 10^21, which are written with an exponent.
-/

namespace Reckoner.Numeral

open Binary64
open Float.Model.UnpackedFloat (unpack)

/-- The floats that are written without an exponent: the zeros, and those whose absolute value lies
from 10^-6 up to 10^21. -/
def Positional (x : Float) : Prop := x == 0 ∨ (1e-6 : Float) ≤ x.abs ∧ x.abs < 1e21

theorem beq_zero_iff {x : Float} : x == 0 ↔ x.abs.toBits = 0 := by
  constructor
  · intro h
    obtain ⟨-, -, rfl | ⟨rfl, -⟩ | ⟨rfl, -⟩⟩ := Float.beq_iff_ne_nan_and_eq.mp h <;> decide +kernel
  · intro h
    have hzero := eq_zero_of_toBits h
    rcases abs_cases x with ⟨-, habs⟩ | ⟨-, -, hneg⟩
    · rw [← habs, hzero]
      decide +kernel
    · rw [← hneg, hzero]
      decide +kernel

theorem plain_abs_iff {x : Float} : Plain x.abs ↔ Positional x := by
  unfold Plain Positional
  rw [beq_zero_iff]

theorem abs_lt_signBit (x : Float) : x.abs.toBits.toNat < signBit := by
  rcases abs_cases x with ⟨hlt, habs⟩ | ⟨-, hle, -⟩
  · rw [habs]
    exact hlt
  · unfold infinity at hle
    unfold signBit
    omega

/-- A pattern with the sign bit is written as its absolute value behind a minus sign, unless this is
zero. -/
theorem write_of_sign {x : Float} (hbits : x.toBits.toNat = signBit + x.abs.toBits.toNat)
    (hle : x.abs.toBits.toNat ≤ infinity) :
    write x = if x.abs.toBits.toNat = 0 then write x.abs else "-" ++ write x.abs := by
  have hlt := abs_lt_signBit x
  have hmod : x.toBits.toNat % signBit = x.abs.toBits.toNat := by
    rw [hbits, Nat.add_mod_left, Nat.mod_eq_of_lt hlt]
  have hmod' : x.abs.toBits.toNat % signBit = x.abs.toBits.toNat := Nat.mod_eq_of_lt hlt
  unfold write
  simp only [hmod, hmod', if_neg (Nat.not_lt.mpr hle)]
  by_cases hzero : x.abs.toBits.toNat = 0
  · rw [if_pos hzero, if_neg (by omega), if_neg (by omega)]
  · rw [if_neg hzero, if_pos ⟨by omega, hzero⟩, if_neg (by omega)]
    simp [String.ofList_cons]

/-- The text of a float is that of its absolute value, which the float is unless both are zero, or
the float is the opposite of its absolute value and a minus sign stands before the text. -/
theorem write_cases (x : Float) :
    (write x = write x.abs ∧ (x.abs = x ∨ x == 0)) ∨ write x = "-" ++ write x.abs ∧ -x.abs = x := by
  rcases abs_cases x with ⟨-, habs⟩ | ⟨hbits, hle, hneg⟩
  · exact .inl ⟨by rw [habs], .inl habs⟩
  · rw [write_of_sign hbits hle]
    split
    · next hzero => exact .inl ⟨rfl, .inr (beq_zero_iff.mpr (UInt64.toNat_inj.mp hzero))⟩
    · exact .inr ⟨rfl, hneg⟩

theorem kind_iff (x : Float) : (x.isFinite = true ↔ x.abs.toBits.toNat < infinity) ∧
    (x.isNaN = true ↔ infinity < x.abs.toBits.toNat) := by
  have hkind := kind_unpack (b := x.abs.toBits.toBitVec) (abs_lt_signBit x)
  rcases abs_cases x with ⟨-, habs⟩ | ⟨hbits, -, -⟩
  · rw [habs] at hkind ⊢
    exact hkind
  · have hneg : unpack .binary64 x.toBits.toBitVec = (unpack .binary64 x.abs.toBits.toBitVec).neg :=
      unpack_eq_neg hbits
    have hsame := kind_neg (unpack .binary64 x.abs.toBits.toBitVec)
    rw [← hneg] at hsame
    rw [← hsame.1, ← hsame.2] at hkind
    exact hkind

theorem unpack_zero : (0 : Float).toModel.unpack = .zero .positive := rfl

/-- A finite number other than zero is negative if its pattern has the sign bit. -/
theorem lt_zero_iff {x : Float} (hpos : 0 < x.abs.toBits.toNat)
    (hfin : x.abs.toBits.toNat < infinity) : x < 0 ↔ signBit ≤ x.toBits.toNat := by
  have hlt : x < 0 ↔ (x.toModel.unpack).lt (.zero .positive) = true := by
    rw [← unpack_zero]
    exact decide_eq_true_iff
  have habs := unpack_float hpos hfin
  rw [hlt]
  rcases abs_cases x with ⟨hsign, hself⟩ | ⟨hbits, -, -⟩
  · have hpositive : x.toModel.unpack = unpacked x.abs.toBits.toNat hpos :=
      (congrArg (·.toModel.unpack) hself).symm.trans habs
    have hnot : (unpacked x.abs.toBits.toNat hpos).lt (.zero .positive) = false := rfl
    rw [hpositive, hnot]
    exact iff_of_false Bool.false_ne_true (by omega)
  · have hnegative : x.toModel.unpack = (x.abs.toModel.unpack).neg :=
      unpack_eq_neg (show x.toBits.toBitVec.toNat = signBit + x.abs.toBits.toBitVec.toNat from hbits)
    have hyes : (unpacked x.abs.toBits.toNat hpos).neg.lt (.zero .positive) = true := rfl
    rw [hnegative, habs, hyes]
    exact iff_of_true rfl (by omega)

/-- A finite number other than zero is written as the shortest decimal of its magnitude, behind a
minus sign if it is negative. -/
theorem write_of_ne_zero {x : Float} (hpos : 0 < x.abs.toBits.toNat)
    (hfin : x.abs.toBits.toNat < infinity) : (write x).toList = (if x < 0 then ['-'] else []) ++
      (Decimal.shortest x.abs.toBits.toNat).text := by
  have habs : (write x.abs).toList = (Decimal.shortest x.abs.toBits.toNat).text := by
    rw [write_of_finite hpos hfin, String.toList_ofList]
  simp only [lt_zero_iff hpos hfin]
  rcases abs_cases x with ⟨hsign, hself⟩ | ⟨hbits, hle, -⟩
  · rw [if_neg (by omega), List.nil_append, ← habs, hself]
  · rw [if_pos (by omega), write_of_sign hbits hle, if_neg (by omega), String.toList_append, habs]
    rfl

theorem write_of_isNaN {x : Float} (h : x.isNaN = true) : write x = "NaN" := by
  have hnan := (kind_iff x).2.mp h
  rcases abs_cases x with ⟨hsign, hself⟩ | ⟨-, hle, -⟩
  · rw [hself] at hnan
    have hmod : x.toBits.toNat % signBit = x.toBits.toNat := Nat.mod_eq_of_lt hsign
    unfold write
    simp only [hmod, if_pos hnan]
  · omega

/-- The text with one digit before the point and an exponent. -/
def exponential (d : Decimal) : List Char :=
  Decimal.mantissaText d.digits ++ 'e' :: Decimal.exponentText (d.point - 1)

/-- The magnitudes below that of 10^-6 and from that of 10^21 on are written with an exponent. -/
theorem text_eq_exponential {m : Nat} (hpos : 0 < m) (hfin : m < infinity)
    (h : m < ofDecimal 1 6 ∨ ofDecimal (10 ^ 21) 0 ≤ m) :
    (Decimal.shortest m).text = exponential (Decimal.shortest m) := by
  refine if_neg fun hbetween => ?_
  have hin := (point_between_iff hpos hfin).mp hbetween
  omega

/-- What is not written positionally is a word or has an exponent, up to its sign. -/
theorem write_abs_cases {x : Float} (h : ¬ Positional x) : write x.abs = "NaN" ∨
    write x.abs = "Infinity" ∨ ∃ d, write x.abs = String.ofList (exponential d) := by
  have hlt := abs_lt_signBit x
  rw [← plain_abs_iff] at h
  generalize x.abs = y at h hlt
  have hmod : y.toBits.toNat % signBit = y.toBits.toNat := Nat.mod_eq_of_lt hlt
  rcases Nat.lt_trichotomy y.toBits.toNat infinity with hfin | hinf | hnan
  · right
    right
    have hpos : 0 < y.toBits.toNat := by
      apply Nat.pos_of_ne_zero
      intro hzero
      exact h (.inl (UInt64.toNat_inj.mp hzero))
    have houtside : y.toBits.toNat < ofDecimal 1 6 ∨ ofDecimal (10 ^ 21) 0 ≤ y.toBits.toNat := by
      have hnot : ¬ (ofDecimal 1 6 ≤ y.toBits.toNat ∧
          y.toBits.toNat < ofDecimal (10 ^ 21) 0) := by
        intro hbetween
        exact h (.inr (between_iff_magnitude.mpr hbetween))
      omega
    exact ⟨_, by rw [write_of_finite hpos hfin, text_eq_exponential hpos hfin houtside]⟩
  · right
    left
    rw [write_of_le_infinity (Nat.le_of_eq hinf)]
    unfold writeMagnitude
    rw [if_pos hinf]
    rfl
  · left
    unfold write
    simp only [hmod]
    rw [if_pos hnan]

theorem matches_mantissaText {ds : List Char} (hne : ds ≠ [])
    (hds : ∀ d ∈ ds, d.isDigit = true) : Piece.Matches .number (Decimal.mantissaText ds) := by
  unfold Decimal.mantissaText
  split
  · next first second rest =>
    have hfirst : ∀ d ∈ [first], d.isDigit = true := by
      intro d hd
      exact hds d (List.mem_singleton.mp hd ▸ List.mem_cons_self)
    have hothers : ∀ d ∈ second :: rest, d.isDigit = true := by
      intro d hd
      exact hds d (List.mem_cons_of_mem first hd)
    exact .decimal (List.cons_ne_nil _ _) hfirst (List.cons_ne_nil _ _) hothers
  · exact .whole hne hds

/-- An exponent is a sign and a number. -/
theorem exists_exponentText (x : Int) : ∃ o ds, (o = Symbol.minus ∨ o = Symbol.plus) ∧
    Piece.Matches .number ds ∧ Decimal.exponentText x = o.text.toList ++ ds := by
  have hmatch : Piece.Matches .number (Nat.toDigits 10 x.natAbs) := by
    refine .whole Nat.toDigits_ne_nil ?_
    intro d hd
    exact Nat.isDigit_of_mem_toDigits (by omega) (by omega) hd
  unfold Decimal.exponentText
  split
  · exact ⟨.minus, _, .inl rfl, hmatch, rfl⟩
  · exact ⟨.plus, _, .inr rfl, hmatch, rfl⟩

end Reckoner.Numeral
