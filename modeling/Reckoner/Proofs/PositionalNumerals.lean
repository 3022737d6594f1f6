import Reckoner.Proofs.FloatBits
import Reckoner.Proofs.Rounding
import Reckoner.Proofs.Tokenization

/-!
Numerals that read back. A decimal written positionally is a number piece, and reading it gives the
float that the decimal rounds to. The floats from 10^-6 up to 10^21 and the positive zero are
written positionally, so each of them is read back with its own bit pattern.
-/

namespace Reckoner.Numeral

open Binary64

theorem digitsValue_eq (ds : List Char) : digitsValue ds = Nat.ofDigitChars 10 ds 0 := rfl

theorem digitsValue_digits (d : Decimal) : digitsValue d.digits = d.coefficient := by
  rw [digitsValue_eq]
  exact Nat.ofDigitChars_ten_toDigits

theorem digitsValue_append_zeros (ds : List Char) (n : Nat) :
    digitsValue (ds ++ List.replicate n '0') = digitsValue ds * 10 ^ n := by
  simp only [digitsValue_eq, Nat.ofDigitChars_append, Nat.ofDigitChars_replicate_zero]
  exact Nat.mul_comm _ _

theorem digitsValue_zeros_append (ds : List Char) (n : Nat) :
    digitsValue (List.replicate n '0' ++ ds) = digitsValue ds := by
  simp only [digitsValue_eq, Nat.ofDigitChars_append, Nat.ofDigitChars_replicate_zero,
    Nat.mul_zero]

theorem digitsValue_fraction (d : Decimal) (zeros : Nat) :
    digitsValue (['0'] ++ (List.replicate zeros '0' ++ d.digits)) = d.coefficient := by
  rw [← List.append_assoc, ← List.replicate_one, List.replicate_append_replicate,
    digitsValue_zeros_append, digitsValue_digits]

theorem isDigit_of_mem_digits (d : Decimal) : ∀ c ∈ d.digits, c.isDigit = true := by
  intro c hc
  exact Nat.isDigit_of_mem_toDigits (by omega) (by omega) hc

theorem isDigit_of_mem_zeros {n : Nat} : ∀ c ∈ List.replicate n '0', c.isDigit = true := by
  intro c hc
  rw [List.eq_of_mem_replicate hc]
  rfl

theorem isDigit_of_mem_padded (d : Decimal) (zeros : Nat) :
    ∀ c ∈ d.digits ++ List.replicate zeros '0', c.isDigit = true := by
  intro c hc
  rcases List.mem_append.mp hc with hd | hz
  · exact isDigit_of_mem_digits d c hd
  · exact isDigit_of_mem_zeros c hz

theorem isDigit_of_mem_fraction (d : Decimal) (zeros : Nat) :
    ∀ c ∈ List.replicate zeros '0' ++ d.digits, c.isDigit = true := by
  intro c hc
  rcases List.mem_append.mp hc with hz | hd
  · exact isDigit_of_mem_zeros c hz
  · exact isDigit_of_mem_digits d c hd

/-- The numerals that stand for the decimal `d`. -/
def Denotes (text : List Char) (d : Decimal) : Prop :=
  ∃ a b : Nat, d.exponent = (a : Int) - b ∧ Piece.Matches .number text ∧
    read? text = some (Float.ofBits (ofDecimal (d.coefficient * 10 ^ a) b).toUInt64)

theorem denotes_whole {d : Decimal} (h : d.digits.length ≤ d.point) :
    Denotes (d.digits ++ List.replicate (d.point - d.digits.length).toNat '0') d := by
  have hne : d.digits ++ List.replicate (d.point - d.digits.length).toNat '0' ≠ [] :=
    List.append_ne_nil_of_left_ne_nil d.digits_ne_nil _
  have hall := isDigit_of_mem_padded d (d.point - d.digits.length).toNat
  refine ⟨(d.point - d.digits.length).toNat, 0, ?_, .whole hne hall, ?_⟩
  · unfold Decimal.point at h ⊢
    omega
  · rw [Piece.read?_whole hne hall, ofDigits, List.append_nil, digitsValue_append_zeros,
      digitsValue_digits]
    rfl

theorem denotes_split {d : Decimal} (hpos : 0 < d.point) (hlt : d.point < d.digits.length) :
    Denotes (d.digits.take d.point.toNat ++ '.' :: d.digits.drop d.point.toNat) d := by
  have hwhole : d.digits.take d.point.toNat ≠ [] := by
    rw [← List.length_pos_iff, List.length_take]
    omega
  have hfraction : d.digits.drop d.point.toNat ≠ [] := by
    rw [← List.length_pos_iff, List.length_drop]
    omega
  have htake : ∀ c ∈ d.digits.take d.point.toNat, c.isDigit = true := by
    intro c hc
    exact isDigit_of_mem_digits d c (List.mem_of_mem_take hc)
  have hdrop : ∀ c ∈ d.digits.drop d.point.toNat, c.isDigit = true := by
    intro c hc
    exact isDigit_of_mem_digits d c (List.mem_of_mem_drop hc)
  refine ⟨0, (d.digits.drop d.point.toNat).length, ?_, .decimal hwhole htake hfraction hdrop, ?_⟩
  · rw [List.length_drop]
    unfold Decimal.point at hlt hpos ⊢
    omega
  · rw [Piece.read?_decimal hwhole htake hfraction hdrop, ofDigits, List.take_append_drop,
      digitsValue_digits, Nat.pow_zero, Nat.mul_one]

theorem denotes_fraction {d : Decimal} (h : d.point ≤ 0) :
    Denotes ('0' :: '.' :: List.replicate (-d.point).toNat '0' ++ d.digits) d := by
  have hwhole : ∀ c ∈ ['0'], c.isDigit = true := by
    intro c hc
    rw [List.mem_singleton.mp hc]
    rfl
  have hne : List.replicate (-d.point).toNat '0' ++ d.digits ≠ [] :=
    List.append_ne_nil_of_right_ne_nil _ d.digits_ne_nil
  have hall := isDigit_of_mem_fraction d (-d.point).toNat
  refine ⟨0, (List.replicate (-d.point).toNat '0' ++ d.digits).length, ?_,
    .decimal (List.cons_ne_nil _ _) hwhole hne hall, ?_⟩
  · rw [List.length_append, List.length_replicate]
    unfold Decimal.point at h ⊢
    omega
  · have hread := Piece.read?_decimal (List.cons_ne_nil _ _) hwhole hne hall
    rw [ofDigits, digitsValue_fraction] at hread
    rw [Nat.pow_zero, Nat.mul_one]
    exact hread

/-- The positional text of a decimal stands for the decimal, wherever its point is. -/
theorem denotes_positionalText (d : Decimal) :
    Denotes (Decimal.positionalText d.digits d.point) d := by
  unfold Decimal.positionalText
  by_cases hwhole : d.digits.length ≤ d.point
  · rw [if_pos hwhole]
    exact denotes_whole hwhole
  · rw [if_neg hwhole]
    by_cases hpos : 0 < d.point
    · rw [if_pos hpos]
      exact denotes_split hpos (by omega)
    · rw [if_neg hpos]
      exact denotes_fraction (by omega)

theorem shortest_millionth : Decimal.shortest (ofDecimal 1 6) = ⟨1, -6⟩ := by
  decide +kernel

theorem shortest_sextillion : Decimal.shortest (ofDecimal (10 ^ 21) 0) = ⟨1, 21⟩ := by
  decide +kernel

/-- The point of the magnitudes from that of 10^-6 up to that of 10^21 stands neither far behind the
digits nor far before them. -/
theorem point_between_iff {m : Nat} (hpos : 0 < m) (hfin : m < infinity) :
    (-6 < (Decimal.shortest m).point ∧ (Decimal.shortest m).point ≤ 21) ↔
      ofDecimal 1 6 ≤ m ∧ m < ofDecimal (10 ^ 21) 0 := by
  constructor
  · rintro ⟨hlow, hhigh⟩
    constructor
    · apply Nat.le_of_not_lt
      intro hlt
      have hle : (Decimal.shortest m).point ≤ -6 := Decimal.point_le (a := 0) (b := 6) hpos hlt
      omega
    · apply Nat.lt_of_not_le
      intro hle
      rcases Nat.eq_or_lt_of_le hle with rfl | hlt
      · rw [shortest_sextillion] at hhigh
        exact absurd hhigh (by decide)
      · have hgt : 21 < (Decimal.shortest m).point :=
          Decimal.lt_point (a := 21) (b := 0) hfin hlt
        omega
  · rintro ⟨hlow, hhigh⟩
    have hle : (Decimal.shortest m).point ≤ 21 := Decimal.point_le (a := 21) (b := 0) hpos hhigh
    refine ⟨?_, hle⟩
    rcases Nat.eq_or_lt_of_le hlow with rfl | hlt
    · rw [shortest_millionth]
      decide
    · exact Decimal.lt_point (a := 0) (b := 6) hfin hlt

theorem millionth_pos : 0 < ofDecimal 1 6 := by
  decide +kernel

/-- The magnitudes from that of 10^-6 up to that of 10^21 are written positionally. -/
theorem text_shortest {m : Nat} (hlow : ofDecimal 1 6 ≤ m) (hhigh : m < ofDecimal (10 ^ 21) 0) :
    (Decimal.shortest m).text =
      Decimal.positionalText (Decimal.shortest m).digits (Decimal.shortest m).point := by
  have hfin : m < infinity := Nat.lt_of_lt_of_le hhigh (nearest_le_infinity _ _)
  have hpos : 0 < m := Nat.lt_of_lt_of_le millionth_pos hlow
  exact if_pos ((point_between_iff hpos hfin).mpr ⟨hlow, hhigh⟩)

/-- The floats that are written without a sign and without an exponent: the positive zero and those
from 10^-6 up to 10^21. -/
def Plain (x : Float) : Prop := x.toBits = 0 ∨ (1e-6 : Float) ≤ x ∧ x < 1e21

theorem toBits_millionth : (1e-6 : Float).toBits.toNat = ofDecimal 1 6 := by
  decide +kernel

theorem toBits_sextillion : (1e21 : Float).toBits.toNat = ofDecimal (10 ^ 21) 0 := by
  decide +kernel

theorem sextillion_lt_infinity : ofDecimal (10 ^ 21) 0 < infinity := by
  decide +kernel

theorem between_iff_magnitude {x : Float} : (1e-6 : Float) ≤ x ∧ x < 1e21 ↔
    ofDecimal 1 6 ≤ x.toBits.toNat ∧ x.toBits.toNat < ofDecimal (10 ^ 21) 0 := by
  have horder : ofDecimal 1 6 ≤ ofDecimal (10 ^ 21) 0 := ofDecimal_mono (by omega)
  have hpos := millionth_pos
  have hfin := sextillion_lt_infinity
  rw [← toBits_millionth] at hpos horder ⊢
  rw [← toBits_sextillion] at hfin horder ⊢
  exact between_iff hpos (by omega) (by omega) hfin

/-- A float without a sign that is not NaN is written as its magnitude. -/
theorem write_of_le_infinity {x : Float} (h : x.toBits.toNat ≤ infinity) :
    write x = String.ofList (writeMagnitude x.toBits.toNat) := by
  have hsign : x.toBits.toNat < signBit := by
    unfold infinity at h
    unfold signBit
    omega
  have hmod : x.toBits.toNat % signBit = x.toBits.toNat := Nat.mod_eq_of_lt hsign
  unfold write
  simp only [hmod]
  rw [if_neg (by omega), if_neg (by omega)]

theorem write_of_finite {x : Float} (hpos : 0 < x.toBits.toNat) (hfin : x.toBits.toNat < infinity) :
    write x = String.ofList (Decimal.shortest x.toBits.toNat).text := by
  rw [write_of_le_infinity (Nat.le_of_lt hfin)]
  unfold writeMagnitude
  rw [if_neg (by omega), if_neg (by omega)]

theorem eq_zero_of_toBits {x : Float} (h : x.toBits = 0) : x = 0 := by
  obtain ⟨⟨bits, hvalid⟩⟩ := x
  have hbits : bits = 0 := h
  subst hbits
  rfl

/-- A plain float is written as a number piece that reads back as the same float. -/
theorem read?_write {x : Float} (h : Plain x) :
    Piece.Matches .number (write x).toList ∧ read? (write x).toList = some x := by
  rcases h with hzero | ⟨hle, hlt⟩
  · rw [eq_zero_of_toBits hzero]
    have hwrite : (write 0).toList = ['0'] := by decide +kernel
    have hread : read? ['0'] = some 0 := by decide +kernel
    rw [hwrite]
    refine ⟨.whole (List.cons_ne_nil _ _) ?_, hread⟩
    intro c hc
    rw [List.mem_singleton.mp hc]
    rfl
  · obtain ⟨hlow, hhigh⟩ := between_iff_magnitude.mp ⟨hle, hlt⟩
    have hfin : x.toBits.toNat < infinity := Nat.lt_of_lt_of_le hhigh (nearest_le_infinity _ _)
    have hpos : 0 < x.toBits.toNat := Nat.lt_of_lt_of_le millionth_pos hlow
    obtain ⟨a, b, hexp, hmatch, hread⟩ := denotes_positionalText (Decimal.shortest x.toBits.toNat)
    rw [write_of_finite hpos hfin, String.toList_ofList, text_shortest hlow hhigh]
    rw [Decimal.ofDecimal_shortest hfin hexp] at hread
    have hself : Float.ofBits x.toBits.toNat.toUInt64 = x := by
      rw [show x.toBits.toNat.toUInt64 = x.toBits from UInt64.ofNat_toNat]
      exact x.ofBits_toBits
    rw [hself] at hread
    exact ⟨hmatch, hread⟩

end Reckoner.Numeral
