import Reckoner.Proofs.ExactNumerals

/-!
Laying out numbers. Laying out the digits of a finite number with operations that fail, wherever a
count is negative, a text is split behind its end or a number leaves 32 bits, gives the text that is
written. This text stands for the number that the digits and their exponent stand for.
-/

namespace Reckoner

namespace Checked

/-- A whole number that fits into 32 bits. -/
def narrow? (n : Int) : Option Int :=
  if -2147483648 ≤ n ∧ n < 2147483648 then some n else none

def zeros? (count : Int) : Option (List Char) :=
  if 0 ≤ count then some (List.replicate count.toNat '0') else none

def splitAt? (cs : List Char) (i : Int) : Option (List Char × List Char) :=
  if 0 ≤ i ∧ i ≤ cs.length then some (cs.take i.toNat, cs.drop i.toNat) else none

/-- The text of digits with the point behind the first of them and the given exponent. -/
def layOut? (ds : List Char) (exponent : Int) : Option (List Char) := do
  let count ← narrow? ds.length
  let point ← narrow? (exponent + 1)
  if count ≤ point ∧ point ≤ 21 then
    let missing ← narrow? (point - count)
    let zeros ← zeros? missing
    return ds ++ zeros
  else if 0 < point ∧ point ≤ 21 then
    let (whole, fraction) ← splitAt? ds point
    return whole ++ '.' :: fraction
  else if -6 < point ∧ point ≤ 0 then
    let missing ← narrow? (-point)
    let zeros ← zeros? missing
    return '0' :: '.' :: zeros ++ ds
  else
    let (first, rest) ← splitAt? ds 1
    let shown ← narrow? (point - 1)
    let mantissa := if rest = [] then first else first ++ '.' :: rest
    return mantissa ++ 'e' :: Decimal.exponentText shown

theorem narrow?_eq {n : Int} (h : -2147483648 ≤ n ∧ n < 2147483648) : narrow? n = some n :=
  if_pos h

/-- For digits and a point that 32 bits have room for, nothing fails. -/
theorem layOut?_eq {d : Decimal} (hpoint : -2147483648 < d.point ∧ d.point < 2147483648)
    (hdigits : d.digits.length < 2147483648) (hroom : d.point - d.digits.length < 2147483648) :
    layOut? d.digits (d.point - 1) = some d.text := by
  have hlength := d.length_digits_pos
  have hback : d.point - 1 + 1 = d.point := by omega
  have hcount : narrow? d.digits.length = some (d.digits.length : Int) := narrow?_eq (by omega)
  have hplace : narrow? d.point = some d.point := narrow?_eq (by omega)
  simp only [layOut?, hback, hcount, hplace, Option.bind_eq_bind, Option.bind_some]
  unfold Decimal.text Decimal.positionalText
  by_cases hwhole : d.digits.length ≤ d.point ∧ d.point ≤ 21
  · rw [if_pos hwhole, narrow?_eq (by omega), Option.bind_some, zeros?, if_pos (by omega),
      if_pos (by omega), if_pos hwhole.1]
    rfl
  rw [if_neg hwhole]
  by_cases hsplit : 0 < d.point ∧ d.point ≤ 21
  · rw [if_pos hsplit, splitAt?, if_pos (by omega), if_pos (by omega), if_neg (by omega),
      if_pos hsplit.1]
    rfl
  rw [if_neg hsplit]
  by_cases hfraction : -6 < d.point ∧ d.point ≤ 0
  · rw [if_pos hfraction, narrow?_eq (by omega), Option.bind_some, zeros?, if_pos (by omega),
      if_pos (by omega), if_neg (by omega), if_neg (by omega)]
    rfl
  · rw [if_neg hfraction, splitAt?, if_pos (by omega), narrow?_eq (by omega), if_neg (by omega),
      Decimal.mantissaText_eq d.digits_ne_nil]
    rfl

/-- A text is not split behind its end. -/
example : splitAt? ['1', '5'] 3 = none := rfl

end Checked

namespace Numeral

open Binary64

/-- The text of a finite number other than zero is laid out from the shortest decimal of its
magnitude without a failure. Read exactly it is the number `d₁.d₂…dₖ · 10^e` that the digits and the
exponent stand for, with a minus sign if the number is negative. It is positional if the exponent
lies from -6 to 20, which is so for absolute values from 10^-6 up to 10^21, and otherwise has one
digit before the point and shows the exponent. Two floats have the same text if they are equal or
both are no numbers. -/
theorem numbers_written_exactly :
    (∀ x : Float, x.isFinite = true → (x == 0) = false →
      let d := Decimal.shortest x.abs.toBits.toNat
      let e := d.point - 1
      d.IsShortest x.abs.toBits.toNat ∧
        ∃ l : Layout, Checked.layOut? d.digits e = some l.text ∧
          (write x).toList = (if x < 0 then ['-'] else []) ++ l.text ∧
          ((write x).toList.head? = some '-' ↔ x < 0) ∧
          rational? (write x).toList = some ((if x < 0 then -1 else 1 : ℚ) *
            ((digitsValue d.digits : ℚ) / 10 ^ (d.digits.length - 1) * 10 ^ e)) ∧
          (l.exponent = none ↔ -6 ≤ e ∧ e ≤ 20) ∧
          (l.exponent = none ↔ (1e-6 : Float) ≤ x.abs ∧ x.abs < 1e21) ∧
          (l.exponent ≠ none →
            l.exponent = some e ∧ l.whole ++ l.fraction = d.digits ∧ l.whole.length = 1)) ∧
    ∀ x y : Float, write x = write y ↔ (x == y) = true ∨ x.isNaN = true ∧ y.isNaN = true := by
  refine ⟨fun x hfinite hnonzero => ?_, fun x y => write_eq_write_iff⟩
  have hfin := (kind_iff x).1.mp hfinite
  have hpos : 0 < x.abs.toBits.toNat := by
    apply Nat.pos_of_ne_zero
    intro hzero
    rw [beq_zero_iff.mpr (UInt64.toNat_inj.mp hzero)] at hnonzero
    cases hnonzero
  have hshort := Decimal.isShortest_shortest hfin hpos
  have hbounds := Decimal.point_bounds hfin hpos
  have hwrite := write_of_ne_zero hpos hfin
  have hplain := (point_between_iff hpos hfin).trans between_iff_magnitude.symm
  generalize Decimal.shortest x.abs.toBits.toNat = d at *
  obtain ⟨l, hshows⟩ := Layout.exists_shows hshort.toTrimmed
  have hlaid := Checked.layOut?_eq (d := d) (by omega) (by omega) (by omega)
  rw [← hshows.text_eq] at hwrite hlaid
  obtain ⟨c, rest, htext, hc⟩ := l.exists_head_text
  refine ⟨hshort, l, hlaid, hwrite, ?_, ?_, ?_, ?_, fun hsome => ?_⟩
  · rw [hwrite]
    by_cases hneg : x < 0
    · rw [if_pos hneg]
      exact iff_of_true rfl hneg
    · rw [if_neg hneg, List.nil_append, htext, List.head?_cons, Option.some.injEq]
      refine iff_of_false ?_ hneg
      rintro rfl
      cases hc
  · rw [hwrite, ← d.value_eq_scientific, ← hshows.value_eq]
    by_cases hneg : x < 0
    · rw [if_pos hneg, if_pos hneg, neg_one_mul]
      exact l.rational?_minus_text
    · rw [if_neg hneg, if_neg hneg, one_mul]
      exact l.rational?_text
  · rw [hshows.exponent_eq_none_iff]
    omega
  · rw [hshows.exponent_eq_none_iff]
    exact hplain
  · exact hshows.exponential (hsome ∘ hshows.positional)

/-- The opposite of 15 · 10^-8 is too small to be written positionally. -/
theorem numbers_written_exactly_small :
    let x : Float := -1.5e-7
    x.isFinite = true ∧ (x == 0) = false ∧ (write x).toList = "-1.5e-7".toList ∧
      rational? (write x).toList = some (-3 / 20000000) := by
  intro x
  have hfinite : x.isFinite = true := by decide +kernel
  have hnonzero : (x == 0) = false := by decide +kernel
  have hneg : x < 0 := by decide +kernel
  have hshort : Decimal.shortest x.abs.toBits.toNat = ⟨15, -8⟩ := by decide +kernel
  obtain ⟨-, l, hlaid, hwrite, -, hvalue, -⟩ := numbers_written_exactly.1 x hfinite hnonzero
  rw [hshort, if_pos hneg] at hvalue
  rw [hshort] at hlaid
  have htext : l.text = "1.5e-7".toList := Option.some.inj (hlaid.symm.trans (by decide))
  rw [if_pos hneg, htext] at hwrite
  refine ⟨hfinite, hnonzero, hwrite, hvalue.trans ?_⟩
  have hdigits : (⟨15, -8⟩ : Decimal).digits = ['1', '5'] := by decide
  have hpoint : (⟨15, -8⟩ : Decimal).point = -6 := by decide
  have hnumber : digitsValue ['1', '5'] = 15 := by decide
  rw [hdigits, hpoint, hnumber]
  norm_num

end Numeral

end Reckoner
