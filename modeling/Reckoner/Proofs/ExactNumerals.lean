import Reckoner.Proofs.DistinctNumerals
import Reckoner.Proofs.ShortestDigits

/-!
The exact numbers of numerals. A layout is a numeral taken apart, with no digit to spare: its point
stands between digits, no zero leads more digits, and no zero ends a fraction. The text of a decimal
whose digits have no zero at either end is that of a layout, and as a rational number it is the
decimal.
-/

namespace Reckoner.Numeral

/-- Reads digits, or digits, a point and digits, as a number and a count of decimal places. -/
def mantissa? (text : List Char) : Option (Nat × Nat) :=
  let whole := text.takeWhile Char.isDigit
  if whole.isEmpty then none
  else match text.dropWhile Char.isDigit with
    | [] => some (digitsValue whole, 0)
    | '.' :: fraction =>
      if fraction.isEmpty || !fraction.all Char.isDigit then none
      else some (digitsValue (whole ++ fraction), fraction.length)
    | _ => none

/-- Reads a sign and digits. -/
def exponent? : List Char → Option Int
  | [] => none
  | sign :: ds =>
    if ds.isEmpty || !ds.all Char.isDigit then none
    else if sign = '-' then some (-(digitsValue ds : Int))
    else if sign = '+' then some (digitsValue ds)
    else none

/-- The number of a mantissa, which the mark `e` and an exponent may follow. -/
def magnitude? (text : List Char) : Option ℚ :=
  let mantissa := mantissa? (text.takeWhile (· != 'e'))
  let exponent : Option Int :=
    match text.dropWhile (· != 'e') with
    | [] => some 0
    | _ :: rest => exponent? rest
  mantissa.bind fun (n, places) => exponent.map fun (x : Int) => n * 10 ^ (x - places)

/-- The number that a text stands for, exactly. A minus sign may stand in front. -/
def rational? : List Char → Option ℚ
  | '-' :: text => (magnitude? text).map fun q => -q
  | text => magnitude? text

theorem mantissa?_whole {ds : List Char} (hne : ds ≠ []) (hds : ∀ d ∈ ds, d.isDigit = true) :
    mantissa? ds = some (digitsValue ds, 0) := by
  have htake : ds.takeWhile Char.isDigit = ds := List.takeWhile_eq_self_iff.mpr hds
  have hdrop : ds.dropWhile Char.isDigit = [] := List.dropWhile_eq_nil_iff.mpr hds
  simp [mantissa?, htake, hdrop, hne]

theorem mantissa?_decimal {ds fs : List Char} (hne : ds ≠ []) (hds : ∀ d ∈ ds, d.isDigit = true)
    (hne' : fs ≠ []) (hfs : ∀ d ∈ fs, d.isDigit = true) :
    mantissa? (ds ++ '.' :: fs) = some (digitsValue (ds ++ fs), fs.length) := by
  have htake : (ds ++ '.' :: fs).takeWhile Char.isDigit = ds :=
    Piece.takeWhile_append_eq hds (by simp)
  have hdrop : (ds ++ '.' :: fs).dropWhile Char.isDigit = '.' :: fs := by
    rw [List.dropWhile_append_of_pos hds, List.dropWhile_cons]
    simp
  have hall := List.all_eq_true.mpr hfs
  simp [mantissa?, htake, hdrop, hne, hne', hall]

/-- A text without an exponent is a mantissa. -/
theorem magnitude?_of_matches {text : List Char} (h : Piece.Matches .number text) :
    magnitude? text =
      (mantissa? text).map fun (n, places) => (n : ℚ) * 10 ^ ((0 : Int) - places) := by
  have hbefore := ne_mark_of_matches h
  have htake : text.takeWhile (· != 'e') = text := List.takeWhile_eq_self_iff.mpr hbefore
  have hdrop : text.dropWhile (· != 'e') = [] := List.dropWhile_eq_nil_iff.mpr hbefore
  unfold magnitude?
  simp only [htake, hdrop]
  cases mantissa? text <;> rfl

/-- A text that starts with a digit has no sign. -/
theorem rational?_of_isDigit {c : Char} (rest : List Char) (hc : c.isDigit = true) :
    rational? (c :: rest) = magnitude? (c :: rest) := by
  unfold rational?
  split
  · next heq =>
    cases heq
    cases hc
  · rfl

theorem rational?_of_matches {text : List Char} (h : Piece.Matches .number text) :
    rational? text = magnitude? text := by
  obtain ⟨c, rest, rfl, hc⟩ := exists_head_of_matches h
  exact rational?_of_isDigit rest hc

theorem rational?_whole {ds : List Char} (hne : ds ≠ []) (hds : ∀ d ∈ ds, d.isDigit = true) :
    rational? ds = some (digitsValue ds : ℚ) := by
  have hmatch : Piece.Matches .number ds := .whole hne hds
  rw [rational?_of_matches hmatch, magnitude?_of_matches hmatch, mantissa?_whole hne hds]
  simp

theorem rational?_decimal {ds fs : List Char} (hne : ds ≠ []) (hds : ∀ d ∈ ds, d.isDigit = true)
    (hne' : fs ≠ []) (hfs : ∀ d ∈ fs, d.isDigit = true) :
    rational? (ds ++ '.' :: fs) = some (digitsValue (ds ++ fs) / 10 ^ fs.length : ℚ) := by
  have hmatch : Piece.Matches .number (ds ++ '.' :: fs) := .decimal hne hds hne' hfs
  have hpower : (10 : ℚ) ^ ((0 : ℤ) - fs.length) = (10 ^ fs.length)⁻¹ := by
    rw [zero_sub, zpow_neg, zpow_natCast]
  rw [rational?_of_matches hmatch, magnitude?_of_matches hmatch,
    mantissa?_decimal hne hds hne' hfs, div_eq_mul_inv, ← hpower]
  rfl

structure Layout where
  whole : List Char
  fraction : List Char
  exponent : Option Int
  whole_ne_nil : whole ≠ []
  isDigit_whole : ∀ c ∈ whole, c.isDigit = true
  isDigit_fraction : ∀ c ∈ fraction, c.isDigit = true
  leading : whole.head? = some '0' → whole = ['0']
  trailing : fraction.getLast? ≠ some '0'

namespace Layout

variable (l : Layout)

def mantissaText : List Char :=
  if l.fraction = [] then l.whole else l.whole ++ '.' :: l.fraction

def exponentText : List Char :=
  match l.exponent with
  | none => []
  | some x => 'e' :: Decimal.exponentText x

def text : List Char := l.mantissaText ++ l.exponentText

def value : ℚ := digitsValue (l.whole ++ l.fraction) * 10 ^ (l.exponent.getD 0 - l.fraction.length)

theorem matches_mantissaText : Piece.Matches .number l.mantissaText := by
  unfold mantissaText
  split
  · exact .whole l.whole_ne_nil l.isDigit_whole
  · next hne => exact .decimal l.whole_ne_nil l.isDigit_whole hne l.isDigit_fraction

theorem mantissa?_mantissaText :
    mantissa? l.mantissaText = some (digitsValue (l.whole ++ l.fraction), l.fraction.length) := by
  unfold mantissaText
  split
  · next hnil =>
    rw [mantissa?_whole l.whole_ne_nil l.isDigit_whole, hnil, List.append_nil]
    rfl
  · next hne => exact mantissa?_decimal l.whole_ne_nil l.isDigit_whole hne l.isDigit_fraction

end Layout

theorem exponent?_exponentText (x : Int) : exponent? (Decimal.exponentText x) = some x := by
  have hall : (Nat.toDigits 10 x.natAbs).all Char.isDigit = true := by
    apply List.all_eq_true.mpr
    intro c hc
    exact Nat.isDigit_of_mem_toDigits (by omega) (by omega) hc
  have hvalue : digitsValue (Nat.toDigits 10 x.natAbs) = x.natAbs := by
    rw [digitsValue_eq, Nat.ofDigitChars_ten_toDigits]
  have hsome : ¬ ((Nat.toDigits 10 x.natAbs).isEmpty ||
      !(Nat.toDigits 10 x.natAbs).all Char.isDigit) = true := by
    simp [hall, Nat.toDigits_ne_nil]
  rw [Decimal.exponentText, exponent?, if_neg hsome, hvalue]
  by_cases hneg : x < 0
  · rw [if_pos hneg, if_pos rfl, Option.some.injEq]
    omega
  · rw [if_neg hneg, if_neg (by decide), if_pos rfl, Option.some.injEq]
    omega

namespace Layout

variable (l : Layout)

theorem magnitude?_text : magnitude? l.text = some l.value := by
  unfold text value exponentText
  cases l.exponent with
  | none =>
    rw [List.append_nil, magnitude?_of_matches l.matches_mantissaText, mantissa?_mantissaText]
    rfl
  | some x =>
    have hbefore := ne_mark_of_matches l.matches_mantissaText
    have htake : (l.mantissaText ++ 'e' :: Decimal.exponentText x).takeWhile (· != 'e') =
        l.mantissaText := Piece.takeWhile_append_eq hbefore (by simp)
    have hdrop : (l.mantissaText ++ 'e' :: Decimal.exponentText x).dropWhile (· != 'e') =
        'e' :: Decimal.exponentText x := by
      rw [List.dropWhile_append_of_pos hbefore, List.dropWhile_cons]
      simp
    simp only [magnitude?, htake, hdrop, mantissa?_mantissaText, exponent?_exponentText]
    rfl

theorem exists_head_text : ∃ c rest, l.text = c :: rest ∧ c.isDigit = true := by
  obtain ⟨c, cs, hmantissa, hc⟩ := exists_head_of_matches l.matches_mantissaText
  rw [text, hmantissa]
  exact ⟨c, _, rfl, hc⟩

theorem rational?_text : rational? l.text = some l.value := by
  obtain ⟨c, rest, htext, hc⟩ := l.exists_head_text
  have hread := l.magnitude?_text
  rw [htext] at hread ⊢
  rw [rational?_of_isDigit rest hc, hread]

theorem rational?_minus_text : rational? ('-' :: l.text) = some (-l.value) := by
  rw [rational?, l.magnitude?_text, Option.map_some]

end Layout

end Reckoner.Numeral

namespace Reckoner.Decimal

open Numeral

def value (d : Decimal) : ℚ := d.coefficient * 10 ^ d.exponent

/-- The number of a decimal with the point behind its first digit. -/
theorem value_eq_scientific (d : Decimal) : d.value =
    digitsValue d.digits / 10 ^ (d.digits.length - 1) * 10 ^ (d.point - 1) := by
  have hlength := d.length_digits_pos
  have hexp : d.exponent = d.point - 1 - (d.digits.length - 1 : Nat) := by
    unfold point
    omega
  rw [value, digitsValue_digits, hexp, zpow_sub₀ (by norm_num), zpow_natCast]
  ring

theorem mantissaText_eq {ds : List Char} (h : ds ≠ []) : mantissaText ds =
    if ds.drop 1 = [] then ds.take 1 else ds.take 1 ++ '.' :: ds.drop 1 := by
  cases ds with
  | nil => exact absurd rfl h
  | cons first rest => cases rest <;> rfl

variable {d : Decimal}

/-- The digits with zeros behind them. -/
def paddedLayout (h : d.Trimmed) (zeros : Nat) : Layout where
  whole := d.digits ++ List.replicate zeros '0'
  fraction := []
  exponent := none
  whole_ne_nil := List.append_ne_nil_of_left_ne_nil d.digits_ne_nil _
  isDigit_whole := isDigit_of_mem_padded d zeros
  isDigit_fraction := by simp
  leading := by
    rw [List.head?_append_of_ne_nil _ d.digits_ne_nil]
    exact fun hzero => absurd hzero h.first
  trailing := by simp

/-- The digits with the point behind some of them. -/
def splitLayout (h : d.Trimmed) {n : Nat} (hpos : 0 < n) (x : Option Int) : Layout where
  whole := d.digits.take n
  fraction := d.digits.drop n
  exponent := x
  whole_ne_nil := by
    have hdigits := d.length_digits_pos
    rw [← List.length_pos_iff, List.length_take]
    omega
  isDigit_whole := fun c hc => isDigit_of_mem_digits d c (List.mem_of_mem_take hc)
  isDigit_fraction := fun c hc => isDigit_of_mem_digits d c (List.mem_of_mem_drop hc)
  leading := by
    rw [List.head?_take, if_neg (by omega)]
    exact fun hzero => absurd hzero h.first
  trailing := by
    rw [List.getLast?_drop]
    split
    · simp
    · exact h.last

/-- The digits behind the point and some zeros. -/
def fractionLayout (h : d.Trimmed) (zeros : Nat) : Layout where
  whole := ['0']
  fraction := List.replicate zeros '0' ++ d.digits
  exponent := none
  whole_ne_nil := List.cons_ne_nil _ _
  isDigit_whole := by simp
  isDigit_fraction := isDigit_of_mem_fraction d zeros
  leading := fun _ => rfl
  trailing := by
    rw [List.getLast?_append_of_ne_nil _ d.digits_ne_nil]
    exact h.last

end Reckoner.Decimal

namespace Reckoner.Numeral.Layout

variable {l : Layout} {d : Decimal}

theorem mantissaText_of_ne_nil (h : l.fraction ≠ []) :
    l.mantissaText = l.whole ++ '.' :: l.fraction := if_neg h

theorem value_eq_of_digits {n : Nat}
    (hdigits : digitsValue (l.whole ++ l.fraction) = d.coefficient * 10 ^ n)
    (hexp : l.exponent.getD 0 - l.fraction.length + n = d.exponent) : l.value = d.value := by
  rw [value, Decimal.value, hdigits, ← hexp, zpow_add₀ (by norm_num), zpow_natCast]
  push_cast
  ring

/-- That a layout shows a decimal: it has the text and the number of the decimal, and an exponent
behind one digit before the point exactly if the text is not positional. -/
structure Shows (l : Layout) (d : Decimal) : Prop where
  text_eq : l.text = d.text
  value_eq : l.value = d.value
  positional : -6 < d.point ∧ d.point ≤ 21 → l.exponent = none
  exponential : ¬ (-6 < d.point ∧ d.point ≤ 21) →
    l.exponent = some (d.point - 1) ∧ l.whole ++ l.fraction = d.digits ∧ l.whole.length = 1

theorem Shows.exponent_eq_none_iff (h : l.Shows d) :
    l.exponent = none ↔ -6 < d.point ∧ d.point ≤ 21 := by
  refine ⟨fun hnone => ?_, h.positional⟩
  by_contra hout
  rw [(h.exponential hout).1] at hnone
  cases hnone

theorem shows_padded (h : d.Trimmed) (hin : -6 < d.point ∧ d.point ≤ 21)
    (hle : d.digits.length ≤ d.point) :
    (Decimal.paddedLayout h (d.point - d.digits.length).toNat).Shows d where
  text_eq := by
    rw [Decimal.text, if_pos hin, Decimal.positionalText, if_pos hle]
    exact List.append_nil _
  value_eq := by
    apply value_eq_of_digits (n := (d.point - d.digits.length).toNat)
    · rw [Decimal.paddedLayout, List.append_nil, digitsValue_append_zeros, digitsValue_digits]
    · simp only [Decimal.paddedLayout, Option.getD_none, List.length_nil]
      unfold Decimal.point at hle ⊢
      omega
  positional := fun _ => rfl
  exponential := fun hout => absurd hin hout

theorem shows_split (h : d.Trimmed) (hin : -6 < d.point ∧ d.point ≤ 21) (hpos : 0 < d.point)
    (hlt : d.point < d.digits.length) :
    (Decimal.splitLayout h (n := d.point.toNat) (by omega) none).Shows d where
  text_eq := by
    have hne : d.digits.drop d.point.toNat ≠ [] := by
      rw [← List.length_pos_iff, List.length_drop]
      omega
    rw [text, mantissaText_of_ne_nil hne, Decimal.text, if_pos hin, Decimal.positionalText,
      if_neg (by omega), if_pos hpos]
    exact List.append_nil _
  value_eq := by
    apply value_eq_of_digits (n := 0)
    · rw [Decimal.splitLayout, List.take_append_drop, digitsValue_digits, Nat.pow_zero, Nat.mul_one]
    · simp only [Decimal.splitLayout, Option.getD_none, List.length_drop]
      unfold Decimal.point at hlt hpos ⊢
      omega
  positional := fun _ => rfl
  exponential := fun hout => absurd hin hout

theorem shows_fraction (h : d.Trimmed) (hin : -6 < d.point ∧ d.point ≤ 21) (hle : d.point ≤ 0) :
    (Decimal.fractionLayout h (-d.point).toNat).Shows d where
  text_eq := by
    have hdigits := d.length_digits_pos
    have hne : List.replicate (-d.point).toNat '0' ++ d.digits ≠ [] :=
      List.append_ne_nil_of_right_ne_nil _ d.digits_ne_nil
    rw [text, mantissaText_of_ne_nil hne, Decimal.text, if_pos hin, Decimal.positionalText,
      if_neg (by omega), if_neg (by omega)]
    exact List.append_nil _
  value_eq := by
    apply value_eq_of_digits (n := 0)
    · rw [Decimal.fractionLayout, digitsValue_fraction, Nat.pow_zero, Nat.mul_one]
    · simp only [Decimal.fractionLayout, Option.getD_none, List.length_append,
        List.length_replicate]
      unfold Decimal.point at hle ⊢
      omega
  positional := fun _ => rfl
  exponential := fun hout => absurd hin hout

theorem shows_exponential (h : d.Trimmed) (hout : ¬ (-6 < d.point ∧ d.point ≤ 21)) :
    (Decimal.splitLayout h Nat.one_pos (some (d.point - 1))).Shows d where
  text_eq := by
    rw [Decimal.text, if_neg hout, Decimal.mantissaText_eq d.digits_ne_nil]
    rfl
  value_eq := by
    have hdigits := d.length_digits_pos
    apply value_eq_of_digits (n := 0)
    · rw [Decimal.splitLayout, List.take_append_drop, digitsValue_digits, Nat.pow_zero, Nat.mul_one]
    · simp only [Decimal.splitLayout, Option.getD_some, List.length_drop]
      unfold Decimal.point
      omega
  positional := fun hin => absurd hin hout
  exponential := fun _ => by
    have hdigits := d.length_digits_pos
    refine ⟨rfl, List.take_append_drop 1 d.digits, ?_⟩
    rw [Decimal.splitLayout, List.length_take]
    omega

/-- A decimal whose digits have no zero at either end is shown by a layout. -/
theorem exists_shows (h : d.Trimmed) : ∃ l : Layout, l.Shows d := by
  by_cases hin : -6 < d.point ∧ d.point ≤ 21
  · by_cases hwhole : d.digits.length ≤ d.point
    · exact ⟨_, shows_padded h hin hwhole⟩
    by_cases hpos : 0 < d.point
    · exact ⟨_, shows_split h hin hpos (by omega)⟩
    · exact ⟨_, shows_fraction h hin (by omega)⟩
  · exact ⟨_, shows_exponential h hin⟩

end Reckoner.Numeral.Layout
