import Reckoner.Proofs.SignedNumerals

/-!
Distinct numerals. A magnitude is written as a number piece that reads back as the magnitude, with
an exponent, or as the word for infinity. The letters tell these apart, and a text with an exponent
shows all digits and the place of the point, so that no two magnitudes have the same text. Two
floats then have the same text only if they are equal or both are no numbers.
-/

namespace Reckoner.Decimal

/-- Different magnitudes have different shortest decimals. -/
theorem shortest_inj {m m' : Nat} (hm : m < Binary64.infinity) (hm' : m' < Binary64.infinity)
    (h : shortest m = shortest m') : m = m' := by
  obtain ⟨a, b, hexp⟩ := exists_exponent_eq m
  have hexp' : (shortest m').exponent = (a : Int) - b := by
    rw [← h]
    exact hexp
  rw [← ofDecimal_shortest hm hexp, h]
  exact ofDecimal_shortest hm' hexp'

theorem filter_mantissaText {ds : List Char} (hds : ∀ d ∈ ds, d.isDigit = true) :
    (mantissaText ds).filter Char.isDigit = ds := by
  have hself : ds.filter Char.isDigit = ds := List.filter_eq_self.mpr hds
  unfold mantissaText
  split
  · exact hself
  · exact hself

/-- An exponent is written with its sign and the digits of its absolute value. -/
theorem exponentText_inj {x y : Int} (h : exponentText x = exponentText y) : x = y := by
  unfold exponentText at h
  obtain ⟨hsign, hdigits⟩ := List.cons.inj h
  have habs : x.natAbs = y.natAbs := by
    simpa using congrArg (Nat.ofDigitChars 10 · 0) hdigits
  by_cases hx : x < 0 <;> by_cases hy : y < 0
  · omega
  · rw [if_pos hx, if_neg hy] at hsign
    exact absurd hsign (by decide)
  · rw [if_neg hx, if_pos hy] at hsign
    exact absurd hsign (by decide)
  · omega

theorem text_cases (d : Decimal) :
    d.text = positionalText d.digits d.point ∨ d.text = Numeral.exponential d := by
  unfold text
  split
  · exact .inl rfl
  · exact .inr rfl

end Reckoner.Decimal

namespace Reckoner.Numeral

open Binary64 Piece

/-- Two texts of which each ends at the first character that fails a test. -/
theorem append_inj_of_test {test : Char → Bool} {cs cs' rest rest' : List Char}
    (hcs : ∀ d ∈ cs, test d = true) (hcs' : ∀ d ∈ cs', test d = true)
    (hrest : ∀ d, rest.head? = some d → test d = false)
    (hrest' : ∀ d, rest'.head? = some d → test d = false) (h : cs ++ rest = cs' ++ rest') :
    cs = cs' ∧ rest = rest' := by
  have hsame : cs = cs' := by
    rw [← takeWhile_append_eq hcs hrest, h, takeWhile_append_eq hcs' hrest']
  refine ⟨hsame, ?_⟩
  rw [hsame] at h
  exact List.append_cancel_left h

theorem mem_of_matches {text : List Char} (h : Matches .number text) :
    ∀ c ∈ text, c.isDigit = true ∨ c = '.' := by
  intro c hc
  cases h with
  | whole _ hds => exact .inl (hds c hc)
  | decimal _ hds _ hfs =>
    rcases List.mem_append.mp hc with hd | hf
    · exact .inl (hds c hd)
    rcases List.mem_cons.mp hf with rfl | hf
    · exact .inr rfl
    · exact .inl (hfs c hf)

theorem not_mem_of_matches {text : List Char} (h : Matches .number text) {c : Char}
    (hc : c.isDigit = false) (hpoint : c ≠ '.') : c ∉ text := by
  intro hmem
  rcases mem_of_matches h c hmem with hdigit | rfl
  · rw [hc] at hdigit
    cases hdigit
  · exact hpoint rfl

/-- The mark of an exponent stands behind the digits. -/
theorem ne_mark_of_matches {text : List Char} (h : Matches .number text) :
    ∀ c ∈ text, (c != 'e') = true := by
  intro c hc
  apply bne_iff_ne.mpr
  rintro rfl
  exact not_mem_of_matches h (by decide) (by decide) hc

theorem matches_mantissa (d : Decimal) : Matches .number (Decimal.mantissaText d.digits) :=
  matches_mantissaText Nat.toDigits_ne_nil (isDigit_of_mem_digits d)

/-- The text with an exponent shows the whole decimal. -/
theorem exponential_inj {d d' : Decimal} (h : exponential d = exponential d') : d = d' := by
  have hbefore (d : Decimal) : ∀ c ∈ Decimal.mantissaText d.digits, (c != 'e') = true :=
    ne_mark_of_matches (matches_mantissa d)
  have hmark (cs : List Char) : ∀ c, ('e' :: cs).head? = some c → (c != 'e') = false := by
    intro c hc
    cases hc
    rfl
  obtain ⟨hmantissa, hexponent⟩ :=
    append_inj_of_test (hbefore d) (hbefore d') (hmark _) (hmark _) h
  have hdigits : d.digits = d'.digits := by
    rw [← Decimal.filter_mantissaText (isDigit_of_mem_digits d), hmantissa,
      Decimal.filter_mantissaText (isDigit_of_mem_digits d')]
  have hpoint : d.point - 1 = d'.point - 1 :=
    Decimal.exponentText_inj (List.cons.inj hexponent).2
  have hcoefficient : d.coefficient = d'.coefficient := by
    rw [← digitsValue_digits, hdigits, digitsValue_digits]
  have hplace : d.exponent = d'.exponent := by
    unfold Decimal.point at hpoint
    rw [hdigits] at hpoint
    omega
  obtain ⟨coefficient, exponent⟩ := d
  exact congrArg₂ Decimal.mk hcoefficient hplace

/-- The text of a magnitude without its sign. -/
inductive Written (m : Nat) (text : List Char) : Prop
  | positional (hm : m ≤ infinity) (hmatch : Matches .number text)
      (hread : read? text = some (Float.ofBits m.toUInt64))
  | exponential (hfin : m < infinity) (htext : text = exponential (Decimal.shortest m))
  | infinite (hm : m = infinity) (htext : text = "Infinity".toList)

theorem written_writeMagnitude {m : Nat} (hm : m ≤ infinity) : Written m (writeMagnitude m) := by
  unfold writeMagnitude
  by_cases hinf : m = infinity
  · rw [if_pos hinf]
    exact .infinite hinf rfl
  by_cases hzero : m = 0
  · subst hzero
    rw [if_neg hinf, if_pos rfl]
    have hread : read? ['0'] = some (Float.ofBits (0 : Nat).toUInt64) := by decide +kernel
    refine .positional hm (.whole (List.cons_ne_nil _ _) ?_) hread
    intro c hc
    rw [List.mem_singleton.mp hc]
    rfl
  rw [if_neg hinf, if_neg hzero]
  have hfin : m < infinity := by omega
  rcases Decimal.text_cases (Decimal.shortest m) with htext | htext
  · obtain ⟨a, b, hexp, hmatch, hread⟩ := denotes_positionalText (Decimal.shortest m)
    rw [Decimal.ofDecimal_shortest hfin hexp] at hread
    rw [htext]
    exact .positional hm hmatch hread
  · exact .exponential hfin htext

theorem e_mem_exponential (d : Decimal) : 'e' ∈ exponential d :=
  List.mem_append_right _ List.mem_cons_self

theorem e_not_mem_infinity : 'e' ∉ "Infinity".toList := by
  simp

/-- A text is that of one magnitude. -/
theorem Written.unique {m m' : Nat} {text : List Char} (h : Written m text)
    (h' : Written m' text) : m = m' := by
  have hmark {ds : List Char} (hmatch : Matches .number ds) : 'e' ∉ ds :=
    not_mem_of_matches hmatch (by decide) (by decide)
  have hword {ds : List Char} (hmatch : Matches .number ds) : ds ≠ "Infinity".toList := by
    intro hinf
    have hnone : 'I' ∉ ds := not_mem_of_matches hmatch (by decide) (by decide)
    rw [hinf] at hnone
    exact hnone (by simp)
  cases h with
  | positional hm hmatch hread =>
    cases h' with
    | positional hm' _ hread' =>
      have hsame := Option.some.inj (hread.symm.trans hread')
      rw [← toNat_toBits_ofBits hm, hsame, toNat_toBits_ofBits hm']
    | exponential _ htext' => exact absurd (htext' ▸ e_mem_exponential _) (hmark hmatch)
    | infinite _ htext' => exact absurd htext' (hword hmatch)
  | exponential hfin htext =>
    cases h' with
    | positional _ hmatch' _ => exact absurd (htext ▸ e_mem_exponential _) (hmark hmatch')
    | exponential hfin' htext' =>
      exact Decimal.shortest_inj hfin hfin' (exponential_inj (htext.symm.trans htext'))
    | infinite _ htext' =>
      exact absurd (htext ▸ e_mem_exponential _) (htext' ▸ e_not_mem_infinity)
  | infinite hinf htext =>
    cases h' with
    | positional _ hmatch' _ => exact absurd htext (hword hmatch')
    | exponential _ htext' =>
      exact absurd (htext' ▸ e_mem_exponential _) (htext ▸ e_not_mem_infinity)
    | infinite hinf' _ => rw [hinf, hinf']

theorem writeMagnitude_inj {m m' : Nat} (hm : m ≤ infinity) (hm' : m' ≤ infinity)
    (h : writeMagnitude m = writeMagnitude m') : m = m' := by
  have hwritten := written_writeMagnitude hm'
  rw [← h] at hwritten
  exact (written_writeMagnitude hm).unique hwritten

/-- Floats without a sign that have the same text are the same bit for bit. -/
theorem write_inj {x y : Float} (hx : x.toBits.toNat ≤ infinity) (hy : y.toBits.toNat ≤ infinity)
    (h : write x = write y) : x = y := by
  rw [write_of_le_infinity hx, write_of_le_infinity hy] at h
  have htext := String.ofList_inj.mp h
  exact Float.toBits_inj.mp (UInt64.toNat_inj.mp (writeMagnitude_inj hx hy htext))

theorem exists_head_of_matches {text : List Char} (h : Piece.Matches .number text) :
    ∃ c rest, text = c :: rest ∧ c.isDigit = true := by
  cases h with
  | whole hne hds =>
    obtain ⟨c, rest, rfl⟩ := List.exists_cons_of_ne_nil hne
    exact ⟨c, rest, rfl, hds c List.mem_cons_self⟩
  | decimal hne hds _ _ =>
    obtain ⟨c, rest, rfl⟩ := List.exists_cons_of_ne_nil hne
    exact ⟨c, _, rfl, hds c List.mem_cons_self⟩

/-- The text of a magnitude starts with a digit, unless it is the word for infinity. -/
theorem exists_head_writeMagnitude {m : Nat} (hm : m ≤ infinity) :
    ∃ c rest, writeMagnitude m = c :: rest ∧ (c.isDigit = true ∨ c = 'I') := by
  cases written_writeMagnitude hm with
  | positional _ hmatch _ =>
    obtain ⟨c, rest, htext, hc⟩ := exists_head_of_matches hmatch
    exact ⟨c, rest, htext, .inl hc⟩
  | exponential _ htext =>
    obtain ⟨c, rest, hmantissa, hc⟩ :=
      exists_head_of_matches (matches_mantissa (Decimal.shortest m))
    rw [htext, exponential, hmantissa]
    exact ⟨c, _, rfl, .inl hc⟩
  | infinite _ htext => exact ⟨'I', _, htext, .inr rfl⟩

theorem exists_head_write {x : Float} (h : x.abs.toBits.toNat ≤ infinity) :
    ∃ c rest, (write x.abs).toList = c :: rest ∧ (c.isDigit = true ∨ c = 'I') := by
  rw [write_of_le_infinity h, String.toList_ofList]
  exact exists_head_writeMagnitude h

/-- No minus sign stands before the text of an absolute value that is a number. -/
theorem write_abs_ne_minus {x : Float} {s : String} (h : x.abs.toBits.toNat ≤ infinity) :
    write x.abs ≠ "-" ++ s := by
  intro heq
  obtain ⟨c, rest, htext, hc⟩ := exists_head_write h
  rw [heq, String.toList_append] at htext
  obtain ⟨hhead, -⟩ := List.cons.inj htext
  rw [← hhead] at hc
  exact absurd hc (by decide)

theorem write_ne_nan {x : Float} (h : x.abs.toBits.toNat ≤ infinity) : write x ≠ "NaN" := by
  intro heq
  rcases write_cases x with ⟨hsame, -⟩ | ⟨hminus, -⟩
  · obtain ⟨c, rest, htext, hc⟩ := exists_head_write h
    rw [← hsame, heq] at htext
    obtain ⟨hhead, -⟩ := List.cons.inj htext
    rw [← hhead] at hc
    exact absurd hc (by decide)
  · rw [heq, ← String.toList_inj, String.toList_append] at hminus
    obtain ⟨hhead, -⟩ := List.cons.inj hminus
    exact absurd hhead (by decide)

theorem write_of_beq_zero {x : Float} (h : x == 0) : write x = "0" := by
  obtain ⟨-, -, rfl | ⟨rfl, -⟩ | ⟨rfl, -⟩⟩ := Float.beq_iff_ne_nan_and_eq.mp h <;> decide +kernel

theorem eq_or_zero_of_beq {x y : Float} (h : x == y) : x = y ∨ (x == 0) ∧ (y == 0) := by
  obtain ⟨-, -, rfl | ⟨rfl, rfl⟩ | ⟨rfl, rfl⟩⟩ := Float.beq_iff_ne_nan_and_eq.mp h
  · exact .inl rfl
  · exact .inr (by decide +kernel)
  · exact .inr (by decide +kernel)

theorem beq_self {x : Float} (h : x.abs.toBits.toNat ≤ infinity) : x == x := by
  have hne : x ≠ Float.nan := by
    rintro rfl
    exact absurd h (by decide +kernel)
  exact Float.beq_iff_ne_nan_and_eq.mpr ⟨hne, hne, .inl rfl⟩

theorem beq_of_zeros {x y : Float} (hx : x == 0) (hy : y == 0) : x == y := by
  obtain ⟨-, -, rfl | ⟨rfl, -⟩ | ⟨rfl, -⟩⟩ := Float.beq_iff_ne_nan_and_eq.mp hx <;>
    obtain ⟨-, -, rfl | ⟨rfl, -⟩ | ⟨rfl, -⟩⟩ := Float.beq_iff_ne_nan_and_eq.mp hy <;>
    decide +kernel

/-- Numbers with the same text are equal. -/
theorem beq_of_write_eq {x y : Float} (hx : x.abs.toBits.toNat ≤ infinity)
    (hy : y.abs.toBits.toNat ≤ infinity) (h : write x = write y) : x == y := by
  have hmagnitude (habs : write x.abs = write y.abs) : x.abs = y.abs := write_inj hx hy habs
  rcases write_cases x with ⟨hsame, hself⟩ | ⟨hminus, hneg⟩ <;>
    rcases write_cases y with ⟨hsame', hself'⟩ | ⟨hminus', hneg'⟩
  · have habs := hmagnitude (by rw [← hsame, h, hsame'])
    have hzero : x == 0 ↔ y == 0 := by rw [beq_zero_iff, beq_zero_iff, habs]
    by_cases hx' : x == 0
    · exact beq_of_zeros hx' (hzero.mp hx')
    · have hxy : x = y := by
        rw [← hself.resolve_right hx', habs, hself'.resolve_right (hx' ∘ hzero.mpr)]
      rw [← hxy]
      exact beq_self hx
  · exact absurd (hsame.symm.trans (h.trans hminus')) (write_abs_ne_minus hx)
  · exact absurd (hsame'.symm.trans (h.symm.trans hminus)) (write_abs_ne_minus hy)
  · have habs := hmagnitude (by
      rw [hminus, hminus', ← String.toList_inj, String.toList_append, String.toList_append] at h
      exact String.toList_inj.mp (List.append_cancel_left h))
    have hxy : x = y := by rw [← hneg, habs, hneg']
    rw [← hxy]
    exact beq_self hx

/-- No float that equals any float is NaN. -/
theorem isNaN_eq_false_of_beq {x y : Float} (h : x == y) : x.isNaN = false := by
  obtain ⟨hne, -⟩ := (Float.Model.UnpackedFloat.beq_iff_ne_notANumber_and_eq _ _).mp h
  exact Bool.eq_false_iff.mpr fun hnan => hne (Float.Model.UnpackedFloat.isNaN_iff.mp hnan)

/-- Two floats have the same text if they are equal or both are no numbers. -/
theorem write_eq_write_iff {x y : Float} :
    write x = write y ↔ (x == y) ∨ x.isNaN = true ∧ y.isNaN = true := by
  have hkind (z : Float) : z.abs.toBits.toNat ≤ infinity ↔ ¬ z.isNaN = true := by
    rw [(kind_iff z).2, Nat.not_lt]
  constructor
  · intro h
    by_cases hx : x.isNaN = true <;> by_cases hy : y.isNaN = true
    · exact .inr ⟨hx, hy⟩
    · exact absurd (h.symm.trans (write_of_isNaN hx)) (write_ne_nan ((hkind y).mpr hy))
    · exact absurd (h.trans (write_of_isNaN hy)) (write_ne_nan ((hkind x).mpr hx))
    · exact .inl (beq_of_write_eq ((hkind x).mpr hx) ((hkind y).mpr hy) h)
  · rintro (h | ⟨hx, hy⟩)
    · rcases eq_or_zero_of_beq h with rfl | ⟨hx, hy⟩
      · rfl
      · rw [write_of_beq_zero hx, write_of_beq_zero hy]
    · rw [write_of_isNaN hx, write_of_isNaN hy]

end Reckoner.Numeral
