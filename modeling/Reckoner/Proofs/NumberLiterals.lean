import Reckoner.Proofs.ExactNumerals
import Reckoner.Proofs.NearestFloats
import Reckoner.Proofs.Reprinting

/-!
The literals of number tokens. The scanner takes digits, or digits, a point and digits, and reads
just these, so reading never fails. The literal is the float nearest to the number that the lexeme
stands for exactly. It has no sign, and larger numbers never have smaller literals.
-/

namespace Reckoner.Numeral

open Binary64

/-- The text of a number piece stands for a decimal, and it is read as the float that the decimal
rounds to. -/
theorem exists_decimal_of_matches {text : List Char} (h : Piece.Matches .number text) :
    ∃ c p : Nat, rational? text = some (c / 10 ^ p : ℚ) ∧
      read? text = some (Float.ofBits (ofDecimal c p).toUInt64) := by
  cases h with
  | @whole ds hne hds =>
    refine ⟨digitsValue text, 0, ?_, ?_⟩
    · rw [rational?_whole hne hds, pow_zero, div_one]
    · rw [Piece.read?_whole hne hds, ofDigits, List.append_nil]
      rfl
  | @decimal ds fs hne hds hne' hfs =>
    refine ⟨digitsValue (ds ++ fs), fs.length, rational?_decimal hne hds hne' hfs, ?_⟩
    rw [Piece.read?_decimal hne hds hne' hfs, ofDigits]

/-- That a text has a number token whose lexeme is the number `q` exactly and whose literal is the
float `x`. -/
structure IsLiteral (source : String) (t : Token) (q : ℚ) (x : Float) : Prop where
  mem : t ∈ (Scan.ofText source).tokens
  kind : t.kind = .number
  exact : rational? t.lexeme.toList = some q
  literal : t.literal = some (.number x)

/-- A number token of a text has a numeral for its lexeme, and its literal is what is read there. -/
theorem read?_lexeme {source : String} {t : Token} (ht : t ∈ (Scan.ofText source).tokens)
    (hkind : t.kind = .number) : Piece.Matches .number t.lexeme.toList ∧
      ∃ x, read? t.lexeme.toList = some x ∧ t.literal = some (.number x) := by
  rcases Piece.exists_tokenOf_of_mem ht with ⟨⟨kind, text⟩, hsound, hlexeme, hgives⟩ | ⟨line, rfl⟩
  · rw [hlexeme]
    cases kind with
    | number =>
      refine ⟨?_, hgives.2⟩
      rcases hsound with hmatch | hunclosed | ⟨c, hstray⟩
      · exact hmatch
      · cases hunclosed
      · cases hstray
    | symbol o => cases hkind.symm.trans hgives.1
    | string => cases hkind.symm.trans hgives.1
    | word =>
      rcases hgives.2.1 with hword | ⟨w, hword⟩
      · cases hkind.symm.trans hword
      · cases hkind.symm.trans hword
    | _ => exact hgives.elim
  · cases hkind

theorem exists_isLiteral {source : String} {t : Token} (ht : t ∈ (Scan.ofText source).tokens)
    (hkind : t.kind = .number) : ∃ q x, IsLiteral source t q x := by
  obtain ⟨hmatch, x, -, hliteral⟩ := read?_lexeme ht hkind
  obtain ⟨c, p, hexact, -⟩ := exists_decimal_of_matches hmatch
  exact ⟨_, x, ht, hkind, hexact, hliteral⟩

/-- A line that is one numeral has its number token. -/
theorem isLiteral_line {text : List Char} {q : ℚ} {x : Float} (h : Piece.Matches .number text)
    (hexact : rational? text = some q) (hread : read? text = some x) :
    IsLiteral (String.ofList text ++ "\n")
      ⟨.number, String.ofList text, some (.number x), 1⟩ q x := by
  have hscans := Reprinting.scansAs_number h hread
  rw [← @String.toList_ofList text] at hscans
  have htokens := congrArg Scan.tokens hscans.ofText
  rw [String.toList_ofList] at htokens
  rw [← @String.toList_ofList text] at hexact
  refine ⟨?_, rfl, hexact, rfl⟩
  rw [htokens]
  exact List.mem_cons_self

/-- The literal is what the number of the lexeme, a decimal, rounds to. -/
theorem IsLiteral.exists_decimal {source : String} {t : Token} {q : ℚ} {x : Float}
    (h : IsLiteral source t q x) :
    ∃ c p : Nat, q = c / 10 ^ p ∧ x = Float.ofBits (ofDecimal c p).toUInt64 := by
  obtain ⟨hmatch, y, hread, hliteral⟩ := read?_lexeme h.mem h.kind
  obtain ⟨c, p, hexact, hrounded⟩ := exists_decimal_of_matches hmatch
  cases h.literal.symm.trans hliteral
  exact ⟨c, p, Option.some.inj (h.exact.symm.trans hexact),
    Option.some.inj (hread.symm.trans hrounded)⟩

theorem toNat_toBits_rounded (c p : Nat) :
    (Float.ofBits (ofDecimal c p).toUInt64).toBits.toNat = ofDecimal c p :=
  toNat_toBits_ofBits (nearest_le_infinity _ _)

/-- A decimal of no greater number has no greater magnitude. -/
theorem ofDecimal_le_of_div_le {c p c' p' : Nat} (h : (c / 10 ^ p : ℚ) ≤ c' / 10 ^ p') :
    ofDecimal c p ≤ ofDecimal c' p' := by
  rw [div_le_div_iff₀ (by positivity) (by positivity)] at h
  exact ofDecimal_mono (by exact_mod_cast h)

theorem fault_ne_invalidNumber {source : String} {e : LexicalError}
    (he : e ∈ (Scan.ofText source).errors) : e.fault ≠ .invalidNumber := by
  obtain ⟨p, -, hp⟩ := Piece.exists_errorOf_of_mem he
  unfold Piece.ErrorOf at hp
  split at hp
  · simp [hp]
  · obtain ⟨c, -, hfault⟩ := hp
    simp [hfault]
  · exact hp.elim

theorem message_ne_invalidNumber {fault : LexicalFault} (h : fault ≠ .invalidNumber) :
    fault.message ≠ LexicalFault.invalidNumber.message := by
  cases fault with
  | invalidNumber => exact absurd rfl h
  | unexpectedCharacter c => simp [LexicalFault.message]
  | unterminatedString => simp [LexicalFault.message]

/-- No text has an invalid number. Each number token has for its literal the float nearest to the
exact number of its lexeme, which is neither NaN nor negative nor the negative zero. Lexemes of one
number have the same literal bit for bit, and a lexeme of no greater number has no greater one. -/
theorem number_literals_are_nearest :
    (∀ source, (∀ e ∈ (Scan.ofText source).errors, e.fault ≠ .invalidNumber) ∧
      ∀ d ∈ Scan.diagnostics source, ∀ line place,
        d ≠ .static line place LexicalFault.invalidNumber.message) ∧
    (∀ source, ∀ t ∈ (Scan.ofText source).tokens, t.kind = .number →
      ∃ q x, IsLiteral source t q x ∧ RoundsTo q x ∧ x.isNaN = false ∧ 0 ≤ x ∧ x ≠ -0) ∧
    ∀ source source' t t' q q' x x', IsLiteral source t q x → IsLiteral source' t' q' x' →
      (q = q' → x.toBits = x'.toBits) ∧ (q ≤ q' → x ≤ x') := by
  refine ⟨fun source => ⟨fun e he => fault_ne_invalidNumber he, ?_⟩,
    fun source t ht hkind => ?_, ?_⟩
  · intro d hd line place heq
    obtain ⟨e, he, rfl⟩ := List.mem_map.mp hd
    obtain ⟨-, -, hmessage⟩ := Diagnostic.static.inj heq
    exact message_ne_invalidNumber (fault_ne_invalidNumber he) hmessage
  · obtain ⟨q, x, hliteral⟩ := exists_isLiteral ht hkind
    obtain ⟨c, p, hq, hx⟩ := hliteral.exists_decimal
    have hbits := toNat_toBits_rounded c p
    have hle := nearest_le_infinity (c * 2 ^ 1074) (10 ^ p)
    have hx' : x.toBits.toNat ≤ infinity := by rw [hx, hbits]; exact hle
    refine ⟨q, x, hliteral, ?_, isNaN_of_le_infinity hx', zero_le_of_le_infinity hx',
      ne_negative_zero_of_le_infinity hx'⟩
    rw [hq, hx]
    exact roundsTo_ofDecimal c p
  · intro source source' t t' q q' x x' h h'
    obtain ⟨c, p, rfl, rfl⟩ := h.exists_decimal
    obtain ⟨c', p', rfl, rfl⟩ := h'.exists_decimal
    refine ⟨fun heq => ?_, fun hle => ?_⟩
    · have hsame := Nat.le_antisymm (ofDecimal_le_of_div_le heq.le) (ofDecimal_le_of_div_le heq.ge)
      rw [hsame]
    · apply le_of_toNat_le
      · rw [toNat_toBits_rounded, toNat_toBits_rounded]
        exact ofDecimal_le_of_div_le hle
      · rw [toNat_toBits_rounded]
        exact nearest_le_infinity _ _

/-- A tie goes to the float that ends with a zero bit: 2^53 + 1 lies halfway between two floats. -/
example : read? "9007199254740993".toList = some 9007199254740992 := by decide +kernel

/-- A tenth is no float. Written with more zeros it has the same nearest one. -/
theorem number_literals_are_nearest_tenth :
    let x : Float := 0.1
    let t (lexeme : String) : Token := ⟨.number, lexeme, some (.number x), 1⟩
    t "0.1" ∈ (Scan.ofText "0.1\n").tokens ∧ (t "0.1").kind = .number ∧ RoundsTo (1 / 10) x ∧
      IsLiteral "0.1\n" (t "0.1") (1 / 10) x ∧ IsLiteral "00.10\n" (t "00.10") (1 / 10) x ∧
      x.toBits = x.toBits ∧ x ≤ x := by
  intro x t
  have hliteral : IsLiteral "0.1\n" (t "0.1") (1 / 10) x := by
    have hwhole : ∀ d ∈ ['0'], d.isDigit = true := by simp
    have hfraction : ∀ d ∈ ['1'], d.isDigit = true := by simp
    have hmatch : Piece.Matches .number ['0', '.', '1'] :=
      .decimal (by simp) hwhole (by simp) hfraction
    have hvalue : digitsValue ['0', '1'] = 1 := by decide
    have hexact : rational? ['0', '.', '1'] = some (1 / 10) := by
      have h := rational?_decimal (by simp) hwhole (by simp) hfraction
      simpa [hvalue] using h
    exact isLiteral_line hmatch hexact (by decide +kernel)
  have hliteral' : IsLiteral "00.10\n" (t "00.10") (1 / 10) x := by
    have hwhole : ∀ d ∈ ['0', '0'], d.isDigit = true := by simp
    have hfraction : ∀ d ∈ ['1', '0'], d.isDigit = true := by simp
    have hmatch : Piece.Matches .number ['0', '0', '.', '1', '0'] :=
      .decimal (by simp) hwhole (by simp) hfraction
    have hvalue : digitsValue ['0', '0', '1', '0'] = 10 := by decide
    have hexact : rational? ['0', '0', '.', '1', '0'] = some (1 / 10) := by
      have h := rational?_decimal (by simp) hwhole (by simp) hfraction
      norm_num [hvalue] at h
      exact h
    exact isLiteral_line hmatch hexact (by decide +kernel)
  obtain ⟨-, hnearest, hpairs⟩ := number_literals_are_nearest
  obtain ⟨q, y, hy, hrounds, -⟩ := hnearest "0.1\n" _ hliteral.mem rfl
  cases hy.literal.symm.trans hliteral.literal
  cases hy.exact.symm.trans hliteral.exact
  obtain ⟨hsame, hle⟩ := hpairs _ _ _ _ _ _ _ _ hliteral hliteral'
  exact ⟨hliteral.mem, rfl, hrounds, hliteral, hliteral', hsame rfl, hle (le_refl _)⟩

end Reckoner.Numeral
