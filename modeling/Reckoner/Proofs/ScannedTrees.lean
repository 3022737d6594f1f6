import Reckoner.Proofs.DistinctNumerals
import Reckoner.Proofs.ParsedOperators
import Reckoner.Proofs.Rendering

/-!
The trees of texts. The scanner spells every symbol in one way and reads no numeral as a negative
number or as NaN. The parser passes operators and literals on as they are, so that both hold
throughout a tree that was read from a text.
-/

namespace Reckoner

open Binary64 Grammar

/-- What the scanner makes sure of: a symbol is spelled as it is written and stands for nothing, and
a number is the float of a magnitude. -/
structure Token.Scanned (t : Token) : Prop where
  spelled : ∀ o, t.kind = .symbol o → t.lexeme = o.text ∧ t.literal = none
  number_le : ∀ x, t.literal = some (.number x) → x.toBits.toNat ≤ infinity

/-- The literals that a text can hold. -/
def Value.Scanned : Value → Prop
  | number x => x.toBits.toNat ≤ infinity
  | _ => True

/-- The trees whose literals a text can hold and whose operators are spelled as they are scanned. -/
def Expr.Scanned : Expr → Prop
  | literal v => v.Scanned
  | group e => e.Scanned
  | unary op e => op.Spells prefixes ∧ e.Scanned
  | binary l op r => l.Scanned ∧ op.Spells binaryOperators ∧ r.Scanned

namespace Numeral

theorem toNat_toBits_ofDigits (whole fraction : List Char) :
    (ofDigits whole fraction).toBits.toNat =
      ofDecimal (digitsValue (whole ++ fraction)) fraction.length :=
  toNat_toBits_ofBits (nearest_le_infinity _ _)

/-- A numeral has no sign and is not NaN. -/
theorem read?_le_infinity {text : List Char} {x : Float} (h : Piece.Matches .number text)
    (hx : read? text = some x) : x.toBits.toNat ≤ infinity := by
  have hle (whole fraction : List Char) : (ofDigits whole fraction).toBits.toNat ≤ infinity := by
    rw [toNat_toBits_ofDigits]
    exact nearest_le_infinity _ _
  cases h with
  | whole hne hds =>
    cases (Piece.read?_whole hne hds).symm.trans hx
    exact hle text []
  | @decimal ds fs hne hds hne' hfs =>
    cases (Piece.read?_decimal hne hds hne' hfs).symm.trans hx
    exact hle ds fs

end Numeral

namespace Piece

theorem TokenOf.scanned {p : Piece} {t : Token} (h : TokenOf p t) (hsound : Sound p) :
    t.Scanned := by
  obtain ⟨kind, text⟩ := p
  obtain ⟨hlexeme, h⟩ := h
  change t.lexeme.toList = text at hlexeme
  rcases hsound with hmatch | hunclosed | ⟨c, hstray⟩
  · change Matches kind text at hmatch
    cases kind with
    | symbol o =>
      obtain ⟨hkind, hliteral⟩ := h
      refine ⟨?_, by simp [hliteral]⟩
      intro o' ho'
      cases hkind.symm.trans ho'
      cases hmatch
      exact ⟨String.toList_inj.mp hlexeme, hliteral⟩
    | number =>
      obtain ⟨hkind, x, hread, hliteral⟩ := h
      refine ⟨by simp [hkind], ?_⟩
      intro y hy
      cases hliteral.symm.trans hy
      exact Numeral.read?_le_infinity hmatch hread
    | string =>
      obtain ⟨hkind, cs, -, hliteral⟩ := h
      exact ⟨by simp [hkind], by simp [hliteral]⟩
    | word =>
      obtain ⟨hliteral, hkind, -⟩ := h
      refine ⟨?_, by simp [hliteral]⟩
      intro o ho
      rcases hkind with hkind | ⟨w, hkind⟩
      · cases hkind.symm.trans ho
      · cases hkind.symm.trans ho
    | _ => exact h.elim
  · change kind = .unclosed at hunclosed
    subst hunclosed
    exact h.elim
  · cases hstray
    exact h.elim

end Piece

theorem Scan.scanned_of_mem {source : String} {t : Token}
    (h : t ∈ (Scan.ofText source).tokens) : t.Scanned := by
  rcases Piece.exists_tokenOf_of_mem h with ⟨p, hsound, ht⟩ | ⟨line, rfl⟩
  · exact ht.scanned hsound
  · exact ⟨by simp [Token.endOfInput], by simp [Token.endOfInput]⟩

theorem Token.Scanned.spells {t : Token} (h : t.Scanned) {o : Symbol} {os : List Symbol}
    (ho : o ∈ os) (hkind : t.kind = .symbol o) : t.Spells os := by
  obtain ⟨hlexeme, hliteral⟩ := h.spelled o hkind
  exact ⟨o, ho, hkind, hlexeme, hliteral⟩

theorem Token.Scanned.value {t : Token} (h : t.Scanned) {l : Literal}
    (hl : t.literal = some l) : l.value.Scanned := by
  cases l with
  | number x => exact h.number_le x hl
  | string s => trivial

namespace Grammar

/-- Whether the operands that a phrase has joined already form a scanned tree. -/
def Phrase.Scanned : Phrase → Prop
  | rule _ => True
  | more _ joined => joined.Scanned

theorem Derives.scanned {p : Phrase} {ts : List Token} {e : Expr} (h : Derives p ts e)
    (hts : ∀ t ∈ ts, t.Scanned) (hp : p.Scanned) : e.Scanned := by
  induction h with
  | chain _ _ _ ihfirst ihmore =>
    obtain ⟨hfirst, hmore⟩ := List.forall_mem_append.mp hts
    exact ihmore hmore (ihfirst hfirst trivial)
  | done => exact hp
  | more hop ho _ _ _ ihright ihmore =>
    obtain ⟨hhead, hrest⟩ := List.forall_mem_cons.mp hts
    obtain ⟨hright, hmore⟩ := List.forall_mem_append.mp hrest
    exact ihmore hmore
      ⟨hp, hhead.spells (Rule.mem_binaryOperators ho) hop, ihright hright trivial⟩
  | unary hop ho _ ih =>
    obtain ⟨hhead, hoperand⟩ := List.forall_mem_cons.mp hts
    exact ⟨hhead.spells ho hop, ih hoperand trivial⟩
  | group _ _ _ ih =>
    obtain ⟨-, hrest⟩ := List.forall_mem_cons.mp hts
    exact ih (List.forall_mem_append.mp hrest).1 trivial
  | number _ hl => exact (hts _ List.mem_cons_self).value hl
  | string _ hl => exact (hts _ List.mem_cons_self).value hl
  | trueWord _ => trivial
  | falseWord _ => trivial
  | nilWord _ => trivial

end Grammar

/-- A tree that was read from a text spells its operators as they are scanned, and its numbers are
the floats of magnitudes. -/
theorem Expr.scanned_of_text {source : String} {e : Expr}
    (h : Expr.ofTokens (Scan.ofText source).tokens = .ok e) : e.Scanned := by
  obtain ⟨last, hlast, hend, hrun⟩ := parse_eq_ok_iff.mp h
  have hderives := (run_start_iff hlast hend e).mp hrun
  apply hderives.scanned ?_ trivial
  intro t ht
  exact Scan.scanned_of_mem ((List.takeWhile_prefix _).subset ht)

end Reckoner
