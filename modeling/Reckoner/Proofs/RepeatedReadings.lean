import Reckoner.Proofs.Effects
import Reckoner.Proofs.ReaderSteps

/-!
Readings with one reader, each from where the one before stopped. A fault behind an operand moves
the reader on, a tree takes it to an end of input, and a token that no expression starts with holds
it for ever. So the readings settle, and there are fewer before they do than tokens.
-/

namespace Reckoner

namespace Token

theorem StartsNothing.of_isEnd {t : Token} (h : t.isEnd = true) : t.StartsNothing := by
  have hkind := isEnd_iff.mp h
  refine ⟨?_, ?_, ?_⟩
  · simp [isUnary, hkind]
  · simp [opensGroup, hkind]
  · simp [operand?, hkind]

end Token

namespace TokenReader

/-- The reader after some readings. -/
def reread (r : TokenReader) : Nat → TokenReader
  | 0 => r
  | n + 1 => r.parse.2.reread n

/-- What the reading with the given number comes to. -/
def reading (r : TokenReader) (n : Nat) : Except SyntaxError Expr := (r.reread n).parse.1

variable {r : TokenReader}

/-- How readings settle at the token `t` with index `p`: faults behind operands first, then at most
one tree, and then the same error again and again. -/
structure Settles (r : TokenReader) (faults settled p : Nat) (t : Token) : Prop where
  atMostOneTree : settled = faults ∨ settled = faults + 1
  moves : r.current + settled ≤ p
  token : r.tokens[p]? = some t
  faulty : ∀ k < faults, ∃ fault u, (fault = .expectedRightParen ∨ fault = .expectedEnd) ∧
    r.reading k = .error (.about fault u) ∧
    r.tokens[(r.reread (k + 1)).current]? = some u ∧
    (r.reread k).current < (r.reread (k + 1)).current
  tree : settled = faults + 1 → (∃ e, r.reading faults = .ok e) ∧ t.isEnd = true
  constant : ∀ k, settled ≤ k → r.reading k = .error (.about .expectedExpression t) ∧
    (r.reread (k + 1)).current = p

theorem reread_of_stuck (h : r.parse.2 = r) (n : Nat) : r.reread n = r := by
  induction n with
  | zero => rfl
  | succ n ih => rw [reread, h, ih]

/-- A token that no expression starts with holds the reader for ever. -/
theorem settles_of_lack {j : Nat} {t : Token} (hclosed : r.tokens.getLast?.any Token.isEnd = true)
    (hle : r.current ≤ j) (ht : r.tokens[j]? = some t) (hnothing : t.StartsNothing)
    (hparse : r.parse = (.error (.about .expectedExpression t), ⟨r.tokens, j⟩)) :
    r.Settles 0 0 j t where
  atMostOneTree := .inl rfl
  moves := hle
  token := ht
  faulty := by simp
  tree := by simp
  constant := by
    intro k _
    have hstuck : TokenReader.parse ⟨r.tokens, j⟩ =
        (.error (.about .expectedExpression t), ⟨r.tokens, j⟩) :=
      parse_of_startsNothing hclosed ht hnothing
    have hstays (n : Nat) : r.reread (n + 1) = ⟨r.tokens, j⟩ := by
      rw [reread, hparse]
      exact reread_of_stuck (by rw [hstuck]) n
    refine ⟨?_, by rw [hstays]⟩
    cases k with
    | zero => simp only [reading, reread, hparse]
    | succ k => simp only [reading, hstays, hstuck]

variable {faults settled p : Nat} {t : Token}

/-- A fault behind an operand comes before the readings that follow it. -/
theorem Settles.after_fault {fault : SyntaxFault} {j : Nat} {u : Token}
    (h : Settles ⟨r.tokens, j⟩ faults settled p t) (hlt : r.current < j)
    (hu : r.tokens[j]? = some u) (hfault : fault = .expectedRightParen ∨ fault = .expectedEnd)
    (hparse : r.parse = (.error (.about fault u), ⟨r.tokens, j⟩)) :
    r.Settles (faults + 1) (settled + 1) p t where
  atMostOneTree := by have := h.atMostOneTree; omega
  moves := by have := h.moves; dsimp only at this; omega
  token := h.token
  faulty := by
    intro k hk
    cases k with
    | zero => exact ⟨fault, u, hfault, by simp only [reading, reread, hparse],
        by simpa only [reread, hparse] using hu, by simpa only [reread, hparse] using hlt⟩
    | succ k =>
      have hnext := h.faulty k (by omega)
      simpa only [reading, reread, hparse] using hnext
  tree := by
    intro hsettled
    have hnext := h.tree (by omega)
    simpa only [reading, reread, hparse] using hnext
  constant := by
    intro k hk
    obtain ⟨k, rfl⟩ : ∃ k', k = k' + 1 := ⟨k - 1, by omega⟩
    have hnext := h.constant k (by omega)
    simpa only [reading, reread, hparse] using hnext

/-- Nothing but a lack follows a tree. -/
theorem Settles.after_tree {e : Expr} (h : Settles ⟨r.tokens, p⟩ 0 0 p t) (hlt : r.current < p)
    (hend : t.isEnd = true) (hparse : r.parse = (.ok e, ⟨r.tokens, p⟩)) :
    r.Settles 0 1 p t where
  atMostOneTree := .inr rfl
  moves := hlt
  token := h.token
  faulty := by simp
  tree := fun _ => ⟨⟨e, by simp only [reading, reread, hparse]⟩, hend⟩
  constant := by
    intro k hk
    obtain ⟨k, rfl⟩ : ∃ k', k = k' + 1 := ⟨k - 1, by omega⟩
    have hnext := h.constant k (by omega)
    simpa only [reading, reread, hparse] using hnext

/-- Readings inside the tokens settle. -/
theorem Inside.settles (h : r.Inside) : ∃ faults settled p t, r.Settles faults settled p t := by
  induction hleft : r.tokens.length - r.current using Nat.strongRecOn generalizing r with
  | ind left ih =>
    subst hleft
    obtain ⟨hparsed, hinside⟩ := h.parsed
    generalize hparse : r.parse = outcome at hparsed hinside
    cases hparsed with
    | @tree e j t hlt ht hend =>
      have hnothing := Token.StartsNothing.of_isEnd hend
      have hnext : Settles ⟨r.tokens, j⟩ 0 0 j t :=
        settles_of_lack h.closed (Nat.le_refl j) ht hnothing
          (parse_of_startsNothing h.closed ht hnothing)
      exact ⟨0, 1, j, t, hnext.after_tree hlt hend hparse⟩
    | @excess fault j u hlt hu hfault =>
      have hcurrent := h.current_lt
      obtain ⟨faults, settled, p, t, hnext⟩ :=
        ih (r.tokens.length - j) (by omega) hinside rfl
      exact ⟨faults + 1, settled + 1, p, t, hnext.after_fault hlt hu hfault hparse⟩
    | @lack j t hle ht hnothing =>
      exact ⟨0, 0, j, t, settles_of_lack h.closed hle ht hnothing hparse⟩

end TokenReader

/-- Readings report their errors and nothing else, one for each that fails. -/
theorem Session.parseTimes_eq (s : Session) (r : TokenReader) (n : Nat) :
    s.parseTimes r n =
      (s.reportAll (((List.range n).map r.reading).flatMap Effect.syntactic),
        (List.range n).map r.reading, r.reread n) := by
  induction n generalizing s r with
  | zero => rfl
  | succ n ih =>
    have hreadings : (List.range (n + 1)).map r.reading =
        r.parse.1 :: (List.range n).map r.parse.2.reading := by
      simp only [List.range_succ_eq_map, List.map_cons, List.map_map]
      rfl
    rw [hreadings]
    cases hfirst : r.parse.1 with
    | ok e =>
      simp only [parseTimes, parse_ok hfirst, ih]
      rfl
    | error err =>
      simp only [parseTimes, parse_error hfirst, ih]
      rfl

namespace TokenReader

/-- Readings with one reader, from the first end of input or a token before it, settle. A number of
them are faults behind operands, at most one is a tree, and from then on each is a lack of an
expression at one and the same token, at which the reader stays. There are fewer readings before
this than tokens. A session reports the errors of its readings, one for each that fails. -/
theorem repeated_parsing_settles {tokens : List Token} {last : Token} {i : Nat}
    (hlast : tokens.getLast? = some last) (hend : last.kind = .endOfInput)
    (hi : i ≤ tokens.findIdx Token.isEnd) :
    let r : TokenReader := ⟨tokens, i⟩
    (∃ faults settled p t, r.Settles faults settled p t ∧ settled < tokens.length) ∧
      ∀ (s : Session) n,
        let readings := (List.range n).map r.reading
        s.parseTimes r n =
          (s.reportAll (readings.flatMap Effect.syntactic), readings, r.reread n) := by
  intro r
  have hclosed : tokens.getLast?.any Token.isEnd = true := by
    rw [hlast]
    exact beq_iff_eq.mpr hend
  have hinside : r.Inside := inside_iff.mpr ⟨hclosed, hi⟩
  obtain ⟨faults, settled, p, t, hsettles⟩ := hinside.settles
  obtain ⟨hp, -⟩ := List.getElem?_eq_some_iff.mp hsettles.token
  have hlt : settled < tokens.length :=
    Nat.lt_of_le_of_lt (Nat.le_trans (Nat.le_add_left settled r.current) hsettles.moves) hp
  exact ⟨⟨faults, settled, p, t, hsettles, hlt⟩, fun s n => s.parseTimes_eq r n⟩

/-- In `(nil nil nil` the second `nil` closes no group and the third does not end an expression.
Then the third is read as one, and no other follows. -/
theorem repeated_parsing_settles_open_group :
    let operand : Token := ⟨.keyword .nilWord, "nil", none, 1⟩
    let tokens := [⟨.symbol .leftParen, "(", none, 1⟩, operand, operand, operand, .endOfInput 1]
    let r := ofTokens tokens
    tokens.getLast? = some (.endOfInput 1) ∧ 0 ≤ tokens.findIdx Token.isEnd ∧
      (List.range 3).map r.reading = [.error ⟨.expectedRightParen, 1, .atLexeme "nil"⟩,
        .error ⟨.expectedEnd, 1, .atLexeme "nil"⟩, .ok (.literal .nil)] ∧
      (∀ k, 4 ≤ k → r.reading k = .error ⟨.expectedExpression, 1, .atEnd⟩) ∧
      ∀ n, (Session.unlimited.parseTimes r n).2.1 = (List.range n).map r.reading := by
  intro operand tokens r
  have hlast : tokens.getLast? = some (.endOfInput 1) := rfl
  obtain ⟨⟨faults, settled, p, t, hsettles, hlt⟩, hreported⟩ :=
    repeated_parsing_settles hlast rfl (Nat.zero_le _)
  have hsettled : settled ≤ 4 := Nat.le_of_lt_succ hlt
  have hfirst : r.parse = (.error ⟨.expectedRightParen, 1, .atLexeme "nil"⟩, ⟨tokens, 2⟩) := rfl
  have hsecond : parse ⟨tokens, 2⟩ = (.error ⟨.expectedEnd, 1, .atLexeme "nil"⟩, ⟨tokens, 3⟩) := rfl
  have hthird : parse ⟨tokens, 3⟩ = (.ok (.literal .nil), ⟨tokens, 4⟩) := rfl
  have hfourth : parse ⟨tokens, 4⟩ = (.error ⟨.expectedExpression, 1, .atEnd⟩, ⟨tokens, 4⟩) := rfl
  have hfifth : r.reading 4 = .error ⟨.expectedExpression, 1, .atEnd⟩ := by
    simp only [reading, reread, hfirst, hsecond, hthird, hfourth]
  refine ⟨hlast, Nat.zero_le _, ?_, fun k hk => ?_, fun n => ?_⟩
  · simp only [List.range_succ, List.range_zero, List.nil_append, List.cons_append, List.map_cons,
      List.map_nil, reading, reread, hfirst, hsecond, hthird]
  · have hk : r.reading k = _ := (hsettles.constant k (Nat.le_trans hsettled hk)).1
    rw [hk, ← hfifth]
    exact (hsettles.constant 4 hsettled).1.symm
  · exact congrArg (·.2.1) (hreported .unlimited n)

end TokenReader

end Reckoner
