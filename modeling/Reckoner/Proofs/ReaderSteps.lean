import Reckoner.Proofs.Acceptance
import Reckoner.Proofs.Verdict

/-!
What operations do to a reader. Reading stops at the first token that is refused or accepted, and it
goes past no end of input. A reader whose tokens end with the end of input, and that stands at or
before the first one, therefore has a token at its index, and every operation leaves it so.
-/

namespace Reckoner

/-- Whether no expression starts with the token. -/
def Token.StartsNothing (t : Token) : Prop :=
  t.isUnary = false ∧ t.opensGroup = false ∧ t.operand? = none

namespace Reading

/-- How reading ends at a token. -/
inductive Decides (state : Reading) (t : Token) : Except SyntaxFault Expr → Prop
  | accepted {e : Expr} (h : state.step t = .accepted e) : Decides state t (.ok e)
  | refused {fault : SyntaxFault} (h : state.step t = .refused fault) :
      Decides state t (.error fault)

theorem isEnd_eq_false_of_next {state after : Reading} {t : Token}
    (h : state.step t = .next after) : t.isEnd = false := by
  apply Bool.eq_false_iff.mpr
  intro hend
  have hmove := Verdict.move_ofReading state t
  rw [h] at hmove
  exact Verdict.move_ne_go (Token.isEnd_iff.mp hend) _ hmove

theorem isEnd_of_accepted {state : Reading} {t : Token} {e : Expr}
    (h : state.step t = .accepted e) : t.isEnd = true := by
  have hmove := Verdict.move_ofReading state t
  rw [h] at hmove
  exact Token.isEnd_iff.mpr (Verdict.kind_of_accept hmove)

theorem startsNothing_of_refused {waiting : List Pending} {t : Token} {fault : SyntaxFault}
    (h : stepOperand waiting t = .refused fault) :
    fault = .expectedExpression ∧ t.StartsNothing := by
  simp only [stepOperand] at h
  split at h
  · cases h
  · next hunary =>
    split at h
    · cases h
    · next hopens =>
      split at h
      · cases h
      · next hnone =>
        cases h
        exact ⟨rfl, Bool.eq_false_iff.mpr hunary, Bool.eq_false_iff.mpr hopens, hnone⟩

theorem stepOperand_startsNothing (waiting : List Pending) {t : Token} (h : t.StartsNothing) :
    stepOperand waiting t = .refused .expectedExpression := by
  obtain ⟨hunary, hopens, hnone⟩ := h
  simp [stepOperand, hunary, hopens, hnone]

theorem fault_of_stepOperator {waiting : List Pending} {e : Expr} {t : Token} {fault : SyntaxFault}
    (h : stepOperator waiting e t = .refused fault) :
    fault = .expectedRightParen ∨ fault = .expectedEnd := by
  simp only [stepOperator] at h
  split at h
  · cases h
  split at h
  · split at h
    · cases h
    · cases h
      exact .inl rfl
  · split at h
    · cases h
    · cases h
      exact .inr rfl

theorem exists_isEnd_of_cons {t : Token} {rest : List Token}
    (h : ∃ u ∈ t :: rest, u.isEnd = true) (ht : t.isEnd = false) :
    ∃ u ∈ rest, u.isEnd = true := by
  obtain ⟨u, hu, hend⟩ := h
  rcases List.mem_cons.mp hu with rfl | hu
  · rw [ht] at hend
    cases hend
  · exact ⟨u, hu, hend⟩

/-- Reading that comes to an end of input stops at a token, before which there is none. -/
theorem exists_decides {ts : List Token} (hts : ∃ t ∈ ts, t.isEnd = true) (state : Reading) :
    ∃ before t rest last, ts = before ++ t :: rest ∧ (∀ u ∈ before, u.isEnd = false) ∧
      (before = [] → last = state) ∧ Decides last t (state.run ts).1 ∧
        (state.run ts).2 = t :: rest := by
  induction ts generalizing state with
  | nil =>
    obtain ⟨t, ht, -⟩ := hts
    cases ht
  | cons t rest ih =>
    simp only [run]
    cases hstep : state.step t with
    | next after =>
      have ht := isEnd_eq_false_of_next hstep
      obtain ⟨before, u, rest, last, rfl, hbefore, -, hdecides, hleft⟩ :=
        ih (exists_isEnd_of_cons hts ht) after
      refine ⟨t :: before, u, rest, last, rfl, ?_, ?_, hdecides, hleft⟩
      · intro v hv
        rcases List.mem_cons.mp hv with rfl | hv
        · exact ht
        · exact hbefore v hv
      · intro hnil
        cases hnil
    | accepted e => exact ⟨[], t, rest, state, rfl, by simp, fun _ => rfl, .accepted hstep, rfl⟩
    | refused fault =>
      exact ⟨[], t, rest, state, rfl, by simp, fun _ => rfl, .refused hstep, rfl⟩

end Reading

namespace TokenReader

/-- Whether the tokens end with the end of input, and none of those before the index is one. -/
structure Inside (r : TokenReader) : Prop where
  closed : r.tokens.getLast?.any Token.isEnd = true
  passed : ∀ u ∈ r.tokens.take r.current, u.isEnd = false

variable {r : TokenReader}

theorem Inside.exists_mem_ahead (h : r.Inside) : ∃ t ∈ r.ahead, t.isEnd = true := by
  obtain ⟨last, hlast, hend⟩ := (Option.any_eq_true _ _).mp h.closed
  have hmem : last ∈ r.tokens.take r.current ++ r.ahead := by
    rw [ahead, List.take_append_drop]
    exact List.mem_of_getLast? hlast
  rcases List.mem_append.mp hmem with hpassed | hahead
  · have hnot := h.passed last hpassed
    rw [hend] at hnot
    cases hnot
  · exact ⟨last, hahead, hend⟩

theorem Inside.current_lt (h : r.Inside) : r.current < r.tokens.length := by
  obtain ⟨t, ht, -⟩ := h.exists_mem_ahead
  have hlength := List.length_pos_of_mem ht
  rw [ahead, List.length_drop] at hlength
  omega

theorem Inside.exists_peek? (h : r.Inside) : ∃ t, r.peek? = some t :=
  ⟨_, List.getElem?_eq_getElem h.current_lt⟩

/-- A reader is inside exactly if it stands at or before the first end of input. -/
theorem inside_iff : r.Inside ↔
    r.tokens.getLast?.any Token.isEnd = true ∧ r.current ≤ r.tokens.findIdx Token.isEnd := by
  constructor
  · intro h
    have hlt := h.current_lt
    refine ⟨h.closed, List.le_findIdx_of_not hlt ?_⟩
    intro j hj
    exact h.passed _ (List.mem_take_iff_getElem.mpr ⟨j, by omega, rfl⟩)
  · rintro ⟨hclosed, hle⟩
    refine ⟨hclosed, ?_⟩
    intro u hu
    obtain ⟨j, hj, rfl⟩ := List.mem_take_iff_getElem.mp hu
    exact List.not_of_lt_findIdx (by omega)

/-- Moving past tokens that are no end of input keeps a reader inside. -/
theorem Inside.move (h : r.Inside) {before : List Token} (hahead : before <+: r.ahead)
    (hbefore : ∀ u ∈ before, u.isEnd = false) :
    Inside ⟨r.tokens, r.current + before.length⟩ where
  closed := h.closed
  passed := by
    intro u hu
    rw [List.take_add] at hu
    rcases List.mem_append.mp hu with hu | hu
    · exact h.passed u hu
    · rw [List.prefix_iff_eq_take.mp hahead] at hbefore
      exact hbefore u hu

/-- What a reader comes to that parses: a tree that ends with the end of input, a fault behind an
operand, or a token that no expression starts with. -/
inductive Parsed (r : TokenReader) : Except SyntaxError Expr × TokenReader → Prop
  | tree {e : Expr} {j : Nat} {t : Token} (hlt : r.current < j) (ht : r.tokens[j]? = some t)
      (hend : t.isEnd = true) : Parsed r (.ok e, ⟨r.tokens, j⟩)
  | excess {fault : SyntaxFault} {j : Nat} {t : Token} (hlt : r.current < j)
      (ht : r.tokens[j]? = some t) (hfault : fault = .expectedRightParen ∨ fault = .expectedEnd) :
      Parsed r (.error (.about fault t), ⟨r.tokens, j⟩)
  | lack {j : Nat} {t : Token} (hle : r.current ≤ j) (ht : r.tokens[j]? = some t)
      (hnothing : t.StartsNothing) :
      Parsed r (.error (.about .expectedExpression t), ⟨r.tokens, j⟩)

theorem parse_eq (h : r.tokens.getLast?.any Token.isEnd = true) :
    r.parse = ((Reading.start.run r.ahead).1.mapError (.atFirst · (Reading.start.run r.ahead).2),
      r.withLeft (Reading.start.run r.ahead).2) := by
  simp only [parse, h, if_true]

theorem Inside.parsed (h : r.Inside) : r.Parsed r.parse ∧ r.parse.2.Inside := by
  obtain ⟨before, t, rest, last, hahead, hbefore, hlast, hdecides, hleft⟩ :=
    Reading.exists_decides h.exists_mem_ahead .start
  have hcurrent := h.current_lt
  have hindex : r.tokens.length - (t :: rest).length = r.current + before.length := by
    have hlength := congrArg List.length hahead
    simp only [ahead, List.length_drop, List.length_append] at hlength
    omega
  have ht : r.tokens[r.current + before.length]? = some t := by
    rw [← List.getElem?_drop, ← ahead, hahead]
    simp
  rw [parse_eq h.closed, hleft, withLeft, hindex]
  refine ⟨?_, h.move ⟨t :: rest, hahead.symm⟩ hbefore⟩
  have hmoved (hoperand : last.operand ≠ none) : r.current < r.current + before.length := by
    have hne : before ≠ [] := by
      intro hnil
      rw [hlast hnil] at hoperand
      exact hoperand rfl
    have := List.length_pos_iff.mpr hne
    omega
  generalize (Reading.start.run r.ahead).1 = result at hdecides
  obtain ⟨waiting, operand⟩ := last
  cases hdecides with
  | accepted hstep =>
    cases operand with
    | none => exact absurd hstep (Grammar.stepOperand_ne_accepted waiting t _)
    | some e => exact .tree (hmoved (by simp)) ht (Reading.isEnd_of_accepted hstep)
  | refused hstep =>
    cases operand with
    | none =>
      obtain ⟨rfl, hnothing⟩ := Reading.startsNothing_of_refused hstep
      exact .lack (Nat.le_add_right _ _) ht hnothing
    | some e => exact .excess (hmoved (by simp)) ht (Reading.fault_of_stepOperator hstep)

theorem ahead_eq_cons {t : Token} (ht : r.peek? = some t) :
    r.ahead = t :: r.tokens.drop (r.current + 1) := by
  obtain ⟨hlt, rfl⟩ := List.getElem?_eq_some_iff.mp ht
  exact List.drop_eq_getElem_cons hlt

/-- A reader that stands at a token that no expression starts with stays there. -/
theorem parse_of_startsNothing {t : Token} (h : r.tokens.getLast?.any Token.isEnd = true)
    (ht : r.peek? = some t) (hnothing : t.StartsNothing) :
    r.parse = (.error (.about .expectedExpression t), r) := by
  have hahead := ahead_eq_cons ht
  have hstep : Reading.start.step t = .refused .expectedExpression :=
    Reading.stepOperand_startsNothing [] hnothing
  have hrun : Reading.start.run r.ahead = (.error .expectedExpression, r.ahead) := by
    rw [hahead, Reading.run, hstep]
  have hindex : r.tokens.length - r.ahead.length = r.current := by
    obtain ⟨hlt, -⟩ := List.getElem?_eq_some_iff.mp ht
    rw [ahead, List.length_drop]
    omega
  rw [parse_eq h, hrun, withLeft, hindex, hahead]
  rfl

/-- Until the next statement there is no end of input. -/
theorem isEnd_of_mem_take_statementDistance (behind : Token) (ts : List Token) :
    ∀ u ∈ ts.take (statementDistance behind ts), u.isEnd = false := by
  induction ts generalizing behind with
  | nil => simp
  | cons t rest ih =>
    intro u hu
    rw [statementDistance] at hu
    split at hu
    · cases hu
    · next hgo =>
      rw [List.take_succ_cons] at hu
      rcases List.mem_cons.mp hu with rfl | hu
      · simp_all
      · exact ih t u hu

theorem toNextStatement_eq {t : Token} (ht : r.peek? = some t) : r.toNextStatement =
    if t.isEnd then r else
      ⟨r.tokens, r.current + 1 + statementDistance t (r.tokens.drop (r.current + 1))⟩ := by
  simp only [toNextStatement, ahead_eq_cons ht]

theorem advance_eq {t : Token} (ht : r.peek? = some t) :
    r.advance = (some t, if t.isEnd then r else ⟨r.tokens, r.current + 1⟩) := by
  simp only [advance, isAtEnd, ht, Option.all_some]

theorem check_eq {t : Token} (ht : r.peek? = some t) (kind : TokenKind) :
    r.check kind = (!t.isEnd && t.kind == kind) := by
  simp only [check, isAtEnd, ht, Option.all_some, Option.any_some]

theorem Inside.toNextStatement (h : r.Inside) : r.toNextStatement.Inside := by
  obtain ⟨t, ht⟩ := h.exists_peek?
  have hahead := ahead_eq_cons ht
  rw [toNextStatement_eq ht]
  generalize r.tokens.drop (r.current + 1) = rest at hahead
  by_cases hend : t.isEnd = true
  · rw [if_pos hend]
    exact h
  · rw [if_neg hend]
    have hprefix : t :: rest.take (statementDistance t rest) <+: r.ahead := by
      rw [hahead]
      exact (List.prefix_cons_inj t).mpr (List.take_prefix _ rest)
    have hlength : r.current + (t :: rest.take (statementDistance t rest)).length =
        r.current + 1 + statementDistance t rest := by
      have := statementDistance_le t rest
      simp only [List.length_cons, List.length_take]
      omega
    rw [← hlength]
    refine h.move hprefix ?_
    intro u hu
    rcases List.mem_cons.mp hu with rfl | hu
    · exact Bool.eq_false_iff.mpr hend
    · exact isEnd_of_mem_take_statementDistance t rest u hu

theorem Inside.advance (h : r.Inside) : r.advance.2.Inside := by
  obtain ⟨t, ht⟩ := h.exists_peek?
  rw [advance_eq ht]
  by_cases hend : t.isEnd = true
  · rw [if_pos hend]
    exact h
  · rw [if_neg hend]
    have hprefix : [t] <+: r.ahead := ⟨_, (ahead_eq_cons ht).symm⟩
    refine h.move hprefix ?_
    intro u hu
    rw [List.mem_singleton.mp hu]
    exact Bool.eq_false_iff.mpr hend

end TokenReader

end Reckoner
