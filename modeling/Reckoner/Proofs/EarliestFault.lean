import Reckoner.Proofs.Acceptance
import Reckoner.Proofs.Verdict

/-!
Syntax errors are found at the earliest token. The tokens before the one that is refused lead the
verdict to a state, and from every state it can be led on to acceptance: by an operand if one is
expected, and by the parentheses that are open. The refused token itself can be followed by nothing
that would be accepted, because the verdict never looks at what follows it.
-/

namespace Reckoner.Verdict

namespace State

/-- The tokens lead from one state to another, and none of them decides. -/
inductive Leads : State → List Token → State → Prop
  | nil {s : State} : Leads s [] s
  | cons {s next s' : State} {t : Token} {ts : List Token} (hmove : s.move t = .go next)
      (h : Leads next ts s') : Leads s (t :: ts) s'

/-- Tokens that lead to a state only put off what is decided there. -/
theorem Leads.judge_append {s s' : State} {ts : List Token} (h : Leads s ts s')
    (rest : List Token) :
    s.judge (ts ++ rest) = ((s'.judge rest).1 + ts.length, (s'.judge rest).2) := by
  induction h with
  | nil => rfl
  | cons hmove _ ih =>
    simp only [List.cons_append, judge, hmove, ih, List.length_cons]
    rfl

/-- The tokens before the one that decides lead to a state that decides so at it. -/
theorem exists_leads_of_judge {s : State} {ts : List Token} {t : Token} {fault : SyntaxFault}
    (ht : ts[(s.judge ts).1]? = some t) (hfault : (s.judge ts).2 = some fault) :
    ∃ s', Leads s (ts.take (s.judge ts).1) s' ∧ s'.move t = .refuse fault := by
  induction ts generalizing s with
  | nil => simp [judge] at ht
  | cons u rest ih =>
    simp only [judge] at ht hfault ⊢
    cases hmove : s.move u with
    | go next =>
      simp only [hmove, List.getElem?_cons_succ] at ht hfault
      obtain ⟨s', hleads, hrefuse⟩ := ih ht hfault
      exact ⟨s', .cons hmove hleads, hrefuse⟩
    | accept => simp [hmove] at hfault
    | refuse fault' =>
      simp only [hmove, List.getElem?_cons_zero, Option.some.injEq] at ht hfault
      subst ht hfault
      exact ⟨s, .nil, hmove⟩

/-- A token that is refused stays so whatever follows it. -/
theorem Leads.judge_refused {s s' : State} {ts : List Token} (h : Leads s ts s') {t : Token}
    {fault : SyntaxFault} (hrefuse : s'.move t = .refuse fault) (rest : List Token) :
    (s.judge (ts ++ t :: rest)).2 = some fault := by
  rw [h.judge_append]
  simp only [judge, hrefuse]

/-- What a state still owes: an operand, if it expects one, and the open parentheses. -/
def owed (s : State) : List Token :=
  (if s.mode = .expected then [⟨.keyword .nilWord, "nil", none, 1⟩] else []) ++
    List.replicate s.depth ⟨.symbol .rightParen, ")", none, 1⟩

theorem leads_closing (depth : Nat) :
    Leads ⟨.complete, depth⟩ (List.replicate depth ⟨.symbol .rightParen, ")", none, 1⟩)
      ⟨.complete, 0⟩ := by
  induction depth with
  | zero => exact .nil
  | succ depth ih =>
    refine .cons ?_ ih
    simp [move, moveComplete, isBinary, Grammar.binaryOperators]

/-- What is owed leads to a complete operand with no open parenthesis. -/
theorem leads_owed (s : State) : Leads s s.owed ⟨.complete, 0⟩ := by
  obtain ⟨mode, depth⟩ := s
  cases mode with
  | expected => exact .cons rfl (leads_closing depth)
  | complete => exact leads_closing depth

theorem Leads.trans {s s' s'' : State} {ts us : List Token} (h : Leads s ts s')
    (h' : Leads s' us s'') : Leads s (ts ++ us) s'' := by
  induction h with
  | nil => exact h'
  | cons hmove _ ih => exact .cons hmove (ih h')

/-- Every state can be led to acceptance. -/
theorem Leads.judge_completed {s s' : State} {ts : List Token} (h : Leads s ts s') :
    (s.judge (ts ++ (s'.owed ++ [.endOfInput 1]))).2 = none := by
  rw [← List.append_assoc, (h.trans s'.leads_owed).judge_append]
  rfl

end State

/-- A list is parsed exactly if it ends with the end of input and the verdict accepts it. -/
theorem exists_parse_eq_ok_iff {tokens : List Token} :
    (∃ e, (TokenReader.ofTokens tokens).parse.1 = .ok e) ↔
      (∃ last, tokens.getLast? = some last ∧ last.isEnd = true) ∧
        (State.start.judge tokens).2 = none := by
  have hjudge : (State.start.judge tokens).2 = faultOf (Reading.start.run tokens).1 :=
    (judge_ofReading .start tokens).2
  rw [hjudge]
  constructor
  · rintro ⟨e, he⟩
    obtain ⟨last, hlast, hend, hrun⟩ := Grammar.parse_eq_ok_iff.mp he
    rw [hrun]
    exact ⟨⟨last, hlast, hend⟩, rfl⟩
  · rintro ⟨⟨last, hlast, hend⟩, hnone⟩
    cases hrun : (Reading.start.run tokens).1 with
    | ok e => exact ⟨e, Grammar.parse_eq_ok_iff.mpr ⟨last, hlast, hend, hrun⟩⟩
    | error fault => simp [hrun, faultOf] at hnone

/-- A fresh reader that fails stands at the token that the verdict refuses. -/
theorem exists_leads_of_parse_error {tokens : List Token} {last : Token} {err : SyntaxError}
    {r : TokenReader} (hlast : tokens.getLast? = some last) (hend : last.kind = .endOfInput)
    (h : (TokenReader.ofTokens tokens).parse = (.error err, r)) :
    ∃ t s, tokens[r.current]? = some t ∧ err = .about err.fault t ∧
      State.Leads .start (tokens.take r.current) s ∧ s.move t = .refuse err.fault := by
  obtain ⟨t, ht, -⟩ := exists_judge_token .start hlast hend
  have hlength : 0 < tokens.length := List.length_pos_of_mem (List.mem_of_getLast? hlast)
  obtain ⟨result, hfault, hparse⟩ := parse_eq_of_judge (i := 0) hlast hend hlength rfl
    (by simpa using ht)
  rw [TokenReader.ofTokens, hparse, Nat.zero_add] at h
  cases result with
  | ok e => cases h
  | error fault =>
    cases h
    obtain ⟨s, hleads, hrefuse⟩ := State.exists_leads_of_judge ht hfault.symm
    exact ⟨t, s, ht, rfl, hleads, hrefuse⟩

/-- If a fresh reader fails on a list that ends with the end of input, it stands at the token that
its error is about. The tokens before this one can be continued to a list that is parsed; together
with this one they cannot. -/
theorem fault_found_at_once {tokens : List Token} {last : Token} {err : SyntaxError}
    {r : TokenReader} (hlast : tokens.getLast? = some last) (hend : last.kind = .endOfInput)
    (h : (TokenReader.ofTokens tokens).parse = (.error err, r)) :
    (∃ t, tokens[r.current]? = some t ∧ err = .about err.fault t) ∧
      (∃ rest e, (TokenReader.ofTokens (tokens.take r.current ++ rest)).parse.1 = .ok e) ∧
      ∀ rest e, (TokenReader.ofTokens (tokens.take (r.current + 1) ++ rest)).parse.1 ≠ .ok e := by
  obtain ⟨t, s, ht, habout, hleads, hrefuse⟩ := exists_leads_of_parse_error hlast hend h
  refine ⟨⟨t, ht, habout⟩, ⟨s.owed ++ [.endOfInput 1], ?_⟩, ?_⟩
  · refine exists_parse_eq_ok_iff.mpr ⟨⟨.endOfInput 1, ?_, rfl⟩, hleads.judge_completed⟩
    rw [← List.append_assoc, List.getLast?_concat]
  · intro rest e he
    have haccepted := (exists_parse_eq_ok_iff.mp ⟨e, he⟩).2
    have hsplit : tokens.take (r.current + 1) ++ rest = tokens.take r.current ++ t :: rest := by
      rw [List.take_add_one, ht]
      simp
    rw [hsplit, hleads.judge_refused hrefuse] at haccepted
    cases haccepted

/-- In `!(nil nil)` the second `nil` is at fault: `!(nil` can be continued, `!(nil nil` cannot. -/
theorem fault_found_at_once_second_operand :
    let opening : List Token := [⟨.symbol .bang, "!", none, 1⟩, ⟨.symbol .leftParen, "(", none, 1⟩]
    let operand : Token := ⟨.keyword .nilWord, "nil", none, 1⟩
    let tokens := opening ++ [operand, operand, ⟨.symbol .rightParen, ")", none, 1⟩, .endOfInput 1]
    tokens.getLast? = some (.endOfInput 1) ∧
      (TokenReader.ofTokens tokens).parse =
        (.error ⟨.expectedRightParen, 1, .atLexeme "nil"⟩, ⟨tokens, 3⟩) ∧
      (∃ rest e, (TokenReader.ofTokens (opening ++ [operand] ++ rest)).parse.1 = .ok e) ∧
      ∀ rest e, (TokenReader.ofTokens (opening ++ [operand, operand] ++ rest)).parse.1 ≠ .ok e := by
  intro opening operand tokens
  have hlast : tokens.getLast? = some (.endOfInput 1) := rfl
  have hparse : (TokenReader.ofTokens tokens).parse =
      (.error ⟨.expectedRightParen, 1, .atLexeme "nil"⟩, ⟨tokens, 3⟩) := rfl
  obtain ⟨-, hcontinued, hrefused⟩ := fault_found_at_once hlast rfl hparse
  exact ⟨hlast, hparse, hcontinued, hrefused⟩

end Reckoner.Verdict
