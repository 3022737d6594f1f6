import Reckoner.Proofs.Acceptance
import Reckoner.Proofs.Traversals

/-!
The operators of parsed trees. The grammar joins operands by its own operators only, so each
operator node of a tree that was parsed holds an operator of its arity, and evaluation, which fails
at such a node for its operands alone, never comes upon a token that is no operator.
-/

namespace Reckoner

open Grammar (Derives Phrase Rule binaryOperators prefixes)

/-- The trees whose operator nodes hold operators of their arity. -/
def Expr.Regular : Expr → Prop
  | literal _ => True
  | group e => e.Regular
  | unary op e => (∃ o ∈ prefixes, op.kind = .symbol o) ∧ e.Regular
  | binary l op r => l.Regular ∧ (∃ o ∈ binaryOperators, op.kind = .symbol o) ∧ r.Regular

namespace Grammar

theorem Rule.mem_binaryOperators {r : Rule} {o : Symbol} (ho : o ∈ r.operators) :
    o ∈ binaryOperators := by
  have hsubset : r.operators ⊆ binaryOperators := by
    cases r <;> decide
  exact hsubset ho

/-- Whether the operands that a phrase has joined already form a regular tree. -/
def Phrase.Regular : Phrase → Prop
  | rule _ => True
  | more _ joined => joined.Regular

theorem Derives.regular {p : Phrase} {ts : List Token} {e : Expr} (h : Derives p ts e)
    (hp : p.Regular) : e.Regular := by
  induction h with
  | chain _ _ _ ihfirst ihmore => exact ihmore (ihfirst trivial)
  | done => exact hp
  | more hop ho _ _ _ ihright ihmore =>
    exact ihmore ⟨hp, ⟨_, Rule.mem_binaryOperators ho, hop⟩, ihright trivial⟩
  | unary hop ho _ ih => exact ⟨⟨_, ho, hop⟩, ih trivial⟩
  | group _ _ _ ih => exact ih trivial
  | number _ _ => trivial
  | string _ _ => trivial
  | trueWord _ => trivial
  | falseWord _ => trivial
  | nilWord _ => trivial

end Grammar

/-- Wherever a reader stands, what it parses is regular. -/
theorem TokenReader.regular_of_parse {r : TokenReader} {e : Expr} (h : r.parse.1 = .ok e) :
    e.Regular := by
  unfold TokenReader.parse at h
  split at h
  · have hrun : (Reading.start.run r.ahead).1 = .ok e := by
      cases hresult : (Reading.start.run r.ahead).1 <;> simp_all [Except.mapError]
    obtain ⟨own, last, more, -, -, -, hderives⟩ :=
      Grammar.derives_of_run Grammar.reads_start (Prod.ext hrun rfl)
    exact hderives.regular trivial
  · cases h

namespace Expr

theorem Regular.of_mem_nodes {e n : Expr} (h : e.Regular) (hn : n ∈ e.nodes) : n.Regular := by
  induction e with
  | literal v =>
    rw [nodes_literal, List.mem_singleton] at hn
    exact hn ▸ h
  | group e ih =>
    rw [nodes_group] at hn
    rcases List.mem_cons.mp hn with rfl | hn
    · exact h
    · exact ih h hn
  | unary op e ih =>
    rw [nodes_unary] at hn
    rcases List.mem_cons.mp hn with rfl | hn
    · exact h
    · exact ih h.2 hn
  | binary l op r ihl ihr =>
    rw [nodes_binary] at hn
    rcases List.mem_cons.mp hn with rfl | hn
    · exact h
    rcases List.mem_append.mp hn with hn | hn
    · exact ihl h.1 hn
    · exact ihr h.2.2 hn

/-- Where evaluation of a regular tree fails, it fails for the operands. -/
theorem Regular.evaluate_ne_foreign {e : Expr} (h : e.Regular) (o : ForeignOperator) :
    e.evaluate ≠ .error (.foreign o) := by
  intro hfail
  rcases FirstFailure.evaluate_cases e with ⟨⟨v, hv⟩, -⟩ | ⟨before, n, failure, hstop⟩
  · cases hv.symm.trans hfail
  · cases hstop.evaluate_eq.symm.trans hfail
    have hmem : n ∈ FirstFailure.operations e := hstop.stands.subset (by simp)
    have hn : n.Regular := h.of_mem_nodes (mem_nodes_of_mem_operations hmem)
    cases hstop.blamed with
    | foreignUnary hforeign =>
      obtain ⟨⟨o, ho, hop⟩, -⟩ := hn
      exact hforeign o ho hop
    | foreignBinary hforeign =>
      obtain ⟨-, ⟨o, ho, hop⟩, -⟩ := hn
      exact hforeign o ho hop

end Expr

namespace TokenReader

/-- Whatever tokens a reader holds and wherever it stands among them, the operator nodes of a tree
that it parses hold operators of their arity. The tree has a value or an operator that does not
accept its operands, and nowhere in the tree does evaluation come upon a token that is no
operator. -/
theorem parsed_tree_evaluates {r : TokenReader} {e : Expr} (h : r.parse.1 = .ok e) :
    (∀ op x, .unary op x ∈ e.nodes → op.kind = .symbol .minus ∨ op.kind = .symbol .bang) ∧
      (∀ x op y, .binary x op y ∈ e.nodes → ∃ o ∈ binaryOperators, op.kind = .symbol o) ∧
      ((∃ v, e.evaluate = .ok v) ∨ ∃ err, e.evaluate = .error (.mismatch err)) ∧
      ∀ n ∈ e.nodes, ∀ o, n.evaluate ≠ .error (.foreign o) := by
  have hregular {n : Expr} (hn : n ∈ e.nodes) : n.Regular := (regular_of_parse h).of_mem_nodes hn
  refine ⟨?_, ?_, ?_, fun n hn => (hregular hn).evaluate_ne_foreign⟩
  · intro op x hn
    obtain ⟨⟨o, ho, hop⟩, -⟩ := hregular hn
    simp only [prefixes, List.mem_cons, List.not_mem_nil, or_false] at ho
    rcases ho with rfl | rfl
    · exact .inr hop
    · exact .inl hop
  · intro x op y hn
    obtain ⟨-, hop, -⟩ := hregular hn
    exact hop
  · cases heval : e.evaluate with
    | ok v => exact .inl ⟨v, rfl⟩
    | error failure =>
      cases failure with
      | mismatch err => exact .inr ⟨err, rfl⟩
      | foreign o => exact absurd heval ((regular_of_parse h).evaluate_ne_foreign o)

/-- A reader that has stopped at a parenthesis, and has then moved past it, parses a negation from
tokens that are not written as what they are. The negation fails for its operand. -/
theorem parsed_tree_evaluates_negation :
    let minus : Token := ⟨.symbol .minus, "true", some (.string "!"), 7⟩
    let tokens : List Token := [⟨.keyword .nilWord, "+", none, 3⟩,
      ⟨.symbol .rightParen, "nil", none, 0⟩, minus, ⟨.keyword .nilWord, "", none, 2⟩, .endOfInput 1]
    let e : Expr := .unary minus (.literal .nil)
    (TokenReader.ofTokens tokens).parse.2.advance.2.parse.1 = .ok e ∧
      (minus.kind = .symbol .minus ∨ minus.kind = .symbol .bang) ∧
      ∃ err, e.evaluate = .error (.mismatch err) := by
  intro minus tokens e
  have hparse : (TokenReader.ofTokens tokens).parse.2.advance.2.parse.1 = .ok e := rfl
  obtain ⟨hunary, -, heval, -⟩ := parsed_tree_evaluates hparse
  refine ⟨hparse, hunary minus (.literal .nil) e.self_mem_nodes, ?_⟩
  rcases heval with ⟨v, hv⟩ | hmismatch
  · cases hv
  · exact hmismatch

end TokenReader

end Reckoner
