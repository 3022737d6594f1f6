import Reckoner.Expr.Evaluation
import Reckoner.Proofs.Grammar

/-!
Where an evaluation fails. The operator nodes of a tree are taken in post-order, operands before
their operator and the left operand before the right one. A tree has a value if each of its
operators accepts its operands; otherwise the first node whose operator does not accept the values
of its operands decides the outcome, and nothing that follows in this order has an influence.
-/

namespace Reckoner

inductive ValueKind
  | number
  | string
  | bool
  | nil
  deriving DecidableEq

def Value.kind : Value → ValueKind
  | number _ => .number
  | string _ => .string
  | bool _ => .bool
  | nil => .nil

namespace FirstFailure

open Reckoner.Expr
open Grammar (binaryOperators prefixes)

/-- The operator nodes in post-order. -/
def operations : Expr → List Expr
  | .literal _ => []
  | .group e => operations e
  | .unary op e => operations e ++ [.unary op e]
  | .binary l op r => operations l ++ (operations r ++ [.binary l op r])

/-- The operators between two operands that accept numbers only. -/
def numberOperators : List Symbol :=
  [.minus, .slash, .star, .greater, .greaterEqual, .less, .lessEqual]

/-- What an operator accepts behind it. A token that is no such operator accepts nothing. -/
def AcceptsOne (op : TokenKind) (k : ValueKind) : Prop :=
  op = .symbol .bang ∨ op = .symbol .minus ∧ k = .number

/-- What an operator accepts on its sides. A token that is no such operator accepts nothing. -/
def AcceptsTwo (op : TokenKind) (k k' : ValueKind) : Prop :=
  op = .symbol .equalEqual ∨ op = .symbol .bangEqual ∨
    op = .symbol .plus ∧ (k = .number ∧ k' = .number ∨ k = .string ∧ k' = .string) ∨
    (∃ o ∈ numberOperators, op = .symbol o) ∧ k = .number ∧ k' = .number

/-- The operands of the node have values, and its operator accepts them. -/
inductive Accepted : Expr → Prop
  | unary {op : Token} {e : Expr} {v : Value} (hv : e.evaluate = .ok v)
      (h : AcceptsOne op.kind v.kind) : Accepted (.unary op e)
  | binary {l r : Expr} {op : Token} {v w : Value} (hv : l.evaluate = .ok v)
      (hw : r.evaluate = .ok w) (h : AcceptsTwo op.kind v.kind w.kind) : Accepted (.binary l op r)

/-- The operands of the node have values, but its operator does not accept them. -/
inductive Offends : Expr → Prop
  | unary {op : Token} {e : Expr} {v : Value} (hv : e.evaluate = .ok v)
      (h : ¬ AcceptsOne op.kind v.kind) : Offends (.unary op e)
  | binary {l r : Expr} {op : Token} {v w : Value} (hv : l.evaluate = .ok v)
      (hw : r.evaluate = .ok w) (h : ¬ AcceptsTwo op.kind v.kind w.kind) : Offends (.binary l op r)

/-- The failure that a node is to blame for. -/
inductive Blamed : Expr → Failure → Prop
  | negation {op : Token} {e : Expr} (hop : op.kind = .symbol .minus) :
      Blamed (.unary op e) (.mismatch ⟨.notNumber, op⟩)
  | foreignUnary {op : Token} {e : Expr} (hop : ∀ o ∈ prefixes, op.kind ≠ .symbol o) :
      Blamed (.unary op e) (.foreign ⟨.unary, op.kind⟩)
  | plus {l r : Expr} {op : Token} (hop : op.kind = .symbol .plus) :
      Blamed (.binary l op r) (.mismatch ⟨.notNumbersOrStrings, op⟩)
  | numbers {l r : Expr} {op : Token} {o : Symbol} (hop : op.kind = .symbol o)
      (ho : o ∈ numberOperators) : Blamed (.binary l op r) (.mismatch ⟨.notNumber, op⟩)
  | foreignBinary {l r : Expr} {op : Token} (hop : ∀ o ∈ binaryOperators, op.kind ≠ .symbol o) :
      Blamed (.binary l op r) (.foreign ⟨.binary, op.kind⟩)

theorem Accepted.not_offends {n : Expr} (h : Accepted n) : ¬ Offends n := by
  intro hoffends
  cases h with
  | unary hv haccepts =>
    cases hoffends with
    | unary hv' hnot =>
      cases hv.symm.trans hv'
      exact hnot haccepts
  | binary hv hw haccepts =>
    cases hoffends with
    | binary hv' hw' hnot =>
      cases hv.symm.trans hv'
      cases hw.symm.trans hw'
      exact hnot haccepts

theorem kind_eq_number_iff {v : Value} : v.kind = .number ↔ ∃ x, v = .number x := by
  cases v <;> simp [Value.kind]

theorem kind_eq_string_iff {v : Value} : v.kind = .string ↔ ∃ s, v = .string s := by
  cases v <;> simp [Value.kind]

theorem numeric?_eq_none_iff {o : Symbol} : numeric? o = none ↔ o ∉ numberOperators := by
  cases o <;> simp [numeric?, numberOperators]

theorem mem_binaryOperators_iff {o : Symbol} :
    o ∈ binaryOperators ↔ o = .equalEqual ∨ o = .bangEqual ∨ o = .plus ∨ o ∈ numberOperators := by
  cases o <;> simp [binaryOperators, numberOperators]

theorem not_acceptsOne_of_foreign {op : TokenKind} {k : ValueKind}
    (hop : ∀ o ∈ prefixes, op ≠ .symbol o) : ¬ AcceptsOne op k := by
  intro h
  rcases h with h | ⟨h, _⟩
  · exact hop .bang (by decide) h
  · exact hop .minus (by decide) h

theorem not_acceptsTwo_of_foreign {op : TokenKind} {k k' : ValueKind}
    (hop : ∀ o ∈ binaryOperators, op ≠ .symbol o) : ¬ AcceptsTwo op k k' := by
  intro h
  rcases h with h | h | ⟨h, _⟩ | ⟨⟨o, ho, h⟩, _⟩
  · exact hop .equalEqual (by decide) h
  · exact hop .bangEqual (by decide) h
  · exact hop .plus (by decide) h
  · exact hop o (mem_binaryOperators_iff.mpr (.inr (.inr (.inr ho)))) h

theorem acceptsTwo_plus_iff {k k' : ValueKind} : AcceptsTwo (.symbol .plus) k k' ↔
    k = .number ∧ k' = .number ∨ k = .string ∧ k' = .string := by
  simp [AcceptsTwo, numberOperators]

theorem acceptsTwo_numbers_iff {o : Symbol} {k k' : ValueKind} (ho : o ∈ numberOperators) :
    AcceptsTwo (.symbol o) k k' ↔ k = .number ∧ k' = .number := by
  cases o <;> simp [numberOperators] at ho <;> simp [AcceptsTwo, numberOperators]

/-- An operator has a result exactly if it accepts its operand, and fails for its node if not. -/
theorem applyUnary_cases (op : Token) (v : Value) (e : Expr) :
    (AcceptsOne op.kind v.kind ∧ ∃ w, applyUnary op v = .ok w) ∨
      ¬ AcceptsOne op.kind v.kind ∧
        ∃ failure, Blamed (.unary op e) failure ∧ applyUnary op v = .error failure := by
  unfold applyUnary
  split
  · next hop => exact .inl ⟨.inl hop, _, rfl⟩
  · next hop =>
    split
    · exact .inl ⟨.inr ⟨hop, rfl⟩, _, rfl⟩
    · next hnumber =>
      refine .inr ⟨?_, _, .negation hop, rfl⟩
      simpa [AcceptsOne, hop, kind_eq_number_iff] using hnumber
  · next hbang hminus =>
    have hforeign : ∀ o ∈ prefixes, op.kind ≠ .symbol o := by
      simpa [prefixes] using And.intro hbang hminus
    exact .inr ⟨not_acceptsOne_of_foreign hforeign, _, .foreignUnary hforeign, rfl⟩

theorem applyBinary_cases (op : Token) (v w : Value) (l r : Expr) :
    (AcceptsTwo op.kind v.kind w.kind ∧ ∃ u, applyBinary op v w = .ok u) ∨
      ¬ AcceptsTwo op.kind v.kind w.kind ∧
        ∃ failure, Blamed (.binary l op r) failure ∧ applyBinary op v w = .error failure := by
  unfold applyBinary
  split
  · next hop => exact .inl ⟨.inl hop, _, rfl⟩
  · next hop => exact .inl ⟨.inr (.inl hop), _, rfl⟩
  · next hop =>
    rw [hop, acceptsTwo_plus_iff]
    split
    · exact .inl ⟨.inl ⟨rfl, rfl⟩, _, rfl⟩
    · exact .inl ⟨.inr ⟨rfl, rfl⟩, _, rfl⟩
    · next hnumbers hstrings =>
      refine .inr ⟨?_, _, .plus hop, rfl⟩
      simp only [kind_eq_number_iff, kind_eq_string_iff]
      rintro (⟨⟨x, hx⟩, y, hy⟩ | ⟨⟨s, hs⟩, t, ht⟩)
      · exact hnumbers x y hx hy
      · exact hstrings s t hs ht
  · next o hequal hunequal hplus hop =>
    split
    · next hnumeric =>
      have hforeign : ∀ o ∈ binaryOperators, op.kind ≠ .symbol o := by
        intro o' ho' hop'
        cases hop.symm.trans hop'
        rcases mem_binaryOperators_iff.mp ho' with h | h | h | h
        · exact hequal h
        · exact hunequal h
        · exact hplus h
        · exact numeric?_eq_none_iff.mp hnumeric h
      exact .inr ⟨not_acceptsTwo_of_foreign hforeign, _, .foreignBinary hforeign, rfl⟩
    · next compute hnumeric =>
      have ho : o ∈ numberOperators := by
        apply Decidable.byContradiction
        intro hno
        rw [numeric?_eq_none_iff.mpr hno] at hnumeric
        cases hnumeric
      rw [hop, acceptsTwo_numbers_iff ho]
      split
      · exact .inl ⟨⟨rfl, rfl⟩, _, rfl⟩
      · next hnumbers =>
        refine .inr ⟨?_, _, .numbers hop ho, rfl⟩
        simp only [kind_eq_number_iff]
        rintro ⟨⟨x, hx⟩, y, hy⟩
        exact hnumbers x y hx hy
  · next hsymbol =>
    have hforeign : ∀ o ∈ binaryOperators, op.kind ≠ .symbol o := fun o _ => hsymbol o
    exact .inr ⟨not_acceptsTwo_of_foreign hforeign, _, .foreignBinary hforeign, rfl⟩

/-- Evaluation passes the nodes `before` and fails at the node `n`. -/
structure StopsAt (e : Expr) (before : List Expr) (n : Expr) (failure : Failure) : Prop where
  stands : before ++ [n] <+: operations e
  accepted : ∀ m ∈ before, Accepted m
  offends : Offends n
  blamed : Blamed n failure
  evaluate_eq : e.evaluate = .error failure

/-- A failure inside a tree is the failure of the tree, if evaluation comes to it. -/
theorem StopsAt.lift {e whole : Expr} {before first rest : List Expr} {n : Expr}
    {failure : Failure} (h : StopsAt e before n failure)
    (hwhole : operations whole = first ++ (operations e ++ rest))
    (hfirst : ∀ m ∈ first, Accepted m) (heval : whole.evaluate = .error failure) :
    StopsAt whole (first ++ before) n failure where
  stands := by
    rw [hwhole, List.append_assoc]
    exact (List.prefix_append_right_inj first).mpr (h.stands.trans (List.prefix_append _ rest))
  accepted := by
    intro m hm
    exact (List.mem_append.mp hm).elim (hfirst m) (h.accepted m)
  offends := h.offends
  blamed := h.blamed
  evaluate_eq := heval

theorem evaluate_unary {op : Token} {e : Expr} {v : Value} (hv : e.evaluate = .ok v) :
    (Expr.unary op e).evaluate = applyUnary op v := by
  simp only [evaluate, hv]
  rfl

theorem evaluate_binary {l r : Expr} {op : Token} {v w : Value} (hv : l.evaluate = .ok v)
    (hw : r.evaluate = .ok w) : (Expr.binary l op r).evaluate = applyBinary op v w := by
  simp only [evaluate, hv, hw]
  rfl

theorem evaluate_unary_error {op : Token} {e : Expr} {failure : Failure}
    (h : e.evaluate = .error failure) : (Expr.unary op e).evaluate = .error failure := by
  simp only [evaluate, h]
  rfl

theorem evaluate_left_error {l r : Expr} {op : Token} {failure : Failure}
    (h : l.evaluate = .error failure) : (Expr.binary l op r).evaluate = .error failure := by
  simp only [evaluate, h]
  rfl

theorem evaluate_right_error {l r : Expr} {op : Token} {v : Value} {failure : Failure}
    (hv : l.evaluate = .ok v) (h : r.evaluate = .error failure) :
    (Expr.binary l op r).evaluate = .error failure := by
  simp only [evaluate, hv, h]
  rfl

/-- Either all operators accept their operands, or evaluation stops at one of their nodes. -/
theorem evaluate_cases (e : Expr) :
    ((∃ v, e.evaluate = .ok v) ∧ ∀ n ∈ operations e, Accepted n) ∨
      ∃ before n failure, StopsAt e before n failure := by
  induction e with
  | literal v => exact .inl ⟨⟨v, rfl⟩, by simp [operations]⟩
  | group e ih =>
    rcases ih with hok | ⟨before, n, failure, hstop⟩
    · exact .inl hok
    · have hsame : operations (.group e) = [] ++ (operations e ++ []) := by simp [operations]
      exact .inr ⟨_, n, failure, hstop.lift hsame (by simp) hstop.evaluate_eq⟩
  | unary op e ih =>
    rcases ih with ⟨⟨v, hv⟩, haccepted⟩ | ⟨before, n, failure, hstop⟩
    · rcases applyUnary_cases op v e with ⟨haccepts, hw⟩ | ⟨hnot, failure, hblamed, hfail⟩
      · refine .inl ⟨(evaluate_unary hv) ▸ hw, ?_⟩
        intro n hn
        rcases List.mem_append.mp hn with hn | hn
        · exact haccepted n hn
        · rw [List.mem_singleton.mp hn]
          exact .unary hv haccepts
      · exact .inr ⟨operations e, .unary op e, failure, List.prefix_refl _, haccepted,
          .unary hv hnot, hblamed, (evaluate_unary hv).trans hfail⟩
    · exact .inr ⟨_, n, failure, hstop.lift (List.nil_append _).symm (by simp)
        (evaluate_unary_error hstop.evaluate_eq)⟩
  | binary l op r ihl ihr =>
    rcases ihl with ⟨⟨v, hv⟩, hleft⟩ | ⟨before, n, failure, hstop⟩
    · rcases ihr with ⟨⟨w, hw⟩, hright⟩ | ⟨before, n, failure, hstop⟩
      · have hoperands : ∀ n ∈ operations l ++ operations r, Accepted n := by
          intro n hn
          exact (List.mem_append.mp hn).elim (hleft n) (hright n)
        have hlast : operations (.binary l op r) =
            (operations l ++ operations r) ++ [.binary l op r] := (List.append_assoc ..).symm
        rcases applyBinary_cases op v w l r with ⟨haccepts, hu⟩ | ⟨hnot, failure, hblamed, hfail⟩
        · refine .inl ⟨(evaluate_binary hv hw) ▸ hu, ?_⟩
          intro n hn
          rw [hlast] at hn
          rcases List.mem_append.mp hn with hn | hn
          · exact hoperands n hn
          · rw [List.mem_singleton.mp hn]
            exact .binary hv hw haccepts
        · exact .inr ⟨_, .binary l op r, failure, hlast ▸ List.prefix_refl _, hoperands,
            .binary hv hw hnot, hblamed, (evaluate_binary hv hw).trans hfail⟩
      · -- All nodes of the left operand stand before those of the right one.
        exact .inr ⟨_, n, failure,
          hstop.lift rfl hleft (evaluate_right_error hv hstop.evaluate_eq)⟩
    · exact .inr ⟨_, n, failure, hstop.lift (List.nil_append _).symm (by simp)
        (evaluate_left_error hstop.evaluate_eq)⟩

/-- No other node is the first one that offends. -/
theorem StopsAt.unique {e n n' : Expr} {before before' after : List Expr} {failure : Failure}
    (h : StopsAt e before n failure) (hsplit : operations e = before' ++ n' :: after)
    (hbefore : ∀ m ∈ before', ¬ Offends m) (hn' : Offends n') : n' = n := by
  classical
  obtain ⟨rest, hrest⟩ := h.stands
  have hfind : (operations e).find? (fun m => decide (Offends m)) = some n := by
    apply List.find?_eq_some_iff_append.mpr
    refine ⟨by simpa using h.offends, before, rest, by simp [← hrest], ?_⟩
    intro m hm
    simpa using (h.accepted m hm).not_offends
  have hfind' : (operations e).find? (fun m => decide (Offends m)) = some n' := by
    apply List.find?_eq_some_iff_append.mpr
    refine ⟨by simpa using hn', before', after, hsplit, ?_⟩
    intro m hm
    simpa using hbefore m hm
  exact Option.some.inj (hfind'.symm.trans hfind)

theorem Blamed.unique {n : Expr} {failure failure' : Failure} (h : Blamed n failure)
    (h' : Blamed n failure') : failure = failure' := by
  cases h with
  | negation hop =>
    cases h' with
    | negation _ => rfl
    | foreignUnary hforeign => exact absurd hop (hforeign .minus (by decide))
  | foreignUnary hforeign =>
    cases h' with
    | negation hop => exact absurd hop (hforeign .minus (by decide))
    | foreignUnary _ => rfl
  | plus hop =>
    cases h' with
    | plus _ => rfl
    | numbers hop' ho =>
      cases hop.symm.trans hop'
      exact absurd ho (by decide)
    | foreignBinary hforeign => exact absurd hop (hforeign .plus (by decide))
  | numbers hop ho =>
    cases h' with
    | plus hop' =>
      cases hop.symm.trans hop'
      exact absurd ho (by decide)
    | numbers _ _ => rfl
    | foreignBinary hforeign =>
      exact absurd hop (hforeign _ (mem_binaryOperators_iff.mpr (.inr (.inr (.inr ho)))))
  | foreignBinary hforeign =>
    cases h' with
    | plus hop => exact absurd hop (hforeign .plus (by decide))
    | numbers hop ho =>
      exact absurd hop (hforeign _ (mem_binaryOperators_iff.mpr (.inr (.inr (.inr ho)))))
    | foreignBinary _ => rfl

/-- The failure of a tree is that of the first node that offends. -/
theorem evaluate_eq_error_iff {e : Expr} {failure : Failure} :
    e.evaluate = .error failure ↔ ∃ before n after, operations e = before ++ n :: after ∧
      (∀ m ∈ before, ¬ Offends m) ∧ Offends n ∧ Blamed n failure := by
  rcases evaluate_cases e with ⟨⟨v, hv⟩, haccepted⟩ | ⟨before, n, failure', hstop⟩
  · rw [hv]
    constructor
    · intro h
      cases h
    · rintro ⟨before, n, after, hsplit, _, hoffends, _⟩
      have hmem : n ∈ operations e := by simp [hsplit]
      exact absurd hoffends (haccepted n hmem).not_offends
  · constructor
    · intro h
      cases h.symm.trans hstop.evaluate_eq
      obtain ⟨after, hafter⟩ := hstop.stands
      exact ⟨before, n, after, by simp [← hafter],
        fun m hm => (hstop.accepted m hm).not_offends, hstop.offends, hstop.blamed⟩
    · rintro ⟨before', n', after, hsplit, hbefore, hoffends, hblamed⟩
      cases hstop.unique hsplit hbefore hoffends
      rw [hstop.evaluate_eq, hstop.blamed.unique hblamed]

/-- A tree has a value exactly if each operator accepts the values of its operands. Otherwise the
first node in post-order whose operator does not accept them decides: the tree fails with the
failure of this node, and so does every tree with the same nodes up to this one. -/
theorem first_offender_decides (e : Expr) :
    ((∃ v, e.evaluate = .ok v) ↔ ∀ n ∈ operations e, Accepted n) ∧
      (∀ failure, e.evaluate = .error failure ↔
        ∃ before n after, operations e = before ++ n :: after ∧ (∀ m ∈ before, ¬ Offends m) ∧
          Offends n ∧ Blamed n failure) ∧
      ∀ e' before n after after', operations e = before ++ n :: after →
        operations e' = before ++ n :: after' → (∀ m ∈ before, ¬ Offends m) → Offends n →
          e'.evaluate = e.evaluate := by
  refine ⟨?_, fun failure => evaluate_eq_error_iff, ?_⟩
  · rcases evaluate_cases e with ⟨hok, haccepted⟩ | ⟨before, n, failure, hstop⟩
    · exact ⟨fun _ => haccepted, fun _ => hok⟩
    · constructor
      · rintro ⟨v, hv⟩
        cases hv.symm.trans hstop.evaluate_eq
      · intro haccepted
        have hmem : n ∈ operations e := hstop.stands.subset (by simp)
        exact absurd hstop.offends (haccepted n hmem).not_offends
  · intro e' before n after after' hsplit hsplit' hbefore hoffends
    rcases evaluate_cases e with ⟨_, haccepted⟩ | ⟨first, n', failure, hstop⟩
    · have hmem : n ∈ operations e := by simp [hsplit]
      exact absurd hoffends (haccepted n hmem).not_offends
    · cases hstop.unique hsplit hbefore hoffends
      rw [hstop.evaluate_eq]
      exact evaluate_eq_error_iff.mpr
        ⟨before, n, after', hsplit', hbefore, hoffends, hstop.blamed⟩

-- An operand that fails hides that the token between the operands is no operator.
example : (Expr.binary (.unary ⟨.symbol .minus, "-", none, 1⟩ (.literal .nil)) (.endOfInput 2)
    (.literal .nil)).evaluate = .error (.mismatch ⟨.notNumber, ⟨.symbol .minus, "-", none, 1⟩⟩) :=
  rfl

end FirstFailure

end Reckoner
