import Reckoner.Proofs.FirstFailure

/-!
The nodes that evaluation enters. Evaluation enters a node before the parts of the node, but it
decides on a node only after them. If an operator does not accept its operands, evaluation has
entered the nodes in pre-order up to the last one below this operator, and it enters no other node.
-/

namespace Reckoner

namespace Expr

/-- The nodes in pre-order, the left operand before the right one. -/
def nodes (e : Expr) : List Expr := e.outline.map Prod.snd

@[simp]
theorem nodes_literal (v : Value) : (literal v).nodes = [literal v] := rfl

@[simp]
theorem nodes_group (e : Expr) : (group e).nodes = group e :: e.nodes :=
  congrArg _ (map_snd_outlineFrom 1 0 e)

@[simp]
theorem nodes_unary (op : Token) (e : Expr) : (unary op e).nodes = unary op e :: e.nodes :=
  congrArg _ (map_snd_outlineFrom 1 0 e)

@[simp]
theorem nodes_binary (l r : Expr) (op : Token) :
    (binary l op r).nodes = binary l op r :: (l.nodes ++ r.nodes) := by
  simp only [nodes, outline, outlineFrom, List.map_cons, List.map_append, map_snd_outlineFrom 1 0]

theorem self_mem_nodes (e : Expr) : e ∈ e.nodes := by
  cases e <;> simp

theorem mem_nodes_of_mem_operations {e n : Expr} (hn : n ∈ FirstFailure.operations e) :
    n ∈ e.nodes := by
  induction e with
  | literal v => simp [FirstFailure.operations] at hn
  | group e ih => exact nodes_group e ▸ List.mem_cons_of_mem _ (ih hn)
  | unary op e ih =>
    simp only [FirstFailure.operations, List.mem_append, List.mem_singleton] at hn
    rcases hn with hn | rfl
    · exact nodes_unary op e ▸ List.mem_cons_of_mem _ (ih hn)
    · exact self_mem_nodes _
  | binary l op r ihl ihr =>
    simp only [FirstFailure.operations, List.mem_append, List.mem_singleton] at hn
    rcases hn with hn | hn | rfl
    · simp [ihl hn]
    · simp [ihr hn]
    · exact self_mem_nodes _

/-- A tree that has a value is entered as a whole. -/
theorem entered_eq_nodes {e : Expr} {v : Value} (h : e.evaluate = .ok v) : e.entered = e.nodes := by
  induction e generalizing v with
  | literal v => rfl
  | group e ih => rw [entered, nodes_group, ih h]
  | unary op e ih =>
    cases he : e.evaluate with
    | error failure => cases (FirstFailure.evaluate_unary_error he).symm.trans h
    | ok w => rw [entered, nodes_unary, ih he]
  | binary l op r ihl ihr =>
    cases hl : l.evaluate with
    | error failure => cases (FirstFailure.evaluate_left_error hl).symm.trans h
    | ok v =>
      cases hr : r.evaluate with
      | error failure => cases (FirstFailure.evaluate_right_error hl hr).symm.trans h
      | ok w => simp only [entered, hl, nodes_binary, ihl hl, ihr hr]

end Expr

namespace Traversal

open Reckoner.Expr
open FirstFailure (operations Offends Blamed)

/-- The operator nodes in post-order, each with the number of nodes before it in pre-order, if `i`
nodes stand before the tree. -/
def placesFrom (i : Nat) : Expr → List (Nat × Expr)
  | .literal _ => []
  | .group e => placesFrom (i + 1) e
  | .unary op e => placesFrom (i + 1) e ++ [(i, .unary op e)]
  | .binary l op r =>
    placesFrom (i + 1) l ++ (placesFrom (i + 1 + l.nodes.length) r ++ [(i, .binary l op r)])

def places (e : Expr) : List (Nat × Expr) := placesFrom 0 e

theorem map_snd_placesFrom (i : Nat) (e : Expr) :
    (placesFrom i e).map Prod.snd = operations e := by
  induction e generalizing i with
  | literal v => rfl
  | group e ih => exact ih _
  | unary op e ih =>
    rw [placesFrom, List.map_append, ih, operations]
    rfl
  | binary l op r ihl ihr =>
    rw [placesFrom, List.map_append, List.map_append, ihl, ihr, operations]
    rfl

/-- Evaluation succeeds exactly if no operator node offends. -/
theorem evaluate_ok_iff (i : Nat) (e : Expr) :
    (∃ v, e.evaluate = .ok v) ↔ ∀ m ∈ placesFrom i e, ¬ Offends m.2 := by
  have hmem : (∀ m ∈ placesFrom i e, ¬ Offends m.2) ↔ ∀ n ∈ operations e, ¬ Offends n := by
    rw [← map_snd_placesFrom i e, List.forall_mem_map]
  rw [hmem]
  rcases FirstFailure.evaluate_cases e with ⟨hok, haccepted⟩ | ⟨before, n, failure, hstop⟩
  · exact ⟨fun _ n hn => (haccepted n hn).not_offends, fun _ => hok⟩
  · constructor
    · rintro ⟨v, hv⟩
      cases hv.symm.trans hstop.evaluate_eq
    · intro hnone
      exact absurd hstop.offends (hnone n (hstop.stands.subset (by simp)))

/-- The first in a row of placed nodes whose operator does not accept its operands. -/
def FirstOffender (ms : List (Nat × Expr)) (m : Nat × Expr) : Prop :=
  ∃ before after, ms = before ++ m :: after ∧ (∀ x ∈ before, ¬ Offends x.2) ∧ Offends m.2

theorem firstOffender_iff_find? {ms : List (Nat × Expr)} {m : Nat × Expr}
    [DecidablePred fun m : Nat × Expr => Offends m.2] :
    FirstOffender ms m ↔ ms.find? (fun m => decide (Offends m.2)) = some m := by
  rw [List.find?_eq_some_iff_append]
  simp only [FirstOffender, decide_eq_true_eq, Bool.not_eq_true', decide_eq_false_iff_not]
  constructor
  · rintro ⟨before, after, hms, hbefore, hm⟩
    exact ⟨hm, before, after, hms, hbefore⟩
  · rintro ⟨hm, before, after, hms, hbefore⟩
    exact ⟨before, after, hms, hbefore, hm⟩

theorem firstOffender_append {ms ms' : List (Nat × Expr)} {m : Nat × Expr} :
    FirstOffender (ms ++ ms') m ↔
      FirstOffender ms m ∨ (∀ x ∈ ms, ¬ Offends x.2) ∧ FirstOffender ms' m := by
  classical
  rw [firstOffender_iff_find?, firstOffender_iff_find?, firstOffender_iff_find?, List.find?_append,
    Option.or_eq_some_iff, List.find?_eq_none]
  simp only [decide_eq_true_eq]

theorem firstOffender_singleton {x m : Nat × Expr} :
    FirstOffender [x] m ↔ m = x ∧ Offends x.2 := by
  classical
  rw [firstOffender_iff_find?]
  by_cases hx : Offends x.2
  · simp [hx, eq_comm]
  · simp [hx]

theorem FirstOffender.exists_failure {i : Nat} {e : Expr} {m : Nat × Expr}
    (h : FirstOffender (placesFrom i e) m) : ∃ failure, e.evaluate = .error failure := by
  obtain ⟨before, after, hms, -, hm⟩ := h
  cases he : e.evaluate with
  | error failure => exact ⟨failure, rfl⟩
  | ok v =>
    have hmem : m ∈ placesFrom i e := by simp [hms]
    exact absurd hm ((evaluate_ok_iff i e).mp ⟨v, he⟩ m hmem)

/-- The subtree `n` stands at place `j` of a tree that has `i` nodes before it, and evaluation of
the tree enters the nodes before `n` and those of `n`. -/
def CutBehind (i : Nat) (e : Expr) (j : Nat) (n : Expr) : Prop :=
  ∃ first rest, e.nodes = first ++ (n.nodes ++ rest) ∧ j = i + first.length ∧
    e.entered = first ++ n.nodes

/-- What is cut off in a part of a tree is cut off in the tree, if nothing behind the part is
entered. -/
theorem CutBehind.lift {i j : Nat} {e whole n : Expr} (front back : List Expr)
    (h : CutBehind (i + front.length) e j n) (hnodes : whole.nodes = front ++ (e.nodes ++ back))
    (hentered : whole.entered = front ++ e.entered) : CutBehind i whole j n := by
  obtain ⟨first, rest, hfirst, hj, hcut⟩ := h
  refine ⟨front ++ first, rest ++ back, ?_, ?_, ?_⟩
  · simp only [hnodes, hfirst, List.append_assoc]
  · rw [hj, List.length_append, Nat.add_assoc]
  · rw [hentered, hcut, List.append_assoc]

theorem cutBehind_self {i : Nat} {e : Expr} (h : e.entered = e.nodes) : CutBehind i e i e :=
  ⟨[], [], (List.append_nil _).symm, rfl, h⟩

/-- Evaluation is cut off behind the subtree of the first offender. -/
theorem FirstOffender.cutBehind {i j : Nat} {e n : Expr}
    (h : FirstOffender (placesFrom i e) (j, n)) : CutBehind i e j n := by
  induction e generalizing i with
  | literal v =>
    obtain ⟨before, after, hms, -⟩ := h
    simp [placesFrom] at hms
  | group e ih => exact .lift [.group e] [] (ih h) (by simp) rfl
  | unary op e ih =>
    rcases firstOffender_append.mp h with h | ⟨-, h⟩
    · exact .lift [.unary op e] [] (ih h) (by simp) rfl
    · obtain ⟨hown, hoffends⟩ := firstOffender_singleton.mp h
      cases hown
      cases hoffends with
      | unary hv _ => exact cutBehind_self (by rw [entered, entered_eq_nodes hv, nodes_unary])
  | binary l op r ihl ihr =>
    rcases firstOffender_append.mp h with h | ⟨hleft, h⟩
    · -- The right operand is not entered, for the left one has no value.
      obtain ⟨failure, hl⟩ := h.exists_failure
      exact .lift [.binary l op r] r.nodes (ihl h) (by simp) (by simp [entered, hl])
    obtain ⟨v, hv⟩ := (evaluate_ok_iff _ l).mpr hleft
    rcases firstOffender_append.mp h with h | ⟨-, h⟩
    · have hplace : i + 1 + l.nodes.length = i + (Expr.binary l op r :: l.nodes).length := by
        rw [List.length_cons]
        omega
      exact .lift (.binary l op r :: l.nodes) [] (hplace ▸ ihr h) (by simp)
        (by simp [entered, hv, entered_eq_nodes hv])
    · obtain ⟨hown, hoffends⟩ := firstOffender_singleton.mp h
      cases hown
      cases hoffends with
      | binary hv hw _ =>
        exact cutBehind_self (by
          simp only [entered, hv, entered_eq_nodes hv, entered_eq_nodes hw, nodes_binary])

/-- A failure cuts the pre-order off behind the subtree of the node that is to blame for it. -/
theorem entered_of_evaluate_error {e : Expr} {failure : Failure}
    (h : e.evaluate = .error failure) : ∃ j n first rest, FirstOffender (places e) (j, n) ∧
      Blamed n failure ∧ e.nodes = first ++ (n.nodes ++ rest) ∧ first.length = j ∧
        e.entered = first ++ n.nodes := by
  obtain ⟨before, n, after, hsplit, hbefore, hoffends, hblamed⟩ :=
    FirstFailure.evaluate_eq_error_iff.mp h
  rw [← map_snd_placesFrom 0 e, List.map_eq_append_iff] at hsplit
  obtain ⟨placed, placed', hplaces, rfl, hplaced'⟩ := hsplit
  obtain ⟨⟨j, n⟩, after', rfl, rfl, -⟩ := List.map_eq_cons_iff.mp hplaced'
  have hfirst : FirstOffender (places e) (j, n) :=
    ⟨placed, after', hplaces, fun x hx => hbefore x.2 (List.mem_map_of_mem hx), hoffends⟩
  obtain ⟨first, rest, hnodes, hj, hentered⟩ := hfirst.cutBehind
  exact ⟨j, n, first, rest, hfirst, hblamed, hnodes, by rw [hj, Nat.zero_add], hentered⟩

end Traversal

end Reckoner
