import Mathlib.Logic.Function.Iterate
import Reckoner.Proofs.DataIndependence

/-!
The kinds of results. Only booleans come from operands of other kinds, and no operator takes a
boolean back to another kind. A tree has a number, a string or nil for its value exactly if its
literals are all of this kind and its operators keep to it, which the tree shows without being
evaluated. Such a tree always has a value, and a string is the literals of its tree one after
another.
-/

namespace Reckoner.ResultKinds

open Reckoner.Expr (applyUnary applyBinary evaluate numeric?)
open DataIndependence (keepsKind kind_applyUnary kind_applyBinary)
open FirstFailure (AcceptsOne AcceptsTwo numberOperators applyUnary_cases applyBinary_cases
  evaluate_unary evaluate_binary evaluate_unary_error evaluate_left_error evaluate_right_error
  kind_eq_number_iff kind_eq_string_iff)

/-- The prefixes that take an operand of the kind to a value of this kind, and no other operand to
such a value. -/
def ownPrefixes : ValueKind → List Symbol
  | .number => [.minus]
  | _ => []

/-- The operators that take two operands of the kind to a value of this kind, and no others to such
a value. -/
def ownOperators : ValueKind → List Symbol
  | .number => [.plus, .minus, .star, .slash]
  | .string => [.plus]
  | _ => []

/-- The trees whose literals are all of one kind and whose operators keep to this kind. -/
inductive Uniform (k : ValueKind) : Expr → Prop
  | literal {v : Value} (hv : v.kind = k) : Uniform k (.literal v)
  | group {e : Expr} (he : Uniform k e) : Uniform k (.group e)
  | unary {op : Token} {e : Expr} {o : Symbol} (hop : op.kind = .symbol o) (ho : o ∈ ownPrefixes k)
      (he : Uniform k e) : Uniform k (.unary op e)
  | binary {l r : Expr} {op : Token} {o : Symbol} (hop : op.kind = .symbol o)
      (ho : o ∈ ownOperators k) (hl : Uniform k l) (hr : Uniform k r) : Uniform k (.binary l op r)

/-- The string literals from left to right. -/
def strings : Expr → List String
  | .literal (.string s) => [s]
  | .literal _ => []
  | .group e => strings e
  | .unary _ e => strings e
  | .binary l _ r => strings l ++ strings r

theorem mem_ownOperators_of_keepsKind {o : Symbol} (ho : o ∈ numberOperators)
    (h : keepsKind (.symbol o) = true) : o ∈ ownOperators .number := by
  cases o <;> simp_all [numberOperators, keepsKind, ownOperators]

/-- A value that is no boolean comes from an operand of its own kind, by an operator of the kind. -/
theorem own_of_applyUnary {op : Token} {v u : Value} {k : ValueKind}
    (h : applyUnary op v = .ok u) (hu : u.kind = k) (hk : k ≠ .bool) :
    v.kind = k ∧ ∃ o ∈ ownPrefixes k, op.kind = .symbol o := by
  have hkind := kind_applyUnary h
  by_cases hop : op.kind = .symbol .minus
  · rw [if_pos hop, hu] at hkind
    subst hkind
    rcases applyUnary_cases op v (.literal v) with ⟨haccepts, -⟩ | ⟨-, failure, -, hfail⟩
    · rcases haccepts with hbang | ⟨-, hv⟩
      · cases hop.symm.trans hbang
      · exact ⟨hv, .minus, by decide, hop⟩
    · cases hfail.symm.trans h
  · rw [if_neg hop, hu] at hkind
    exact absurd hkind hk

theorem own_of_applyBinary {op : Token} {v w u : Value} {k : ValueKind}
    (h : applyBinary op v w = .ok u) (hu : u.kind = k) (hk : k ≠ .bool) :
    v.kind = k ∧ w.kind = k ∧ ∃ o ∈ ownOperators k, op.kind = .symbol o := by
  have hkind := kind_applyBinary h
  by_cases hkeeps : keepsKind op.kind = true
  · rw [if_pos hkeeps, hu] at hkind
    subst hkind
    rcases applyBinary_cases op v w (.literal v) (.literal w) with
      ⟨haccepts, -⟩ | ⟨-, failure, -, hfail⟩
    · rcases haccepts with hop | hop | ⟨hop, ⟨hv, hw⟩ | ⟨hv, hw⟩⟩ | ⟨⟨o, ho, hop⟩, hv, hw⟩
      · rw [hop] at hkeeps
        cases hkeeps
      · rw [hop] at hkeeps
        cases hkeeps
      · rw [hv]
        exact ⟨rfl, hw, .plus, by decide, hop⟩
      · rw [hv]
        exact ⟨rfl, hw, .plus, by decide, hop⟩
      · rw [hv]
        rw [hop] at hkeeps
        exact ⟨rfl, hw, o, mem_ownOperators_of_keepsKind ho hkeeps, hop⟩
    · cases hfail.symm.trans h
  · rw [if_neg hkeeps, hu] at hkind
    exact absurd hkind hk

/-- A value that is no boolean tells of which literals and operators its tree is made. -/
theorem uniform_of_evaluate {e : Expr} {u : Value} {k : ValueKind} (h : e.evaluate = .ok u)
    (hu : u.kind = k) (hk : k ≠ .bool) : Uniform k e := by
  induction e generalizing u with
  | literal v =>
    cases h
    exact .literal hu
  | group e ih => exact .group (ih h hu)
  | unary op e ih =>
    cases he : e.evaluate with
    | error failure => cases (evaluate_unary_error he).symm.trans h
    | ok v =>
      rw [evaluate_unary he] at h
      obtain ⟨hv, o, ho, hop⟩ := own_of_applyUnary h hu hk
      exact .unary hop ho (ih he hv)
  | binary l op r ihl ihr =>
    cases hl : l.evaluate with
    | error failure => cases (evaluate_left_error hl).symm.trans h
    | ok v =>
      cases hr : r.evaluate with
      | error failure => cases (evaluate_right_error hl hr).symm.trans h
      | ok w =>
        rw [evaluate_binary hl hr] at h
        obtain ⟨hv, hw, o, ho, hop⟩ := own_of_applyBinary h hu hk
        exact .binary hop ho (ihl hl hv) (ihr hr hw)

theorem applyUnary_of_own {op : Token} {v : Value} {o : Symbol} {k : ValueKind}
    (hop : op.kind = .symbol o) (ho : o ∈ ownPrefixes k) (hv : v.kind = k) :
    ∃ u, applyUnary op v = .ok u ∧ u.kind = k := by
  cases k with
  | number =>
    obtain ⟨x, rfl⟩ := kind_eq_number_iff.mp hv
    rw [List.mem_singleton.mp ho] at hop
    exact ⟨.number (-x), by simp only [applyUnary, hop], rfl⟩
  | string => cases ho
  | bool => cases ho
  | nil => cases ho

theorem applyBinary_of_own {op : Token} {v w : Value} {o : Symbol} {k : ValueKind}
    (hop : op.kind = .symbol o) (ho : o ∈ ownOperators k) (hv : v.kind = k) (hw : w.kind = k) :
    ∃ u, applyBinary op v w = .ok u ∧ u.kind = k := by
  cases k with
  | number =>
    obtain ⟨x, rfl⟩ := kind_eq_number_iff.mp hv
    obtain ⟨y, rfl⟩ := kind_eq_number_iff.mp hw
    simp only [ownOperators, List.mem_cons, List.not_mem_nil, or_false] at ho
    rcases ho with rfl | rfl | rfl | rfl
    · exact ⟨.number (x + y), by simp only [applyBinary, hop], rfl⟩
    · exact ⟨.number (x - y), by simp only [applyBinary, hop, numeric?], rfl⟩
    · exact ⟨.number (x * y), by simp only [applyBinary, hop, numeric?], rfl⟩
    · exact ⟨.number (x / y), by simp only [applyBinary, hop, numeric?], rfl⟩
  | string =>
    obtain ⟨s, rfl⟩ := kind_eq_string_iff.mp hv
    obtain ⟨t, rfl⟩ := kind_eq_string_iff.mp hw
    rw [List.mem_singleton.mp ho] at hop
    exact ⟨.string (s ++ t), by simp only [applyBinary, hop], rfl⟩
  | bool => cases ho
  | nil => cases ho

/-- A tree that keeps to a kind has a value of this kind, whatever its literals are. -/
theorem exists_evaluate_of_uniform {e : Expr} {k : ValueKind} (h : Uniform k e) :
    ∃ v, e.evaluate = .ok v ∧ v.kind = k := by
  induction h with
  | literal hv => exact ⟨_, rfl, hv⟩
  | group _ ih => exact ih
  | unary hop ho _ ih =>
    obtain ⟨v, he, hv⟩ := ih
    rw [evaluate_unary he]
    exact applyUnary_of_own hop ho hv
  | binary hop ho _ _ ihl ihr =>
    obtain ⟨v, hl, hv⟩ := ihl
    obtain ⟨w, hr, hw⟩ := ihr
    rw [evaluate_binary hl hr]
    exact applyBinary_of_own hop ho hv hw

theorem exists_evaluate_iff {e : Expr} {k : ValueKind} (hk : k ≠ .bool) :
    (∃ v, e.evaluate = .ok v ∧ v.kind = k) ↔ Uniform k e := by
  constructor
  · rintro ⟨v, hv, hkind⟩
    exact uniform_of_evaluate hv hkind hk
  · exact exists_evaluate_of_uniform

/-- The value of a tree of strings does not depend on how its operators are nested. -/
theorem evaluate_of_uniform_string {e : Expr} (h : Uniform .string e) :
    e.evaluate = .ok (.string (String.join (strings e))) := by
  induction h with
  | literal hv =>
    obtain ⟨s, rfl⟩ := kind_eq_string_iff.mp hv
    simp [evaluate, strings]
  | group _ ih => exact ih
  | unary _ ho _ _ => cases ho
  | binary hop ho _ _ ihl ihr =>
    rw [List.mem_singleton.mp ho] at hop
    rw [evaluate_binary ihl ihr, strings, String.join_append]
    simp only [applyBinary, hop]

theorem uniform_nil_iff {e : Expr} :
    Uniform .nil e ↔ ∃ n, e = Nat.iterate Expr.group n (.literal .nil) := by
  constructor
  · intro h
    induction h with
    | @literal v hv =>
      cases v with
      | nil => exact ⟨0, rfl⟩
      | _ => cases hv
    | group _ ih =>
      obtain ⟨n, rfl⟩ := ih
      exact ⟨n + 1, (Function.iterate_succ_apply' ..).symm⟩
    | unary _ ho _ _ => cases ho
    | binary _ ho _ _ _ _ => cases ho
  · rintro ⟨n, rfl⟩
    induction n with
    | zero => exact .literal rfl
    | succ n ih =>
      rw [Function.iterate_succ_apply']
      exact .group ih

/-- A tree has a number exactly if it is made of numbers, grouping, negation and the four arithmetic
operators, a string exactly if it is made of strings, grouping and plus, and nil exactly if it is a
nil literal in parentheses. A string is the literals of its tree from left to right. All other trees
have a boolean or fail. -/
theorem kinds_from_syntax (e : Expr) :
    ((∃ x, e.evaluate = .ok (.number x)) ↔ Uniform .number e) ∧
      (∀ s, e.evaluate = .ok (.string s) ↔ Uniform .string e ∧ s = String.join (strings e)) ∧
      (e.evaluate = .ok .nil ↔ ∃ n, e = Nat.iterate Expr.group n (.literal .nil)) ∧
      (¬ Uniform .number e → ¬ Uniform .string e →
        (¬ ∃ n, e = Nat.iterate Expr.group n (.literal .nil)) →
        (∃ b, e.evaluate = .ok (.bool b)) ∨ ∃ failure, e.evaluate = .error failure) := by
  refine ⟨?_, fun s => ?_, ?_, fun hnumber hstring hnil => ?_⟩
  · rw [← exists_evaluate_iff (by decide)]
    simp only [kind_eq_number_iff]
    constructor
    · rintro ⟨x, hx⟩
      exact ⟨_, hx, x, rfl⟩
    · rintro ⟨v, hv, x, rfl⟩
      exact ⟨x, hv⟩
  · constructor
    · intro h
      have huniform : Uniform .string e := uniform_of_evaluate h rfl (by decide)
      refine ⟨huniform, ?_⟩
      cases h.symm.trans (evaluate_of_uniform_string huniform)
      rfl
    · rintro ⟨huniform, rfl⟩
      exact evaluate_of_uniform_string huniform
  · rw [← uniform_nil_iff]
    constructor
    · intro h
      exact uniform_of_evaluate h rfl (by decide)
    · intro h
      obtain ⟨v, hv, hkind⟩ := exists_evaluate_of_uniform h
      cases v with
      | nil => exact hv
      | _ => cases hkind
  · cases h : e.evaluate with
    | error failure => exact .inr ⟨failure, rfl⟩
    | ok v =>
      rw [← uniform_nil_iff] at hnil
      cases v with
      | number x => exact (hnumber (uniform_of_evaluate h rfl (by decide))).elim
      | string s => exact (hstring (uniform_of_evaluate h rfl (by decide))).elim
      | bool b => exact .inl ⟨b, rfl⟩
      | nil => exact (hnil (uniform_of_evaluate h rfl (by decide))).elim

end Reckoner.ResultKinds
