import Reckoner.Proofs.FirstFailure

/-!
Evaluation and the data in a tree. Operators accept or refuse their operands by the kinds of these
alone, and the kind of a result follows from the operator and the kinds of its operands. Two trees
that differ only in the data of their literals therefore have values of one kind, or they fail in
the same way at the same operator.
-/

namespace Reckoner.DataIndependence

open Reckoner.Expr (applyUnary applyBinary numeric?)
open FirstFailure (Blamed applyUnary_cases applyBinary_cases)

/-- Trees of one shape with the same operators and with literals of the same kinds. -/
inductive SameForm : Expr → Expr → Prop
  | literal {v w : Value} (h : v.kind = w.kind) : SameForm (.literal v) (.literal w)
  | group {e e' : Expr} (h : SameForm e e') : SameForm (.group e) (.group e')
  | unary (op : Token) {e e' : Expr} (h : SameForm e e') :
      SameForm (.unary op e) (.unary op e')
  | binary (op : Token) {l l' r r' : Expr} (hl : SameForm l l') (hr : SameForm r r') :
      SameForm (.binary l op r) (.binary l' op r')

/-- Results that are values of one kind, or one and the same failure. -/
inductive Agree : Result → Result → Prop
  | value {v w : Value} (h : v.kind = w.kind) : Agree (.ok v) (.ok w)
  | mismatch (e : RuntimeError) : Agree (.error (.mismatch e)) (.error (.mismatch e))
  | foreign (o : ForeignOperator) : Agree (.error (.foreign o)) (.error (.foreign o))

theorem Agree.failure (failure : Failure) : Agree (.error failure) (.error failure) := by
  cases failure with
  | mismatch e => exact .mismatch e
  | foreign o => exact .foreign o

/-- The operators between two operands whose result is of the kind of its operands. -/
def keepsKind : TokenKind → Bool
  | .symbol .plus | .symbol .minus | .symbol .slash | .symbol .star => true
  | _ => false

theorem kind_applyUnary {op : Token} {v u : Value} (h : applyUnary op v = .ok u) :
    u.kind = if op.kind = .symbol .minus then .number else .bool := by
  unfold applyUnary at h
  split at h
  · next hop =>
    cases h
    rw [hop]
    rfl
  · next hop =>
    split at h
    · cases h
      rw [if_pos hop]
      rfl
    · cases h
  · cases h

/-- What a numeric operator computes is a number, or it is a boolean whatever the operands are. -/
theorem kind_compute {o : Symbol} {compute : Float → Float → Value}
    (h : numeric? o = some compute) (x y : Float) :
    (compute x y).kind = if keepsKind (.symbol o) then .number else .bool := by
  unfold numeric? at h
  split at h <;> cases h <;> rfl

theorem kind_applyBinary {op : Token} {v w u : Value} (h : applyBinary op v w = .ok u) :
    u.kind = if keepsKind op.kind then v.kind else .bool := by
  unfold applyBinary at h
  split at h
  · next hop =>
    cases h
    rw [hop]
    rfl
  · next hop =>
    cases h
    rw [hop]
    rfl
  · next hop =>
    rw [hop]
    split at h <;> cases h <;> rfl
  · next o _ _ _ hop =>
    rw [hop]
    split at h
    · cases h
    · next compute hcompute =>
      split at h
      · next x y =>
        cases h
        exact kind_compute hcompute x y
      · cases h
  · cases h

/-- Two results that hang on one condition agree, if a failure is that of one and the same node. -/
theorem agree_of_condition {accepts : Prop} {n : Expr} {a b : Result}
    (ha : (accepts ∧ ∃ u, a = .ok u) ∨ ¬ accepts ∧ ∃ failure, Blamed n failure ∧ a = .error failure)
    (hb : (accepts ∧ ∃ u, b = .ok u) ∨ ¬ accepts ∧ ∃ failure, Blamed n failure ∧ b = .error failure)
    (hkind : ∀ u u', a = .ok u → b = .ok u' → u.kind = u'.kind) : Agree a b := by
  rcases ha with ⟨haccepts, u, hu⟩ | ⟨hnot, failure, hblamed, hfail⟩
  · rcases hb with ⟨_, u', hu'⟩ | ⟨hnot, _⟩
    · rw [hu, hu']
      exact .value (hkind u u' hu hu')
    · exact absurd haccepts hnot
  · rcases hb with ⟨haccepts, _⟩ | ⟨_, failure', hblamed', hfail'⟩
    · exact absurd haccepts hnot
    · rw [hfail, hfail', hblamed.unique hblamed']
      exact .failure failure'

-- A failure of an operator is known from its token, so its node may hold any operands below.

theorem agree_applyUnary (op : Token) {v v' : Value} (hv : v.kind = v'.kind) :
    Agree (applyUnary op v) (applyUnary op v') := by
  have hcases := applyUnary_cases op v (.literal .nil)
  have hcases' := applyUnary_cases op v' (.literal .nil)
  rw [← hv] at hcases'
  refine agree_of_condition hcases hcases' fun u u' hu hu' => ?_
  rw [kind_applyUnary hu, kind_applyUnary hu']

theorem agree_applyBinary (op : Token) {v v' w w' : Value} (hv : v.kind = v'.kind)
    (hw : w.kind = w'.kind) : Agree (applyBinary op v w) (applyBinary op v' w') := by
  have hcases := applyBinary_cases op v w (.literal .nil) (.literal .nil)
  have hcases' := applyBinary_cases op v' w' (.literal .nil) (.literal .nil)
  rw [← hv, ← hw] at hcases'
  refine agree_of_condition hcases hcases' fun u u' hu hu' => ?_
  rw [kind_applyBinary hu, kind_applyBinary hu', hv]

/-- Results that agree go on to results that agree, if values of one kind do. -/
theorem Agree.bind {a b : Result} {f g : Value → Result} (h : Agree a b)
    (hvalue : ∀ v w, v.kind = w.kind → Agree (f v) (g w)) : Agree (a >>= f) (b >>= g) := by
  cases h with
  | value hkind => exact hvalue _ _ hkind
  | mismatch e => exact .mismatch e
  | foreign o => exact .foreign o

/-- The data of literals does not decide whether a tree has a value, of which kind it is, and where
and how evaluation fails. -/
theorem data_never_decides {e e' : Expr} (h : SameForm e e') : Agree e.evaluate e'.evaluate := by
  induction h with
  | literal hkind => exact .value hkind
  | group _ ih => exact ih
  | unary op _ ih => exact ih.bind fun _ _ hv => agree_applyUnary op hv
  | binary op _ _ ihl ihr =>
    refine ihl.bind fun v v' hv => ?_
    exact ihr.bind fun w w' hw => agree_applyBinary op hv hw

/-- A sum of a quotient and a string fails at the plus, be the quotient infinite or no number. -/
theorem data_never_decides_quotient :
    let plus : Token := ⟨.symbol .plus, "+", none, 1⟩
    let quotient : Float → Float → Expr := fun x y =>
      .binary (.literal (.number x)) ⟨.symbol .slash, "/", none, 1⟩ (.literal (.number y))
    let e : Expr := .binary (.group (quotient 1 0)) plus (.literal (.string ""))
    let e' : Expr := .binary (.group (quotient 0 0)) plus (.literal (.string "nil"))
    SameForm e e' ∧ e.evaluate = .error (.mismatch ⟨.notNumbersOrStrings, plus⟩) ∧
      e'.evaluate = .error (.mismatch ⟨.notNumbersOrStrings, plus⟩) := by
  intro plus quotient e e'
  have hquotient : SameForm (quotient 1 0) (quotient 0 0) := .binary _ (.literal rfl) (.literal rfl)
  have hform : SameForm e e' := .binary plus (.group hquotient) (.literal rfl)
  have hfail : e.evaluate = .error (.mismatch ⟨.notNumbersOrStrings, plus⟩) := rfl
  refine ⟨hform, hfail, ?_⟩
  have hagree := data_never_decides hform
  rw [hfail] at hagree
  generalize e'.evaluate = result at hagree
  cases hagree
  rfl

end Reckoner.DataIndependence
