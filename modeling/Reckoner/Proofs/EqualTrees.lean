import Reckoner.Proofs.ChangedLines
import Reckoner.Proofs.DataIndependence
import Reckoner.Proofs.EqualValues

/-!
Equality of trees. Trees are equal if they have one shape and equal values and tokens stand at the
same places. As the two zeros are equal, equal trees can differ, but they are written alike, and
their evaluation takes the same way: to values of one kind or to the same fault at the same line. A
tree that holds NaN anywhere, even in the token of an operator, differs from itself.
-/

namespace Reckoner

open DataIndependence (Agree agree_applyUnary agree_applyBinary)

namespace Token

/-- The value of the literal, and `nil` if there is none. -/
def literalValue (t : Token) : Value :=
  match t.literal with
  | some l => l.value
  | none => .nil

/-- That the literal of the token is NaN. -/
def isNaN (t : Token) : Bool := t.literalValue.isNaN

theorem literal_beq_literal (t u : Token) :
    (t.literal == u.literal) = (t.literalValue == u.literalValue) := by
  unfold literalValue
  cases t.literal with
  | none =>
    cases u.literal with
    | none => rfl
    | some b => cases b <;> rfl
  | some a =>
    cases u.literal with
    | none => cases a <;> rfl
    | some b => cases a <;> cases b <;> rfl

theorem beq_iff {t u : Token} : (t == u) = true ↔ t.kind = u.kind ∧ t.lexeme = u.lexeme ∧
    (t.literalValue == u.literalValue) = true ∧ t.line = u.line := by
  have hparts : (t == u) = (t.kind == u.kind &&
      (t.lexeme == u.lexeme && (t.literal == u.literal && t.line == u.line))) := rfl
  simp [hparts, literal_beq_literal]

instance : PartialEquivBEq Token where
  symm h := by
    obtain ⟨hkind, hlexeme, hvalue, hline⟩ := beq_iff.mp h
    exact beq_iff.mpr ⟨hkind.symm, hlexeme.symm, BEq.symm hvalue, hline.symm⟩
  trans h h' := by
    obtain ⟨hkind, hlexeme, hvalue, hline⟩ := beq_iff.mp h
    obtain ⟨hkind', hlexeme', hvalue', hline'⟩ := beq_iff.mp h'
    exact beq_iff.mpr ⟨hkind.trans hkind', hlexeme.trans hlexeme', BEq.trans hvalue hvalue',
      hline.trans hline'⟩

theorem beq_self_iff {t : Token} : (t == t) = true ↔ t.isNaN = false := by
  simp [beq_iff, isNaN, Value.beq_self_iff]

end Token

/-- Results that are values of one kind, or the same fault of operands at operators of one line, or
the same token in the place of an operator. -/
inductive SameOutcome : Result → Result → Prop
  | value {v w : Value} (h : v.kind = w.kind) : SameOutcome (.ok v) (.ok w)
  | mismatch (fault : OperandFault) {op op' : Token} (h : op.line = op'.line) :
      SameOutcome (.error (.mismatch ⟨fault, op⟩)) (.error (.mismatch ⟨fault, op'⟩))
  | foreign (o : ForeignOperator) : SameOutcome (.error (.foreign o)) (.error (.foreign o))

namespace SameOutcome

theorem of_agree {a b : Result} {op op' : Token} (hline : op.line = op'.line) (h : Agree a b) :
    SameOutcome (a.mapError (Failure.moveTo op)) (b.mapError (Failure.moveTo op')) := by
  cases h with
  | value hkind => exact .value hkind
  | mismatch e => exact .mismatch e.fault hline
  | foreign o => exact .foreign o

/-- Results of one outcome go on to results of one outcome, if values of one kind do. -/
theorem bind {a b : Result} {f g : Value → Result} (h : SameOutcome a b)
    (hvalue : ∀ v w, v.kind = w.kind → SameOutcome (f v) (g w)) :
    SameOutcome (a >>= f) (b >>= g) := by
  cases h with
  | value hkind => exact hvalue _ _ hkind
  | mismatch fault hline => exact .mismatch fault hline
  | foreign o => exact .foreign o

theorem applyUnary {op op' : Token} {v v' : Value} (hop : op == op') (hv : v.kind = v'.kind) :
    SameOutcome (Expr.applyUnary op v) (Expr.applyUnary op' v') := by
  obtain ⟨hkind, -, -, hline⟩ := Token.beq_iff.mp hop
  -- Equal tokens can carry different zeros, so a failure is compared after it is moved to each.
  rw [Expr.applyUnary_moveTo (rfl : op.kind = op.kind), Expr.applyUnary_moveTo hkind v']
  exact of_agree hline (agree_applyUnary op hv)

theorem applyBinary {op op' : Token} {v v' w w' : Value} (hop : op == op')
    (hv : v.kind = v'.kind) (hw : w.kind = w'.kind) :
    SameOutcome (Expr.applyBinary op v w) (Expr.applyBinary op' v' w') := by
  obtain ⟨hkind, -, -, hline⟩ := Token.beq_iff.mp hop
  rw [Expr.applyBinary_moveTo (rfl : op.kind = op.kind), Expr.applyBinary_moveTo hkind v' w']
  exact of_agree hline (agree_applyBinary op hv hw)

end SameOutcome

namespace Expr

/-- That NaN stands in the tree, as a value or as the literal of an operator. -/
def holdsNaN : Expr → Bool
  | literal v => v.isNaN
  | group e => e.holdsNaN
  | unary op e => op.isNaN || e.holdsNaN
  | binary l op r => l.holdsNaN || op.isNaN || r.holdsNaN

/-- Trees of one shape with equal values and tokens. -/
inductive Equal : Expr → Expr → Prop
  | literal {v w : Value} (h : v == w) : Equal (.literal v) (.literal w)
  | group {e e' : Expr} (h : Equal e e') : Equal (.group e) (.group e')
  | unary {op op' : Token} {e e' : Expr} (hop : op == op') (h : Equal e e') :
      Equal (.unary op e) (.unary op' e')
  | binary {l l' r r' : Expr} {op op' : Token} (hl : Equal l l') (hop : op == op')
      (hr : Equal r r') : Equal (.binary l op r) (.binary l' op' r')

theorem equal_of_beq {e e' : Expr} (h : e == e') : Equal e e' := by
  induction e generalizing e' with
  | literal v =>
    cases e' with
    | literal w => exact .literal h
    | _ => cases h
  | group e ih =>
    cases e' with
    | group e' => exact .group (ih h)
    | _ => cases h
  | unary op e ih =>
    cases e' with
    | unary op' e' =>
      obtain ⟨hop, he⟩ := Bool.and_eq_true_iff.mp h
      exact .unary hop (ih he)
    | _ => cases h
  | binary l op r ihl ihr =>
    cases e' with
    | binary l' op' r' =>
      obtain ⟨hl, hrest⟩ := Bool.and_eq_true_iff.mp h
      obtain ⟨hop, hr⟩ := Bool.and_eq_true_iff.mp hrest
      exact .binary (ihl hl) hop (ihr hr)
    | _ => cases h

theorem beq_of_equal {e e' : Expr} (h : Equal e e') : e == e' := by
  induction h with
  | literal hv => exact hv
  | group _ ih => exact ih
  | unary hop _ ih => exact Bool.and_eq_true_iff.mpr ⟨hop, ih⟩
  | binary _ hop _ ihl ihr =>
    exact Bool.and_eq_true_iff.mpr ⟨ihl, Bool.and_eq_true_iff.mpr ⟨hop, ihr⟩⟩

namespace Equal

theorem symm {e e' : Expr} (h : Equal e e') : Equal e' e := by
  induction h with
  | literal hv => exact .literal (BEq.symm hv)
  | group _ ih => exact .group ih
  | unary hop _ ih => exact .unary (BEq.symm hop) ih
  | binary _ hop _ ihl ihr => exact .binary ihl (BEq.symm hop) ihr

theorem trans {e e' e'' : Expr} (h : Equal e e') (h' : Equal e' e'') : Equal e e'' := by
  induction h generalizing e'' with
  | literal hv =>
    cases h' with
    | literal hv' => exact .literal (BEq.trans hv hv')
  | group _ ih =>
    cases h' with
    | group h' => exact .group (ih h')
  | unary hop _ ih =>
    cases h' with
    | unary hop' h' => exact .unary (BEq.trans hop hop') (ih h')
  | binary _ hop _ ihl ihr =>
    cases h' with
    | binary hl' hop' hr' => exact .binary (ihl hl') (BEq.trans hop hop') (ihr hr')

theorem text_eq {e e' : Expr} (h : Equal e e') : e.text = e'.text := by
  induction h with
  | literal hv => exact (Value.beq_iff_alike.mp hv).text
  | group _ ih => simp only [text, ih]
  | unary hop _ ih => simp only [text, ih, (Token.beq_iff.mp hop).2.1]
  | binary _ hop _ ihl ihr => simp only [text, ihl, ihr, (Token.beq_iff.mp hop).2.1]

theorem sameOutcome {e e' : Expr} (h : Equal e e') : SameOutcome e.evaluate e'.evaluate := by
  induction h with
  | literal hv => exact .value (Value.beq_iff_alike.mp hv).kind
  | group _ ih => exact ih
  | unary hop _ ih => exact ih.bind fun _ _ hv => .applyUnary hop hv
  | binary _ hop _ ihl ihr =>
    exact ihl.bind fun _ _ hv => ihr.bind fun _ _ hw => .applyBinary hop hv hw

end Equal

theorem beq_self_iff {e : Expr} : (e == e) = true ↔ e.holdsNaN = false := by
  induction e with
  | literal v => exact Value.beq_self_iff
  | group e ih => exact ih
  | unary op e ih =>
    have hparts : (unary op e == unary op e) = (op == op && e == e) := rfl
    rw [hparts, Bool.and_eq_true_iff, Token.beq_self_iff, ih, holdsNaN, Bool.or_eq_false_iff]
  | binary l op r ihl ihr =>
    have hparts : (binary l op r == binary l op r) = (l == l && (op == op && r == r)) := rfl
    rw [hparts, Bool.and_eq_true_iff, Bool.and_eq_true_iff, Token.beq_self_iff, ihl, ihr, holdsNaN,
      Bool.or_eq_false_iff, Bool.or_eq_false_iff, and_assoc]

/-- Equality of trees is symmetric and transitive, and the trees that differ from themselves are
those that hold NaN. Equal trees have the same canonical form, and both have a value, of one kind,
or both fail, with the same fault at the same line, or in both a token is no operator. -/
theorem equal_trees_share_form_and_outcome :
    (∀ e e' : Expr, e == e' → e' == e) ∧
    (∀ e e' e'' : Expr, e == e' → e' == e'' → e == e'') ∧
    (∀ e : Expr, e == e ↔ e.holdsNaN = false) ∧
    ∀ e e' : Expr, e == e' → e.text = e'.text ∧ SameOutcome e.evaluate e'.evaluate := by
  refine ⟨fun e e' h => beq_of_equal (equal_of_beq h).symm, fun e e' e'' h h' =>
    beq_of_equal ((equal_of_beq h).trans (equal_of_beq h')), fun e => beq_self_iff, ?_⟩
  intro e e' h
  have hequal := equal_of_beq h
  exact ⟨hequal.text_eq, hequal.sameOutcome⟩

/-- Quotients by the two zeros are equal trees, but one is infinite and the other one its negative.
An operator whose token carries NaN makes its tree differ from itself. -/
theorem equal_trees_share_form_and_outcome_quotients :
    let slash (x : Float) : Token := ⟨.symbol .slash, "/", some (.number x), 3⟩
    let quotient (x : Float) : Expr := .binary (.literal (.number 1)) (slash x) (.literal (.number x))
    let carrier : Expr := .binary (.literal .nil) (slash (0 / 0)) (.literal .nil)
    (quotient 0 == quotient (-0)) ∧ (quotient (-0) == quotient 0) ∧ (quotient 0 == quotient 0) ∧
      (quotient 0).text = (quotient (-0)).text ∧
      SameOutcome (quotient 0).evaluate (quotient (-0)).evaluate ∧
      (quotient 0).evaluate = .ok (.number (1 / 0)) ∧
      (quotient (-0)).evaluate = .ok (.number (1 / -0)) ∧ ((1 : Float) / 0 != 1 / -0) ∧
      ¬ (carrier == carrier) := by
  intro slash quotient carrier
  obtain ⟨hsymm, htrans, hself, hsame⟩ := equal_trees_share_form_and_outcome
  have hzeros : quotient 0 == quotient (-0) := by decide +kernel
  have hzeros' := hsymm _ _ hzeros
  obtain ⟨htext, houtcome⟩ := hsame _ _ hzeros
  have hnan : carrier.holdsNaN = true := by decide +kernel
  refine ⟨hzeros, hzeros', htrans _ _ _ hzeros hzeros', htext, houtcome, rfl, rfl,
    by decide +kernel, ?_⟩
  intro h
  cases hnan.symm.trans ((hself _).mp h)

end Expr

end Reckoner
