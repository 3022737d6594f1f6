import Reckoner.Proofs.Rendering

/-!
The round trip of a tree through its text. Scanning the text of a tree reports nothing and parsing
the tokens succeeds; the tree that is read differs from the first one in its groups and the lines of
its operators only, and so it has the same outcome up to the line of a failing operator.
-/

namespace Reckoner.Rendering

open Grammar

theorem entriesAt_nil (line : Nat) : entriesAt line [] = [.ok (.endOfInput line)] := by
  unfold entriesAt
  rw [Piece.cut]
  rfl

theorem ofEntries_map_ok (ts : List Token) : Scan.ofEntries (ts.map .ok) = ⟨ts, []⟩ := by
  induction ts with
  | nil => rfl
  | cons t ts ih =>
    simp only [Scan.ofEntries, List.map_cons, List.filterMap_cons, Scan.mk.injEq] at ih ⊢
    exact ⟨congrArg (List.cons t) ih.1, ih.2⟩

/-- A derivation of all tokens before the end of input is the expression that is read. -/
theorem ofTokens_of_derives {ts : List Token} {e : Expr} (line : Nat)
    (h : Derives (.rule .expression) ts e) :
    Expr.ofTokens (ts ++ [.endOfInput line]) = .ok e := by
  have hlast : (ts ++ [Token.endOfInput line]).getLast? = some (.endOfInput line) :=
    List.getLast?_concat
  have hbefore : beforeEnd (ts ++ [.endOfInput line]) = ts :=
    beforeEnd_append_end h.isEnd_eq_false rfl []
  apply parse_eq_ok_iff.mpr
  refine ⟨.endOfInput line, hlast, rfl, ?_⟩
  rw [run_start_iff hlast rfl, hbefore]
  exact h

/-- Scanning the text of a tree finds no error, and the tree that is read from its tokens has the
same skeleton, with every number the same bit for bit, and the same outcome. -/
theorem source_round_trip {e : Expr} (h : e.Writable) :
    (Scan.ofText e.source).errors = [] ∧
      ∃ e', Expr.ofTokens (Scan.ofText e.source).tokens = .ok e' ∧
        e'.skeleton = e.skeleton ∧
        e'.evaluate.mapError Failure.unplaced = e.evaluate.mapError Failure.unplaced := by
  have hprimary : ReadsAs (.ofLevel 0) e.source.toList e := (readsAs_source h).ofPrimary (by omega)
  have hexpression : ReadsAs .expression e.source.toList e := hprimary.expression (by omega)
  obtain ⟨ts, after, e', hentries, hderives, hskeleton⟩ := hexpression 1 [] closes_nil
  have hscan : Scan.ofText e.source = ⟨ts ++ [.endOfInput after], []⟩ := by
    have hall : entriesAt 1 e.source.toList = (ts ++ [Token.endOfInput after]).map .ok := by
      rw [List.append_nil, entriesAt_nil] at hentries
      rw [hentries, List.map_append]
      rfl
    unfold entriesAt at hall
    rw [Scan.ofText, hall, ofEntries_map_ok]
  rw [hscan]
  refine ⟨rfl, e', ofTokens_of_derives after hderives, hskeleton, ?_⟩
  rw [← Expr.evaluate_skeleton, ← Expr.evaluate_skeleton, hskeleton]

/-- The negation of a number times a string in a group, with operators from other lines. -/
def product : Expr :=
  .binary (.unary (Symbol.minus.token 3) (.literal (.number 2.5))) (Symbol.star.token 7)
    (.group (.literal (.string "two\nlines")))

theorem source_round_trip_product :
    product.Writable ∧ (Scan.ofText product.source).errors = [] ∧
      ∃ e', Expr.ofTokens (Scan.ofText product.source).tokens = .ok e' ∧
        e'.skeleton = product.skeleton ∧
        e'.evaluate.mapError Failure.unplaced = product.evaluate.mapError Failure.unplaced := by
  have hnumber : Numeral.Plain 2.5 := .inr ⟨by decide +kernel, by decide +kernel⟩
  have hminus : (Symbol.minus.token 3).Spells prefixes := ⟨.minus, by decide, rfl, rfl, rfl⟩
  have hstar : (Symbol.star.token 7).Spells binaryOperators := ⟨.star, by decide, rfl, rfl, rfl⟩
  have hstring : Value.Writable (.string "two\nlines") := by
    intro c hc hquote
    rw [hquote] at hc
    exact absurd hc (by decide)
  have hwritable : product.Writable := ⟨⟨hminus, hnumber⟩, hstar, hstring⟩
  exact ⟨hwritable, source_round_trip hwritable⟩

end Reckoner.Rendering
