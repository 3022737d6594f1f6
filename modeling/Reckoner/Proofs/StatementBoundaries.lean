import Mathlib.Logic.Function.Iterate
import Mathlib.Order.Bounds.Basic
import Reckoner.Proofs.ReaderSteps

/-!
Moving to the next statement. A statement may start behind a semicolon or at one of eight keywords,
and the end of input is where the last one ends. From any token but the end of input a reader moves
to the first such place behind it. So moving again and again comes to each of them in turn, and it
stays at the end of input once it is there.
-/

namespace Reckoner

def statementKeywords : List Keyword :=
  [.classWord, .funWord, .varWord, .forWord, .ifWord, .whileWord, .printWord, .returnWord]

/-- The indices between statements: the end of input, a token behind a semicolon, or a keyword that
starts a statement. -/
inductive Boundary (tokens : List Token) : Nat → Prop
  | final {j : Nat} {t : Token} (ht : tokens[j]? = some t) (h : t.kind = .endOfInput) :
      Boundary tokens j
  | separated {j : Nat} {t : Token} (ht : tokens[j]? = some t) (h : t.kind = .symbol .semicolon) :
      Boundary tokens (j + 1)
  | keyword {j : Nat} {t : Token} {w : Keyword} (ht : tokens[j]? = some t) (h : t.kind = .keyword w)
      (hw : w ∈ statementKeywords) : Boundary tokens j

theorem Token.endsStatement_iff {t : Token} :
    t.endsStatement = true ↔ t.kind = .symbol .semicolon := beq_iff_eq

theorem Token.startsStatement_iff {t : Token} :
    t.startsStatement = true ↔ ∃ w ∈ statementKeywords, t.kind = .keyword w := by
  unfold startsStatement
  split
  · next w hw => cases w <;> simp [statementKeywords, hw]
  · next hother => simpa using fun w _ => hother w

/-- Whether a move stops at the second of two neighbours. -/
def stopsBetween (p : Token × Token) : Bool :=
  p.2.isEnd || p.1.endsStatement || p.2.startsStatement

theorem boundary_succ_iff {tokens : List Token} {j : Nat} {u t : Token} (hu : tokens[j]? = some u)
    (ht : tokens[j + 1]? = some t) : Boundary tokens (j + 1) ↔ stopsBetween (u, t) = true := by
  simp only [stopsBetween, Bool.or_eq_true, Token.isEnd_iff, Token.endsStatement_iff,
    Token.startsStatement_iff]
  constructor
  · intro h
    cases h with
    | final ht' hend =>
      cases ht.symm.trans ht'
      exact .inl (.inl hend)
    | separated hu' hsemicolon =>
      cases hu.symm.trans hu'
      exact .inl (.inr hsemicolon)
    | keyword ht' hkind hw =>
      cases ht.symm.trans ht'
      exact .inr ⟨_, hw, hkind⟩
  · rintro ((hend | hsemicolon) | ⟨w, hw, hkind⟩)
    · exact .final ht hend
    · exact .separated hu hsemicolon
    · exact .keyword ht hkind hw

namespace TokenReader

/-- The distance is the number of neighbours that are passed before the first to stop between. -/
theorem statementDistance_eq_findIdx (behind : Token) (ts : List Token) :
    statementDistance behind ts = ((behind :: ts).zip ts).findIdx stopsBetween := by
  induction ts generalizing behind with
  | nil => rfl
  | cons t rest ih =>
    rw [List.zip_cons_cons, List.findIdx_cons, statementDistance, ih t]
    unfold stopsBetween
    cases t.isEnd || behind.endsStatement || t.startsStatement <;> rfl

variable {r : TokenReader}

/-- The pairs of neighbours from the reader on. -/
def neighbours (r : TokenReader) : List (Token × Token) :=
  r.ahead.zip (r.tokens.drop (r.current + 1))

theorem length_neighbours : r.neighbours.length = r.tokens.length - (r.current + 1) := by
  simp only [neighbours, ahead, List.length_zip, List.length_drop]
  omega

theorem boundary_iff_stopsBetween {k : Nat} (hk : k < r.neighbours.length) :
    Boundary r.tokens (r.current + k + 1) ↔ stopsBetween r.neighbours[k] = true := by
  have hlength := @length_neighbours r
  have hu := List.getElem?_eq_getElem (show r.current + k < r.tokens.length by omega)
  have ht := List.getElem?_eq_getElem (show r.current + k + 1 < r.tokens.length by omega)
  rw [boundary_succ_iff hu ht]
  simp only [neighbours, ahead, List.getElem_zip, List.getElem_drop, Nat.add_right_comm]

theorem tokens_toNextStatement (r : TokenReader) : r.toNextStatement.tokens = r.tokens := by
  unfold toNextStatement
  split
  · rfl
  · split <;> rfl

theorem toNextStatement_of_isEnd {t : Token} (ht : r.peek? = some t) (hend : t.isEnd = true) :
    r.toNextStatement = r := by
  rw [toNextStatement_eq ht, if_pos hend]

theorem current_toNextStatement {t : Token} (ht : r.peek? = some t) (hend : t.isEnd = false) :
    r.toNextStatement.current = r.current + r.neighbours.findIdx stopsBetween + 1 := by
  rw [toNextStatement_eq ht, hend, neighbours, ahead_eq_cons ht, ← statementDistance_eq_findIdx]
  exact Nat.add_right_comm ..

/-- From any other token than the end of input, a move goes to the first boundary behind it. -/
theorem Inside.isLeast_toNextStatement (h : r.Inside) {t : Token} (ht : r.peek? = some t)
    (hend : t.isEnd = false) :
    IsLeast {j | r.current < j ∧ Boundary r.tokens j} r.toNextStatement.current := by
  have hinside := h.toNextStatement.current_lt
  rw [tokens_toNextStatement, current_toNextStatement ht hend] at hinside
  have hfound : r.neighbours.findIdx stopsBetween < r.neighbours.length := by
    rw [length_neighbours]
    omega
  rw [current_toNextStatement ht hend]
  constructor
  · exact ⟨by omega, (boundary_iff_stopsBetween hfound).mpr List.findIdx_getElem⟩
  · rintro j ⟨hj, hboundary⟩
    by_contra hbefore
    obtain ⟨k, rfl⟩ := Nat.exists_eq_add_of_lt hj
    have hk : k < r.neighbours.findIdx stopsBetween := by omega
    have hstops := (boundary_iff_stopsBetween (hk.trans hfound)).mp hboundary
    rw [List.not_of_lt_findIdx hk] at hstops
    cases hstops

/-- Moving again and again comes to every boundary up to the first end of input, in no more moves
than there are tokens to pass. -/
theorem Inside.exists_iterate {j : Nat} (h : r.Inside) (hle : r.current ≤ j)
    (hj : j = r.current ∨ Boundary r.tokens j) (hend : j ≤ r.tokens.findIdx Token.isEnd) :
    ∃ n ≤ j - r.current, TokenReader.toNextStatement^[n] r = ⟨r.tokens, j⟩ := by
  induction hd : j - r.current using Nat.strong_induction_on generalizing r with
  | _ d ih =>
    by_cases heq : j = r.current
    · exact ⟨0, Nat.zero_le _, by rw [heq]; rfl⟩
    · have hboundary := hj.resolve_left heq
      have hlt := h.current_lt
      have hnot := List.not_of_lt_findIdx (show r.current < r.tokens.findIdx Token.isEnd by omega)
      obtain ⟨⟨hprogress, -⟩, hleast⟩ :=
        h.isLeast_toNextStatement (List.getElem?_eq_getElem hlt) hnot
      -- No move passes `j`, as it is a boundary itself, so each one leaves less to go.
      have hnext : r.toNextStatement.current ≤ j := hleast ⟨by omega, hboundary⟩
      rw [← tokens_toNextStatement] at hboundary hend
      obtain ⟨n, hn, hiterate⟩ := ih (j - r.toNextStatement.current) (by omega) h.toNextStatement
        hnext (.inr hboundary) hend rfl
      rw [tokens_toNextStatement] at hiterate
      exact ⟨n + 1, by omega, hiterate⟩

theorem Inside.exists_final (h : r.Inside) :
    ∃ t, r.tokens[r.tokens.findIdx Token.isEnd]? = some t ∧ t.isEnd = true := by
  obtain ⟨t, ht, hend⟩ := h.exists_mem_ahead
  have hlt := List.findIdx_lt_length_of_exists ⟨t, List.mem_of_mem_drop ht, hend⟩
  exact ⟨_, List.getElem?_eq_getElem hlt, List.findIdx_getElem⟩

/-- From the end of input a reader does not move. From any other token it moves to the first
boundary behind it. Moving on, it comes to every boundary up to the first end of input, and after
no more moves than there are tokens it stays at this end. -/
theorem next_statement_is_least_boundary
    (hclosed : r.tokens.getLast?.any Token.isEnd = true)
    (hle : r.current ≤ r.tokens.findIdx Token.isEnd) :
    ∃ t, r.peek? = some t ∧
      (t.kind = .endOfInput → r.toNextStatement = r) ∧
      (t.kind ≠ .endOfInput → r.toNextStatement.tokens = r.tokens ∧
        IsLeast {j | r.current < j ∧ Boundary r.tokens j} r.toNextStatement.current) ∧
      (∀ j, r.current < j → j ≤ r.tokens.findIdx Token.isEnd → Boundary r.tokens j →
        ∃ n, toNextStatement^[n] r = ⟨r.tokens, j⟩) ∧
      ∃ n ≤ r.tokens.length, ∀ k ≥ n,
        toNextStatement^[k] r = ⟨r.tokens, r.tokens.findIdx Token.isEnd⟩ := by
  have h : r.Inside := inside_iff.mpr ⟨hclosed, hle⟩
  obtain ⟨t, ht⟩ := h.exists_peek?
  refine ⟨t, ht, fun hend => toNextStatement_of_isEnd ht (Token.isEnd_iff.mpr hend), ?_, ?_, ?_⟩
  · intro hkind
    have hend : t.isEnd = false := Bool.eq_false_iff.mpr fun hend => hkind (Token.isEnd_iff.mp hend)
    exact ⟨tokens_toNextStatement r, h.isLeast_toNextStatement ht hend⟩
  · intro j hj hend hboundary
    obtain ⟨n, -, hiterate⟩ := h.exists_iterate hj.le (.inr hboundary) hend
    exact ⟨n, hiterate⟩
  · obtain ⟨u, hu, hend⟩ := h.exists_final
    have hboundary : Boundary r.tokens (r.tokens.findIdx Token.isEnd) :=
      .final hu (Token.isEnd_iff.mp hend)
    obtain ⟨n, hn, hiterate⟩ := h.exists_iterate hle (.inr hboundary) le_rfl
    have hlength : r.tokens.findIdx Token.isEnd ≤ r.tokens.length := List.findIdx_le_length
    have hstays := @toNextStatement_of_isEnd ⟨r.tokens, r.tokens.findIdx Token.isEnd⟩ u hu hend
    refine ⟨n, by omega, ?_⟩
    intro k hk
    obtain ⟨m, rfl⟩ := Nat.exists_eq_add_of_le' hk
    rw [Function.iterate_add_apply, hiterate]
    exact Function.iterate_fixed hstays m

/-- A semicolon is passed although the place behind it is a boundary twice over, and from the
keyword there the next one is the end of input. -/
theorem next_statement_is_least_boundary_declaration :
    let tokens : List Token := [⟨.symbol .semicolon, ";", none, 1⟩,
      ⟨.keyword .varWord, "var", none, 1⟩, ⟨.identifier, "x", none, 1⟩, .endOfInput 1]
    tokens.getLast?.any Token.isEnd = true ∧ 0 ≤ tokens.findIdx Token.isEnd ∧
      IsLeast {j | 0 < j ∧ Boundary tokens j} 1 ∧ IsLeast {j | 1 < j ∧ Boundary tokens j} 3 ∧
      (∃ n, toNextStatement^[n] ⟨tokens, 0⟩ = ⟨tokens, 1⟩) ∧
      ∃ n ≤ 4, ∀ k ≥ n, toNextStatement^[k] ⟨tokens, 0⟩ = ⟨tokens, 3⟩ := by
  intro tokens
  have hclosed : tokens.getLast?.any Token.isEnd = true := rfl
  have hle : 0 ≤ tokens.findIdx Token.isEnd := Nat.zero_le _
  obtain ⟨t, ht, -, hleast, hreach, hsettle⟩ := @next_statement_is_least_boundary ⟨tokens, 0⟩
    hclosed hle
  obtain ⟨u, hu, -, hleast', -⟩ := @next_statement_is_least_boundary ⟨tokens, 1⟩ hclosed
    (by decide)
  cases ht
  cases hu
  have hfirst : IsLeast {j | 0 < j ∧ Boundary tokens j} 1 := (hleast (by decide)).2
  have hsecond : IsLeast {j | 1 < j ∧ Boundary tokens j} 3 := (hleast' (by decide)).2
  exact ⟨hclosed, hle, hfirst, hsecond, hreach 1 (by decide) (by decide) hfirst.1.2, hsettle⟩

end TokenReader

end Reckoner
