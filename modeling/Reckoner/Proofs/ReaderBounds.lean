import Reckoner.Proofs.ReaderSteps

/-!
Readers stay within their tokens. Under any operations a reader never moves back and never moves
past the first end of input. It does the same as a reader that looks every token up by its index and
fails where there is none, so no default for a missing token is ever taken. Tokens that the end of
input does not close are never looked at.
-/

namespace Reckoner

namespace TokenReader

/-- What may be done with a reader. -/
inductive Operation
  | parse
  | toNextStatement
  | advance
  | check (kind : TokenKind)

/-- What an operation answers. -/
inductive Answer
  | parsed (result : Except SyntaxError Expr)
  | moved
  | token (t : Option Token)
  | checked (matched : Bool)

def perform (r : TokenReader) : Operation → Answer × TokenReader
  | .parse => (.parsed r.parse.1, r.parse.2)
  | .toNextStatement => (.moved, r.toNextStatement)
  | .advance => (.token r.advance.1, r.advance.2)
  | .check kind => (.checked (r.check kind), r)

/-- The reader after some operations. -/
def after (r : TokenReader) (ops : List Operation) : TokenReader :=
  ops.foldl (fun r op => (r.perform op).2) r

end TokenReader

/-!
Operations at an index, with look-ups that fail where there is no token.
-/

namespace Indexed

open TokenReader (Operation Answer)

variable (tokens : List Token)

/-- The token before an index. The first index has none, and needs none. -/
def previous (i : Nat) : Option (Option Token) :=
  if i = 0 then some none else tokens[i - 1]?.map some

def advance (i : Nat) : Option (Token × Nat) :=
  tokens[i]?.map fun t => (t, if t.isEnd then i else i + 1)

def check (i : Nat) (kind : TokenKind) : Option Bool :=
  tokens[i]?.map fun t => !t.isEnd && t.kind == kind

/-- Moves on to the end of input, to a token that starts a statement or behind one that ends one. -/
def skip (i : Nat) : Option Nat :=
  if h : i < tokens.length then
    if tokens[i].isEnd then some i
    else match previous tokens i with
      | none => none
      | some behind =>
        if behind.any Token.endsStatement || tokens[i].startsStatement then some i
        else skip (i + 1)
  else none
termination_by tokens.length - i

def toNextStatement (i : Nat) : Option Nat :=
  (advance tokens i).bind fun (_, next) => skip tokens next

/-- Reads an expression from a state on, and gives the index at which reading stops. -/
def read (state : Reading) (i : Nat) : Option (Except SyntaxError Expr × Nat) :=
  if h : i < tokens.length then
    match state.step tokens[i] with
    | .next after => read after (i + 1)
    | .accepted e => some (.ok e, i)
    | .refused fault => some (.error (.about fault tokens[i]), i)
  else none
termination_by tokens.length - i

def parse (i : Nat) : Option (Except SyntaxError Expr × Nat) :=
  if tokens.getLast?.any Token.isEnd then read tokens .start i
  else some (.error (TokenReader.unclosed tokens), i)

def perform (i : Nat) : Operation → Option (Answer × Nat)
  | .parse => (parse tokens i).map fun (result, next) => (.parsed result, next)
  | .toNextStatement => (toNextStatement tokens i).map fun next => (.moved, next)
  | .advance => (advance tokens i).map fun (t, next) => (.token (some t), next)
  | .check kind => (check tokens i kind).map fun matched => (.checked matched, i)

variable {tokens}

theorem cons_of_drop {t : Token} {rest : List Token} {i : Nat} (h : tokens.drop i = t :: rest) :
    ∃ hi : i < tokens.length, tokens[i] = t ∧ tokens.drop (i + 1) = rest := by
  have hi : i < tokens.length := by
    apply Nat.lt_of_not_le
    intro hle
    rw [List.drop_of_length_le hle] at h
    cases h
  rw [List.drop_eq_getElem_cons hi] at h
  obtain ⟨ht, hrest⟩ := List.cons.inj h
  exact ⟨hi, ht, hrest⟩

/-- Reading by index is reading of the tokens from the index on, if there is an end of input. -/
theorem read_eq {ts : List Token} {i : Nat} (hts : tokens.drop i = ts)
    (hend : ∃ t ∈ ts, t.isEnd = true) (state : Reading) :
    read tokens state i = some ((state.run ts).1.mapError (.atFirst · (state.run ts).2),
      tokens.length - (state.run ts).2.length) := by
  induction ts generalizing i state with
  | nil => simp at hend
  | cons t rest ih =>
    obtain ⟨hi, ht, hrest⟩ := cons_of_drop hts
    have hlength : tokens.length - (t :: rest).length = i := by
      rw [← hts, List.length_drop]
      omega
    rw [read, dif_pos hi, ht]
    cases hstep : state.step t with
    | next after =>
      have hothers := Reading.exists_isEnd_of_cons hend (Reading.isEnd_eq_false_of_next hstep)
      simp only [Reading.run, hstep]
      exact ih hrest hothers after
    | accepted e =>
      simp only [Reading.run, hstep, hlength]
      rfl
    | refused fault =>
      simp only [Reading.run, hstep, hlength]
      rfl

theorem skip_eq {ts : List Token} {i : Nat} {behind : Token} (hts : tokens.drop i = ts)
    (hend : ∃ t ∈ ts, t.isEnd = true) (hbehind : previous tokens i = some (some behind)) :
    skip tokens i = some (i + TokenReader.statementDistance behind ts) := by
  induction ts generalizing i behind with
  | nil => simp at hend
  | cons t rest ih =>
    obtain ⟨hi, ht, hrest⟩ := cons_of_drop hts
    rw [skip, dif_pos hi, ht, hbehind, TokenReader.statementDistance]
    by_cases hstop : t.isEnd = true
    · simp [hstop]
    by_cases hhalt : (behind.endsStatement || t.startsStatement) = true
    · simp [hstop, hhalt]
    · have hothers := Reading.exists_isEnd_of_cons hend (Bool.eq_false_iff.mpr hstop)
      have hprevious : previous tokens (i + 1) = some (some t) := by
        simp [previous, List.getElem?_eq_getElem hi, ht]
      simp only [Bool.or_eq_true, not_or, Bool.not_eq_true] at hhalt
      simp only [hstop, hhalt, Option.any_some, Bool.or_self, if_false, Bool.false_eq_true,
        ih hrest hothers hprevious, Option.some.injEq]
      omega

/-- Inside its tokens a reader does the same as one that fails where a token is missing. -/
theorem perform_eq {r : TokenReader} (h : r.Inside) (op : Operation) :
    perform r.tokens r.current op = some ((r.perform op).1, (r.perform op).2.current) := by
  obtain ⟨t, ht⟩ := h.exists_peek?
  have hlookup : r.tokens[r.current]? = some t := ht
  cases op with
  | parse =>
    have hread := read_eq rfl h.exists_mem_ahead .start
    simp only [perform, parse, h.closed, if_true, hread, Option.map_some, TokenReader.perform,
      TokenReader.parse_eq h.closed]
    rfl
  | toNextStatement =>
    simp only [perform, toNextStatement, advance, hlookup, Option.map_some, Option.bind_some,
      TokenReader.perform, TokenReader.toNextStatement_eq ht]
    obtain ⟨hi, hget⟩ := List.getElem?_eq_some_iff.mp hlookup
    by_cases hend : t.isEnd = true
    · rw [if_pos hend, if_pos hend, skip, dif_pos hi, hget, if_pos hend]
      rfl
    · have hahead := TokenReader.ahead_eq_cons ht
      have hothers := Reading.exists_isEnd_of_cons (hahead ▸ h.exists_mem_ahead)
        (Bool.eq_false_iff.mpr hend)
      have hprevious : previous r.tokens (r.current + 1) = some (some t) := by
        simp [previous, hlookup]
      rw [if_neg hend, if_neg hend, skip_eq rfl hothers hprevious]
      rfl
  | advance =>
    simp only [perform, advance, hlookup, Option.map_some, TokenReader.perform,
      TokenReader.advance_eq ht]
    by_cases hend : t.isEnd = true
    · rw [if_pos hend, if_pos hend]
    · rw [if_neg hend, if_neg hend]
  | check kind =>
    simp only [perform, check, hlookup, Option.map_some, TokenReader.perform,
      TokenReader.check_eq ht]

/-- Without tokens there is nothing to look up. -/
example : (perform [] 0 .advance).isNone = true := rfl

end Indexed

namespace TokenReader

variable {r : TokenReader}

theorem Inside.perform (h : r.Inside) (op : Operation) : (r.perform op).2.Inside := by
  cases op with
  | parse => exact h.parsed.2
  | toNextStatement => exact h.toNextStatement
  | advance => exact h.advance
  | check kind => exact h

theorem tokens_perform (r : TokenReader) (op : Operation) :
    (r.perform op).2.tokens = r.tokens := by
  cases op with
  | parse =>
    simp only [TokenReader.perform, TokenReader.parse]
    split <;> rfl
  | toNextStatement =>
    simp only [TokenReader.perform, TokenReader.toNextStatement]
    split
    · rfl
    · split <;> rfl
  | advance =>
    simp only [TokenReader.perform, TokenReader.advance]
    split <;> rfl
  | check kind => rfl

theorem Parsed.current_le {outcome : Except SyntaxError Expr × TokenReader}
    (h : r.Parsed outcome) : r.current ≤ outcome.2.current := by
  cases h with
  | tree hlt _ _ => exact Nat.le_of_lt hlt
  | excess hlt _ _ => exact Nat.le_of_lt hlt
  | lack hle _ _ => exact hle

theorem Inside.current_le_perform (h : r.Inside) (op : Operation) :
    r.current ≤ (r.perform op).2.current := by
  obtain ⟨t, ht⟩ := h.exists_peek?
  cases op with
  | parse => exact h.parsed.1.current_le
  | toNextStatement =>
    simp only [TokenReader.perform, toNextStatement_eq ht]
    split
    · exact Nat.le_refl _
    · dsimp only
      omega
  | advance =>
    simp only [TokenReader.perform, advance_eq ht]
    split
    · exact Nat.le_refl _
    · exact Nat.le_succ _
  | check kind => exact Nat.le_refl _

theorem Inside.after (h : r.Inside) (ops : List Operation) : (r.after ops).Inside := by
  induction ops generalizing r with
  | nil => exact h
  | cons op rest ih => exact ih (h.perform op)

theorem tokens_after (r : TokenReader) (ops : List Operation) :
    (r.after ops).tokens = r.tokens := by
  induction ops generalizing r with
  | nil => rfl
  | cons op rest ih => exact (ih (r.perform op).2).trans (tokens_perform r op)

theorem inside_ofTokens {tokens : List Token}
    (h : tokens.getLast?.any Token.isEnd = true) : (ofTokens tokens).Inside :=
  inside_iff.mpr ⟨h, Nat.zero_le _⟩

/-- A reader of tokens that the end of input does not close refuses them where it stands. -/
theorem parse_of_unclosed (h : r.tokens.getLast?.any Token.isEnd = false) :
    r.parse = (.error (unclosed r.tokens), r) := by
  simp [TokenReader.parse, h]

theorem after_replicate_parse (h : r.tokens.getLast?.any Token.isEnd = false) (n : Nat) :
    r.after (List.replicate n .parse) = r := by
  induction n with
  | zero => rfl
  | succ n ih =>
    have hfirst : (r.perform .parse).2 = r := congrArg Prod.snd (parse_of_unclosed h)
    rw [List.replicate_succ, TokenReader.after, List.foldl_cons, hfirst]
    exact ih

/-- After any operations on a new reader, an operation does not move it back, and not past the first
end of input, where it stays. There is a token at its index, and one before it unless the index is
the first, and the operation does what it would do if it failed wherever a token is missing.
Parsing, however often, does so also for tokens that the end of input does not close: it refuses
them each time with the same error and does not move. -/
theorem readers_stay_in_bounds (tokens : List Token) :
    (tokens.getLast?.any Token.isEnd = true → ∀ ops op,
      let r := (ofTokens tokens).after ops
      let next := (r.perform op).2
      r.tokens = tokens ∧ r.current ≤ next.current ∧
        r.current ≤ tokens.findIdx Token.isEnd ∧
        (r.current = tokens.findIdx Token.isEnd → next.current = r.current) ∧
        (∃ t, r.peek? = some t) ∧ (r.current ≠ 0 → ∃ t, r.previous? = some t) ∧
        Indexed.perform tokens r.current op = some ((r.perform op).1, next.current)) ∧
    ∀ n,
      let r := (ofTokens tokens).after (List.replicate n .parse)
      Indexed.perform tokens r.current .parse = some (.parsed r.parse.1, r.parse.2.current) ∧
        (tokens.getLast?.any Token.isEnd = false → r.current = 0 ∧
          r.parse = (.error ⟨.expectedExpression, (tokens.getLast?.map Token.line).getD 1, .atEnd⟩,
            r)) := by
  constructor
  · intro hclosed ops op r next
    have hinside : r.Inside := (inside_ofTokens hclosed).after ops
    have htokens : r.tokens = tokens := tokens_after (ofTokens tokens) ops
    have hmono : r.current ≤ next.current := hinside.current_le_perform op
    have hle : r.current ≤ tokens.findIdx Token.isEnd := htokens ▸ (inside_iff.mp hinside).2
    have hnext : next.current ≤ tokens.findIdx Token.isEnd := by
      rw [← htokens, ← tokens_perform r op]
      exact (inside_iff.mp (hinside.perform op)).2
    have hlookups := Indexed.perform_eq hinside op
    rw [htokens] at hlookups
    refine ⟨htokens, hmono, hle, by omega, hinside.exists_peek?, fun hne => ?_, hlookups⟩
    have hlt := hinside.current_lt
    rw [previous?, if_neg hne]
    exact ⟨_, List.getElem?_eq_getElem (by omega)⟩
  · intro n r
    cases hclosed : tokens.getLast?.any Token.isEnd with
    | true =>
      have hinside : r.Inside := (inside_ofTokens hclosed).after _
      have htokens : r.tokens = tokens := tokens_after (ofTokens tokens) _
      have hlookups := Indexed.perform_eq hinside .parse
      rw [htokens] at hlookups
      exact ⟨hlookups, by simp⟩
    | false =>
      have hr : r = ofTokens tokens := after_replicate_parse hclosed n
      have hparse : (ofTokens tokens).parse = (.error (unclosed tokens), ofTokens tokens) :=
        parse_of_unclosed hclosed
      rw [hr, hparse]
      refine ⟨?_, fun _ => ⟨rfl, rfl⟩⟩
      simp [Indexed.perform, Indexed.parse, hclosed]

/-- Behind `nil` a reader is at the end of input, and there every operation leaves it. -/
theorem readers_stay_in_bounds_at_end :
    let tokens : List Token := [⟨.keyword .nilWord, "nil", none, 1⟩, .endOfInput 1]
    tokens.getLast?.any Token.isEnd = true ∧
      ∀ op, (((ofTokens tokens).after [.advance, .advance]).perform op).2.current = 1 := by
  intro tokens
  have hclosed : tokens.getLast?.any Token.isEnd = true := rfl
  refine ⟨hclosed, fun op => ?_⟩
  obtain ⟨-, -, -, hstays, -⟩ := (readers_stay_in_bounds tokens).1 hclosed [.advance, .advance] op
  exact hstays rfl

end TokenReader

end Reckoner
