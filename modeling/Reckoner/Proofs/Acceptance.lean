import Mathlib.Data.List.TakeWhile
import Reckoner.Proofs.Grammar
import Reckoner.TokenReader

/-!
Reading accepts what the grammar derives, with the tree of the derivation. Soundness is an invariant
of the steps: what waits on the stack, with the operands in it, is derived from the tokens read so
far. Completeness is an induction on the derivation: its tokens take any stack to a state in which
the tree is the operand, as soon as the operators that bind tightly enough are joined to it.
-/

namespace Reckoner.Grammar

/-- Whether an operand of the given level may follow what waits, without being taken from it by an
operator that binds more tightly or equally tightly on its left. -/
def Loose (level : Nat) : List Pending → Prop
  | .unary _ :: _ => 4 ≤ level
  | .binary l _ _ :: _ => l < level
  | _ => True

theorem loose_settle (level : Nat) (waiting : List Pending) (e : Expr) :
    Loose level (settle level waiting e).1 := by
  rcases settle_head level waiting e with h | ⟨rest, h⟩ | ⟨l, left, op, rest, h, hl⟩
  · rw [h]
    trivial
  · rw [h]
    trivial
  · rw [h]
    exact hl

theorem settle_of_loose {level : Nat} {waiting : List Pending} (hlevel : level ≤ 3)
    (h : Loose level waiting) (e : Expr) : settle level waiting e = (waiting, e) := by
  cases waiting with
  | nil => rfl
  | cons p rest =>
    cases p with
    | unary op =>
      have hfour : 4 ≤ level := h
      omega
    | group => rfl
    | binary l left op =>
      have hlt : ¬ level ≤ l := Nat.not_le.mpr h
      simp only [settle, if_neg hlt]

/-- The tokens that have led to what waits. A waiting operator has the left operand that the grammar
derives, and it was not preceded by an operator that would have taken this operand. -/
inductive Waits : List Pending → List Token → Prop
  | nil : Waits [] []
  | unary {waiting : List Pending} {ts : List Token} {op : Token} (h : Waits waiting ts)
      (hop : op.isUnary = true) : Waits (.unary op :: waiting) (ts ++ [op])
  | group {waiting : List Pending} {ts : List Token} {t : Token} (h : Waits waiting ts)
      (ht : t.opensGroup = true) : Waits (.group :: waiting) (ts ++ [t])
  | binary {waiting : List Pending} {ts us : List Token} {l : Nat} {left : Expr} {op : Token}
      (h : Waits waiting ts) (hloose : Loose l waiting)
      (hleft : Derives (.rule (.ofLevel l)) us left) (hop : op.level? = some l) :
      Waits (.binary l left op :: waiting) (ts ++ us ++ [op])

theorem Waits.loose {waiting : List Pending} {ts : List Token} (h : Waits waiting ts) :
    Loose 4 waiting := by
  cases h with
  | nil => trivial
  | unary _ _ => exact Nat.le_refl 4
  | group _ _ => trivial
  | binary _ _ _ hop =>
    obtain ⟨o, _, _, hl⟩ := operator_of_level? hop
    exact Nat.lt_succ_of_le hl

/-- Joining the operators of a level and above leaves a stack that waits for an operand of the
level, and derives this operand from the tokens that were joined. -/
theorem Waits.settle {waiting : List Pending} {ts : List Token} (h : Waits waiting ts)
    (level : Nat) {m : Nat} (hlevel : level ≤ m) (hm : m ≤ 4) (hloose : Loose m waiting)
    {us : List Token} {e : Expr} (he : Derives (.rule (.ofLevel m)) us e) :
    ∃ ts' us', ts ++ us = ts' ++ us' ∧ Waits (settle level waiting e).1 ts' ∧
      Derives (.rule (.ofLevel level)) us' (settle level waiting e).2 := by
  induction h generalizing m us e with
  | nil => exact ⟨[], us, rfl, .nil, he.loosen hlevel hm⟩
  | @unary waiting ts op h hop ih =>
    have hfour : m = 4 := by
      have hle : 4 ≤ m := hloose
      omega
    subst hfour
    obtain ⟨o, ho, hmem⟩ := isUnary_iff.mp hop
    obtain ⟨ts', us', heq, hwaits, hderives⟩ := ih hlevel (Nat.le_refl 4) h.loose
      (Derives.unary ho hmem he)
    exact ⟨ts', us', by simpa using heq, hwaits, hderives⟩
  | group h ht => exact ⟨_, us, rfl, .group h ht, he.loosen hlevel hm⟩
  | @binary waiting ts vs l left op h hl hleft hop ih =>
    obtain ⟨o, ho, hmem, hthree⟩ := operator_of_level? hop
    have hlt : l < m := hloose
    by_cases hle : level ≤ l
    · have hright : Derives (.rule (.ofLevel (l + 1))) us e := he.loosen hlt hm
      have hjoined := Derives.snoc ho hmem (Rule.operand?_ofLevel hthree) hleft hright
      obtain ⟨ts', us', heq, hwaits, hderives⟩ := ih hle (by omega) hl hjoined
      refine ⟨ts', us', by simpa using heq, ?_⟩
      simpa only [Reckoner.settle, if_pos hle] using And.intro hwaits hderives
    · refine ⟨_, us, rfl, ?_⟩
      simpa only [Reckoner.settle, if_neg hle] using
        And.intro (Waits.binary h hl hleft hop) (he.loosen hlevel hm)

/-- The tokens that have led to a state. The operand read last binds as tightly as a unary one. -/
def Reads (state : Reading) (ts : List Token) : Prop :=
  match state.operand with
  | none => Waits state.waiting ts
  | some e => ∃ before own, ts = before ++ own ∧ Waits state.waiting before ∧
      Derives (.rule .unary) own e

theorem reads_start : Reads .start [] := Waits.nil

theorem reads_step {state after : Reading} {ts : List Token} {t : Token}
    (h : Reads state ts) (hstep : state.step t = .next after) : Reads after (ts ++ [t]) := by
  obtain ⟨waiting, operand⟩ := state
  cases operand with
  | none =>
    simp only [Reading.step, Reading.stepOperand] at hstep
    split at hstep
    · next hop => cases hstep; exact Waits.unary h hop
    split at hstep
    · next ht => cases hstep; exact Waits.group h ht
    split at hstep
    · next v hv =>
      cases hstep
      exact ⟨ts, [t], rfl, h, .single rfl (derives_operand hv)⟩
    · simp at hstep
  | some e =>
    obtain ⟨before, own, rfl, hwaits, he⟩ := h
    simp only [Reading.step, Reading.stepOperator] at hstep
    split at hstep
    · next level hlevel =>
      obtain ⟨o, _, _, hthree⟩ := operator_of_level? hlevel
      obtain ⟨ts', us', heq, hwaits', hleft⟩ := hwaits.settle level
        (Nat.le_succ_of_le hthree) (Nat.le_refl 4) hwaits.loose he
      cases hstep
      rw [heq]
      exact Waits.binary hwaits' (loose_settle level waiting e) hleft hlevel
    · obtain ⟨ts', us', heq, hwaits', hinner⟩ := hwaits.settle 0
        (Nat.zero_le 4) (Nat.le_refl 4) hwaits.loose he
      split at hstep
      · next rest inner hsettle =>
        simp only [hsettle] at hwaits' hinner
        split at hstep
        · next ht =>
          cases hstep
          cases hwaits' with
          | @group _ ts'' opening h hopening =>
            refine ⟨ts'', opening :: (us' ++ [t]), by simp [heq], h, ?_⟩
            exact .single rfl (.group (beq_iff_eq.mp hopening) (beq_iff_eq.mp ht)
              (.single rfl hinner))
        · simp at hstep
      · split at hstep <;> simp at hstep

theorem stepOperand_ne_accepted (waiting : List Pending) (t : Token) (e : Expr) :
    Reading.stepOperand waiting t ≠ .accepted e := by
  unfold Reading.stepOperand
  split
  · simp
  split
  · simp
  split <;> simp

/-- Only a whole expression is accepted, and only at the end of input. -/
theorem derives_of_accepted {state : Reading} {ts : List Token} {t : Token} {e : Expr}
    (h : Reads state ts) (hstep : state.step t = .accepted e) :
    t.isEnd = true ∧ Derives (.rule .expression) ts e := by
  obtain ⟨waiting, operand⟩ := state
  cases operand with
  | none => exact absurd hstep (stepOperand_ne_accepted waiting t e)
  | some inner =>
    obtain ⟨before, own, rfl, hwaits, he⟩ := h
    simp only [Reading.step, Reading.stepOperator] at hstep
    split at hstep
    · simp at hstep
    · obtain ⟨ts', us', heq, hwaits', hwhole⟩ := hwaits.settle 0
        (Nat.zero_le 4) (Nat.le_refl 4) hwaits.loose he
      have hloose := loose_settle 0 waiting inner
      split at hstep
      · split at hstep <;> simp at hstep
      · next left whole hno hsettle =>
        split at hstep
        · next ht =>
          cases hstep
          simp only [hsettle] at hwaits' hwhole hloose
          cases hwaits' with
          | nil =>
            rw [heq]
            exact ⟨ht, .single rfl hwhole⟩
          | unary _ _ => simp [Loose] at hloose
          | group _ _ => exact absurd rfl (hno _)
          | binary _ _ _ _ => simp [Loose] at hloose
        · simp at hstep

/-- What is read to the end is derived by the grammar, up to the end of input. -/
theorem derives_of_run {state : Reading} {before ts rest : List Token} {e : Expr}
    (h : Reads state before) (hrun : state.run ts = (.ok e, rest)) :
    ∃ own last after, ts = own ++ rest ∧ rest = last :: after ∧ last.isEnd = true ∧
      Derives (.rule .expression) (before ++ own) e := by
  induction ts generalizing state before with
  | nil => simp [Reading.run] at hrun
  | cons t ts ih =>
    simp only [Reading.run] at hrun
    split at hrun
    · next after hstep =>
      obtain ⟨own, last, more, hts, hrest, hlast, hderives⟩ := ih (reads_step h hstep) hrun
      refine ⟨t :: own, last, more, by rw [hts, List.cons_append], hrest, hlast, ?_⟩
      simpa using hderives
    · next e' hstep =>
      cases hrun
      obtain ⟨hlast, hderives⟩ := derives_of_accepted h hstep
      exact ⟨[], t, ts, rfl, rfl, hlast, by simpa using hderives⟩
    · simp at hrun

/-- The state has read an operand that becomes `e` on the stack `waiting`, as soon as the operators
that bind at least as tightly as the rule are joined. -/
def Settles (waiting : List Pending) (r : Rule) (e : Expr) (state : Reading) : Prop :=
  ∃ own, state.operand = some own ∧
    ∀ l, l ≤ r.level → settle l state.waiting own = settle l waiting e

/-- The states in which the tokens of a phrase are read. -/
def Begins (waiting : List Pending) : Phrase → Reading → Prop
  | .rule _, state => state = ⟨waiting, none⟩
  | .more r joined, state => Settles waiting r joined state

def Phrase.head : Phrase → Rule
  | rule r => r
  | more r _ => r

theorem Loose.mono {m n : Nat} {waiting : List Pending} (h : Loose m waiting) (hmn : m ≤ n) :
    Loose n waiting := by
  cases waiting with
  | nil => trivial
  | cons p rest =>
    cases p with
    | unary op => exact Nat.le_trans h hmn
    | group => trivial
    | binary l left op => exact Nat.lt_of_lt_of_le h hmn

theorem Settles.mono {waiting : List Pending} {r s : Rule} {e : Expr} {state : Reading}
    (h : Settles waiting s e state) (hrs : r.level ≤ s.level) : Settles waiting r e state := by
  obtain ⟨own, hown, hsettle⟩ := h
  exact ⟨own, hown, fun l hl => hsettle l (Nat.le_trans hl hrs)⟩

theorem settles_operand (waiting : List Pending) (r : Rule) (e : Expr) :
    Settles waiting r e ⟨waiting, some e⟩ :=
  ⟨e, rfl, fun _ _ => rfl⟩

theorem step_operand {waiting : List Pending} {t : Token} {v : Value} (h : t.operand? = some v) :
    (⟨waiting, none⟩ : Reading).step t = .next ⟨waiting, some (.literal v)⟩ := by
  have hunary : t.isUnary = false := by
    unfold Token.operand? at h
    split at h <;> simp_all [Token.isUnary]
  have hopens : t.opensGroup = false := by
    unfold Token.operand? at h
    split at h <;> simp_all [Token.opensGroup]
  simp [Reading.step, Reading.stepOperand, hunary, hopens, h]

theorem step_opening {waiting : List Pending} {t : Token} (h : t.kind = .symbol .leftParen) :
    (⟨waiting, none⟩ : Reading).step t = .next ⟨.group :: waiting, none⟩ := by
  simp [Reading.step, Reading.stepOperand, Token.isUnary, Token.opensGroup, h]

theorem step_prefix {waiting : List Pending} {op : Token} {o : Symbol}
    (hop : op.kind = .symbol o) (ho : o ∈ prefixes) :
    (⟨waiting, none⟩ : Reading).step op = .next ⟨.unary op :: waiting, none⟩ := by
  have hunary : op.isUnary = true := isUnary_iff.mpr ⟨o, hop, ho⟩
  simp [Reading.step, Reading.stepOperand, hunary]

theorem step_closing {waiting : List Pending} {e : Expr} {state : Reading} {t : Token}
    (hstate : Settles (.group :: waiting) .expression e state)
    (h : t.kind = .symbol .rightParen) :
    state.step t = .next ⟨waiting, some (.group e)⟩ := by
  obtain ⟨own, hown, hsettle⟩ := hstate
  have hzero := hsettle 0 (Nat.zero_le _)
  simp only [settle] at hzero
  simp [Reading.step, Reading.stepOperator, hown, hzero, Token.level?, Symbol.level?,
    Token.closesGroup, h]

/-- An operator takes the chain that is joined before it as its left operand. -/
theorem step_operator {waiting : List Pending} {r : Rule} {left : Expr} {state : Reading}
    {op : Token} {o : Symbol} (hstate : Settles waiting r left state)
    (hloose : Loose r.level waiting) (hop : op.kind = .symbol o) (ho : o ∈ r.operators) :
    state.step op = .next ⟨.binary r.level left op :: waiting, none⟩ := by
  obtain ⟨own, hown, hsettle⟩ := hstate
  have hthree : r.level ≤ 3 := Rule.level_le_of_operators (List.ne_nil_of_mem ho)
  have hjoin : settle r.level state.waiting own = (waiting, left) := by
    rw [hsettle r.level (Nat.le_refl _), settle_of_loose hthree hloose]
  simp [Reading.step, Reading.stepOperator, hown, hjoin, level?_of_operator hop ho]

theorem step_last {e : Expr} {state : Reading} {t : Token}
    (hstate : Settles [] .expression e state) (h : t.isEnd = true) :
    state.step t = .accepted e := by
  obtain ⟨own, hown, hsettle⟩ := hstate
  have hzero := hsettle 0 (Nat.zero_le _)
  simp only [settle] at hzero
  have hkind := Token.isEnd_iff.mp h
  simp [Reading.step, Reading.stepOperator, hown, hzero, Token.level?, hkind, h]

theorem run_operand {waiting : List Pending} {r : Rule} {state : Reading} {t : Token} {v : Value}
    (hv : t.operand? = some v) (hstate : state = ⟨waiting, none⟩) :
    ∃ after, Settles waiting r (.literal v) after ∧
      ∀ rest, state.run ([t] ++ rest) = after.run rest := by
  subst hstate
  refine ⟨_, settles_operand waiting r (.literal v), ?_⟩
  intro rest
  simp only [List.cons_append, List.nil_append, Reading.run, step_operand hv]

/-- The tokens of a phrase are read to the tree that the grammar derives, whatever follows them. -/
theorem run_of_derives {p : Phrase} {ts : List Token} {e : Expr} (h : Derives p ts e)
    (waiting : List Pending) {state : Reading} (hloose : Loose p.head.level waiting)
    (hstate : Begins waiting p state) :
    ∃ after, Settles waiting p.head e after ∧
      ∀ rest, state.run (ts ++ rest) = after.run rest := by
  induction h generalizing waiting state with
  | @chain r s ts us first e hs _ _ ihfirst ihmore =>
    have hle := Rule.level_le_of_operand? hs
    obtain ⟨mid, hmid, hfirst⟩ := ihfirst waiting (hloose.mono hle) hstate
    obtain ⟨after, hafter, hmore⟩ := ihmore waiting hloose (hmid.mono hle)
    refine ⟨after, hafter, ?_⟩
    intro rest
    rw [List.append_assoc, hfirst, hmore]
  | done => exact ⟨state, hstate, fun _ => rfl⟩
  | @more r s o op ts us left right e hop ho hs _ _ ihright ihmore =>
    have hlt := Rule.level_lt_of_operand? hs (List.ne_nil_of_mem ho)
    obtain ⟨mid, hmid, hright⟩ := ihright (.binary r.level left op :: waiting) hlt rfl
    have hjoined : Settles waiting r (.binary left op right) mid := by
      obtain ⟨own, hown, hsettle⟩ := hmid
      refine ⟨own, hown, ?_⟩
      intro l hl
      rw [hsettle l (Nat.le_trans hl (Nat.le_of_lt hlt))]
      simp only [settle, if_pos hl]
    obtain ⟨after, hafter, hmore⟩ := ihmore waiting hloose hjoined
    refine ⟨after, hafter, ?_⟩
    intro rest
    simp only [List.cons_append, Reading.run, step_operator hstate hloose hop ho]
    rw [List.append_assoc, hright, hmore]
  | @unary o op ts e hop ho _ ih =>
    cases hstate
    obtain ⟨after, hafter, hrun⟩ := ih (.unary op :: waiting) (Nat.le_refl 4) rfl
    refine ⟨after, ?_, fun rest => ?_⟩
    · obtain ⟨own, hown, hsettle⟩ := hafter
      exact ⟨own, hown, hsettle⟩
    · simp only [List.cons_append, Reading.run, step_prefix hop ho]
      exact hrun rest
  | @group opening closing ts e hopening hclosing _ ih =>
    cases hstate
    obtain ⟨mid, hmid, hrun⟩ := ih (.group :: waiting) trivial rfl
    refine ⟨⟨waiting, some (.group e)⟩, settles_operand _ _ _, ?_⟩
    intro rest
    simp only [List.cons_append, Reading.run, step_opening hopening]
    rw [List.append_assoc, hrun]
    simp only [List.cons_append, List.nil_append, Reading.run, step_closing hmid hclosing]
  | number ht hl => exact run_operand (by simp [Token.operand?, ht, hl]) hstate
  | string ht hl => exact run_operand (by simp [Token.operand?, ht, hl]) hstate
  | trueWord ht => exact run_operand (by simp [Token.operand?, ht]) hstate
  | falseWord ht => exact run_operand (by simp [Token.operand?, ht]) hstate
  | nilWord ht => exact run_operand (by simp [Token.operand?, ht]) hstate

/-- The tokens before the first end of input. -/
def beforeEnd (tokens : List Token) : List Token := tokens.takeWhile (!·.isEnd)

theorem beforeEnd_append_end {ts : List Token} (hts : ∀ t ∈ ts, t.isEnd = false) {last : Token}
    (hlast : last.isEnd = true) (rest : List Token) : beforeEnd (ts ++ last :: rest) = ts := by
  unfold beforeEnd
  rw [List.takeWhile_append_of_pos (by simpa using hts), List.takeWhile_cons, hlast]
  simp

/-- A list that holds an end of input goes on with it after the tokens before the first one. -/
theorem exists_beforeEnd_append {tokens : List Token} {last : Token}
    (h : tokens.getLast? = some last) (hlast : last.isEnd = true) :
    ∃ t rest, t.isEnd = true ∧ tokens = beforeEnd tokens ++ t :: rest := by
  have hmem : last ∈ tokens := List.mem_of_getLast? h
  have hsplit := @List.takeWhile_append_dropWhile _ (!·.isEnd) tokens
  cases hdrop : tokens.dropWhile (!·.isEnd) with
  | nil =>
    rw [List.dropWhile_eq_nil_iff] at hdrop
    have := hdrop last hmem
    simp [hlast] at this
  | cons t rest =>
    refine ⟨t, rest, ?_, by rw [← hdrop, beforeEnd, hsplit]⟩
    have := List.head?_dropWhile_not (!·.isEnd) tokens
    simpa [hdrop] using this

theorem run_start_iff {tokens : List Token} {last : Token} (h : tokens.getLast? = some last)
    (hlast : last.isEnd = true) (e : Expr) :
    (Reading.start.run tokens).1 = .ok e ↔ Derives (.rule .expression) (beforeEnd tokens) e := by
  constructor
  · intro hrun
    obtain ⟨own, t, rest, htokens, hrest, ht, hderives⟩ :=
      derives_of_run reads_start (Prod.ext hrun rfl)
    rw [List.nil_append] at hderives
    rw [htokens, hrest, beforeEnd_append_end hderives.isEnd_eq_false ht]
    exact hderives
  · intro hderives
    obtain ⟨t, rest, ht, htokens⟩ := exists_beforeEnd_append h hlast
    obtain ⟨after, hafter, hrun⟩ :=
      run_of_derives hderives [] trivial (show Begins [] (.rule .expression) .start from rfl)
    rw [htokens, hrun, Reading.run, step_last hafter ht]

/-- The tokens of an expression have one tree. -/
theorem Derives.unique {ts : List Token} {e e' : Expr} (h : Derives (.rule .expression) ts e)
    (h' : Derives (.rule .expression) ts e') : e = e' := by
  have hlast : (ts ++ [Token.endOfInput 1]).getLast? = some (Token.endOfInput 1) := by simp
  have hbefore : beforeEnd (ts ++ [Token.endOfInput 1]) = ts :=
    beforeEnd_append_end h.isEnd_eq_false rfl []
  have hiff := fun e => hbefore ▸ run_start_iff hlast rfl e
  have heq : Except.ok e = Except.ok e' := ((hiff e).mpr h).symm.trans ((hiff e').mpr h')
  exact Except.ok.inj heq

theorem parse_eq_ok_iff {tokens : List Token} {e : Expr} :
    (TokenReader.ofTokens tokens).parse.1 = .ok e ↔
      ∃ last, tokens.getLast? = some last ∧ last.isEnd = true ∧
        (Reading.start.run tokens).1 = .ok e := by
  unfold TokenReader.parse
  cases hlast : tokens.getLast? with
  | none => simp [TokenReader.ofTokens, hlast]
  | some last =>
    by_cases hend : last.isEnd = true
    · cases hrun : (Reading.start.run tokens).1 <;>
        simp [TokenReader.ofTokens, TokenReader.ahead, hlast, hend, hrun, Except.mapError]
    · simp [TokenReader.ofTokens, hlast, hend]

/-- A list of tokens is parsed exactly if it ends with the end of input and the tokens before the
first end of input derive an expression; the result is the tree of this derivation. There is one
such tree at most, and it holds the tokens in their order. -/
theorem parse_iff_derives :
    (∀ (tokens : List Token) (e : Expr), (TokenReader.ofTokens tokens).parse.1 = .ok e ↔
      tokens ≠ [] ∧ (∃ last, tokens.getLast? = some last ∧ last.kind = .endOfInput) ∧
        Derives (.rule .expression) (beforeEnd tokens) e) ∧
    (∀ (ts : List Token) (e e' : Expr), Derives (.rule .expression) ts e →
      Derives (.rule .expression) ts e' → e = e') ∧
    ∀ (ts : List Token) (e : Expr), Derives (.rule .expression) ts e →
      ts.map itemOf = items e := by
  refine ⟨fun tokens e => ?_, fun ts e e' => Derives.unique, fun ts e => Derives.map_itemOf⟩
  rw [parse_eq_ok_iff]
  constructor
  · intro h
    obtain ⟨last, hlast, hend, hrun⟩ := h
    have hne : tokens ≠ [] := by
      intro hnil
      subst hnil
      simp at hlast
    exact ⟨hne, ⟨last, hlast, Token.isEnd_iff.mp hend⟩, (run_start_iff hlast hend e).mp hrun⟩
  · intro h
    obtain ⟨_, ⟨last, hlast, hkind⟩, hderives⟩ := h
    have hend := Token.isEnd_iff.mpr hkind
    exact ⟨last, hlast, hend, (run_start_iff hlast hend e).mpr hderives⟩

end Reckoner.Grammar
