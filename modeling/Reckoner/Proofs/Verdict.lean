import Mathlib.Data.List.TakeWhile
import Reckoner.Proofs.Grammar
import Reckoner.Session

/-!
The verdict on a list of tokens, found in one pass with no stack. It is enough to know whether an
operand is expected next and how many parentheses are open. Parsing from any index comes to this
verdict: it stops at the same token, and a fault that it reports is about this token.
-/

namespace Reckoner.Verdict

open Grammar (binaryOperators)

inductive Mode
  | expected
  | complete
  deriving DecidableEq

/-- Whether an operand is expected or complete, and how many parentheses are open. -/
structure State where
  mode : Mode
  depth : Nat

inductive Move
  | go (next : State)
  | accept
  | refuse (fault : SyntaxFault)

def isBinary (t : Token) : Bool :=
  match t.kind with
  | .symbol o => binaryOperators.contains o
  | _ => false

/-- The move on a token where an operand is expected. -/
def moveExpected (depth : Nat) (t : Token) : Move :=
  match t.kind with
  | .symbol .bang | .symbol .minus => .go ⟨.expected, depth⟩
  | .symbol .leftParen => .go ⟨.expected, depth + 1⟩
  | .keyword .trueWord | .keyword .falseWord | .keyword .nilWord => .go ⟨.complete, depth⟩
  | .number | .string =>
    if t.literal.isSome then .go ⟨.complete, depth⟩ else .refuse .expectedExpression
  | _ => .refuse .expectedExpression

/-- The move on a token after a complete operand. -/
def moveComplete (depth : Nat) (t : Token) : Move :=
  if isBinary t then .go ⟨.expected, depth⟩
  else if 0 < depth then
    if t.kind = .symbol .rightParen then .go ⟨.complete, depth - 1⟩
    else .refuse .expectedRightParen
  else if t.kind = .endOfInput then .accept
  else .refuse .expectedEnd

namespace State

def start : State := ⟨.expected, 0⟩

def move (s : State) (t : Token) : Move :=
  match s.mode with
  | .expected => moveExpected s.depth t
  | .complete => moveComplete s.depth t

/-- The number of tokens before the one that decides, and the fault there, if it is one. A list
that does not decide lacks an operand. -/
def judge (s : State) : List Token → Nat × Option SyntaxFault
  | [] => (0, some .expectedExpression)
  | t :: rest =>
    match s.move t with
    | .go next => ((judge next rest).1 + 1, (judge next rest).2)
    | .accept => (0, none)
    | .refuse fault => (0, some fault)

end State

/-- The number of open parentheses on a stack. -/
def openGroups : List Pending → Nat
  | [] => 0
  | .group :: rest => openGroups rest + 1
  | .unary _ :: rest => openGroups rest
  | .binary _ _ _ :: rest => openGroups rest

/-- What the verdict needs to know of a state of reading. -/
def ofReading (state : Reading) : State :=
  ⟨if state.operand.isNone then .expected else .complete, openGroups state.waiting⟩

def ofStep : Reading.Step → Move
  | .next after => .go (ofReading after)
  | .accepted _ => .accept
  | .refused fault => .refuse fault

/-- Joining operators closes no parenthesis. -/
theorem openGroups_settle (level : Nat) (waiting : List Pending) (e : Expr) :
    openGroups (settle level waiting e).1 = openGroups waiting := by
  induction waiting generalizing e with
  | nil => rfl
  | cons p rest ih =>
    cases p with
    | unary op => exact ih _
    | group => rfl
    | binary l left op =>
      simp only [settle]
      split
      · exact ih _
      · rfl

theorem isBinary_eq (t : Token) : isBinary t = t.level?.isSome := by
  obtain ⟨kind, lexeme, literal, line⟩ := t
  cases kind with
  | symbol o => cases o <;> rfl
  | _ => rfl

theorem moveExpected_eq (waiting : List Pending) (t : Token) :
    moveExpected (openGroups waiting) t = ofStep (Reading.stepOperand waiting t) := by
  obtain ⟨kind, lexeme, literal, line⟩ := t
  cases kind with
  | symbol o => cases o <;> rfl
  | keyword w => cases w <;> rfl
  | identifier => rfl
  | string => cases literal <;> rfl
  | number => cases literal <;> rfl
  | endOfInput => rfl

theorem moveComplete_eq (waiting : List Pending) (e : Expr) (t : Token) :
    moveComplete (openGroups waiting) t = ofStep (Reading.stepOperator waiting e t) := by
  simp only [moveComplete, isBinary_eq, Reading.stepOperator]
  cases hlevel : t.level? with
  | some level =>
    have hgroups := openGroups_settle level waiting e
    simp [ofStep, ofReading, openGroups, hgroups]
  | none =>
    -- With no operator to join, the stack is empty or waits for a parenthesis.
    have hgroups := openGroups_settle 0 waiting e
    rcases settle_head 0 waiting e with h | ⟨rest, h⟩ | ⟨l, left, op, rest, h, hl⟩
    · have hsettle : settle 0 waiting e = ([], (settle 0 waiting e).2) := Prod.ext h rfl
      rw [h] at hgroups
      rw [hsettle, ← hgroups]
      by_cases hend : t.kind = .endOfInput
      · simp [openGroups, Token.isEnd, hend, ofStep]
      · simp [openGroups, Token.isEnd, hend, ofStep]
    · have hsettle : settle 0 waiting e = (.group :: rest, (settle 0 waiting e).2) :=
        Prod.ext h rfl
      rw [h] at hgroups
      rw [hsettle, ← hgroups]
      by_cases hclose : t.kind = .symbol .rightParen
      · simp [openGroups, Token.closesGroup, hclose, ofStep, ofReading]
      · simp [openGroups, Token.closesGroup, hclose, ofStep]
    · omega

/-- A step of reading is a move of the verdict. -/
theorem move_ofReading (state : Reading) (t : Token) :
    (ofReading state).move t = ofStep (state.step t) := by
  obtain ⟨waiting, operand⟩ := state
  cases operand with
  | none => exact moveExpected_eq waiting t
  | some e => exact moveComplete_eq waiting e t

/-- The fault of a result. -/
def faultOf (result : Except SyntaxFault Expr) : Option SyntaxFault :=
  match result with
  | .ok _ => none
  | .error fault => some fault

theorem judge_ofReading (state : Reading) (ts : List Token) :
    ((ofReading state).judge ts).1 + (state.run ts).2.length = ts.length ∧
      ((ofReading state).judge ts).2 = faultOf (state.run ts).1 := by
  induction ts generalizing state with
  | nil => exact ⟨rfl, rfl⟩
  | cons t rest ih =>
    simp only [State.judge, Reading.run, move_ofReading]
    cases hstep : state.step t with
    | next after =>
      obtain ⟨hcount, hfault⟩ := ih after
      simp only [ofStep, List.length_cons]
      exact ⟨by omega, hfault⟩
    | accepted e => exact ⟨by simp [ofStep], rfl⟩
    | refused fault => exact ⟨by simp [ofStep], rfl⟩

/-- No move goes past the end of input. -/
theorem move_ne_go {s : State} {t : Token} (ht : t.kind = .endOfInput) (next : State) :
    s.move t ≠ .go next := by
  obtain ⟨mode, depth⟩ := s
  cases mode with
  | expected => simp [State.move, moveExpected, ht]
  | complete =>
    simp only [State.move, moveComplete, isBinary, ht]
    split
    · contradiction
    split <;> simp

theorem kind_of_accept {s : State} {t : Token} (h : s.move t = .accept) :
    t.kind = .endOfInput := by
  obtain ⟨mode, depth⟩ := s
  cases mode with
  | expected =>
    simp only [State.move, moveExpected] at h
    split at h <;> try split at h
    all_goals simp at h
  | complete =>
    simp only [State.move, moveComplete] at h
    split at h
    · simp at h
    split at h
    · split at h <;> simp at h
    split at h
    · next hend => exact hend
    · simp at h

/-- A list with an end of input is decided at one of its tokens, and accepted only at its end. -/
theorem exists_judge_token (s : State) {ts : List Token} {last : Token}
    (hlast : ts.getLast? = some last) (hend : last.kind = .endOfInput) :
    ∃ t, ts[(s.judge ts).1]? = some t ∧
      ((s.judge ts).2 = none → t.kind = .endOfInput) := by
  induction ts generalizing s with
  | nil => simp at hlast
  | cons t rest ih =>
    simp only [State.judge]
    cases hmove : s.move t with
    | go next =>
      cases rest with
      | nil =>
        simp only [List.getLast?_singleton, Option.some.injEq] at hlast
        exact absurd hmove (move_ne_go (hlast ▸ hend) next)
      | cons u rest =>
        rw [List.getLast?_cons_cons] at hlast
        simpa using ih next hlast
    | accept => exact ⟨t, rfl, fun _ => kind_of_accept hmove⟩
    | refuse fault => exact ⟨t, rfl, by simp⟩

/-- Parsing decides where the verdict does. A fault leaves the index at its token. -/
theorem parse_eq_of_judge {tokens : List Token} {i stop : Nat} {verdict : Option SyntaxFault}
    {last t : Token} (hlast : tokens.getLast? = some last) (hend : last.kind = .endOfInput)
    (hi : i < tokens.length) (hjudge : State.start.judge (tokens.drop i) = (stop, verdict))
    (ht : tokens[i + stop]? = some t) :
    ∃ result, faultOf result = verdict ∧ TokenReader.parse ⟨tokens, i⟩ =
      (result.mapError (SyntaxError.about · t), ⟨tokens, i + stop⟩) := by
  obtain ⟨hcount, hfault⟩ := judge_ofReading .start (tokens.drop i)
  obtain ⟨before, hbefore⟩ := Reading.run_suffix .start (tokens.drop i)
  cases hrun : Reading.start.run (tokens.drop i) with
  | mk result rest =>
    rw [hrun] at hcount hfault hbefore
    change (State.start.judge (tokens.drop i)).1 + rest.length = _ at hcount
    change (State.start.judge (tokens.drop i)).2 = faultOf result at hfault
    rw [hjudge] at hcount hfault
    simp only [List.length_drop] at hcount hfault hbefore
    have hrest : rest = tokens.drop (i + stop) := by
      have hlength := congrArg List.length hbefore
      simp only [List.length_append, List.length_drop] at hlength
      have hstop : before.length = stop := by omega
      rw [← List.drop_drop, ← hbefore, ← hstop, List.drop_left]
    have hcons : rest = t :: tokens.drop (i + stop + 1) := by
      rw [hrest]
      exact List.drop_eq_getElem?_toList_append.trans (by rw [ht]; rfl)
    refine ⟨result, hfault.symm, ?_⟩
    have hisEnd := Token.isEnd_iff.mpr hend
    have hindex : tokens.length - rest.length = i + stop := by omega
    simp only [TokenReader.parse, hlast, Option.any_some, hisEnd, if_true, TokenReader.ahead, hrun,
      TokenReader.withLeft, hindex]
    rw [hcons]
    rfl

end Reckoner.Verdict
