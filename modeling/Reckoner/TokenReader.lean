import Reckoner.Diagnostic
import Reckoner.Expr.Reading

/-!
A token reader holds a list of tokens and an index into it. It never moves past the end of input.
After a syntax error it stands at the token that the error is about.
-/

namespace Reckoner

def SyntaxFault.message : SyntaxFault → String
  | expectedExpression => "Expect expression."
  | expectedRightParen => "Expect ')' after expression."
  | expectedEnd => "Expect end of expression."

structure SyntaxError where
  fault : SyntaxFault
  line : Nat
  place : Place
  deriving DecidableEq

namespace SyntaxError

/-- The error at a token. At the end of input there is no lexeme to show. -/
def about (fault : SyntaxFault) (t : Token) : SyntaxError :=
  ⟨fault, t.line, if t.isEnd then .atEnd else .atLexeme t.lexeme⟩

/-- The error at the first of the tokens that are left. -/
def atFirst (fault : SyntaxFault) : List Token → SyntaxError
  | [] => ⟨fault, 1, .atEnd⟩
  | t :: _ => about fault t

def diagnostic (e : SyntaxError) : Diagnostic := .static e.line e.place e.fault.message

def text (e : SyntaxError) : String := e.diagnostic.text

end SyntaxError

/-- Whether a statement may start with the token. -/
def Token.startsStatement (t : Token) : Bool :=
  match t.kind with
  | .keyword w =>
    w == .classWord || w == .funWord || w == .varWord || w == .forWord || w == .ifWord ||
      w == .whileWord || w == .printWord || w == .returnWord
  | _ => false

def Token.endsStatement (t : Token) : Bool := t.kind == .symbol .semicolon

structure TokenReader where
  tokens : List Token
  current : Nat

namespace TokenReader

def ofTokens (tokens : List Token) : TokenReader := ⟨tokens, 0⟩

def ahead (r : TokenReader) : List Token := r.tokens.drop r.current

def peek? (r : TokenReader) : Option Token := r.tokens[r.current]?

def previous? (r : TokenReader) : Option Token :=
  if r.current = 0 then none else r.tokens[r.current - 1]?

def isAtEnd (r : TokenReader) : Bool := r.peek?.all Token.isEnd

/-- Whether the next token has the given kind. Nothing matches at the end of input. -/
def check (r : TokenReader) (kind : TokenKind) : Bool :=
  !r.isAtEnd && r.peek?.any (·.kind == kind)

/-- The next token, and the reader behind it unless it is the end of input. -/
def advance (r : TokenReader) : Option Token × TokenReader :=
  (r.peek?, if r.isAtEnd then r else ⟨r.tokens, r.current + 1⟩)

/-- How many tokens to skip from `ahead` to reach a statement, after the token `behind`. -/
def statementDistance (behind : Token) : (ahead : List Token) → Nat
  | [] => 0
  | t :: rest =>
    if t.isEnd || behind.endsStatement || t.startsStatement then 0
    else statementDistance t rest + 1

theorem statementDistance_le (behind : Token) (ahead : List Token) :
    statementDistance behind ahead ≤ ahead.length := by
  induction ahead generalizing behind with
  | nil => exact Nat.le_refl 0
  | cons t rest ih =>
    have := ih t
    simp only [statementDistance, List.length_cons]
    split <;> omega

/-- Moves to the next token that may start a statement, past at least one token. -/
def toNextStatement (r : TokenReader) : TokenReader :=
  match r.ahead with
  | [] => r
  | t :: rest =>
    if t.isEnd then r else ⟨r.tokens, r.current + 1 + statementDistance t rest⟩

/-- The error for tokens that the end of input does not close. -/
def unclosed (tokens : List Token) : SyntaxError :=
  ⟨.expectedExpression, (tokens.getLast?.map Token.line).getD 1, .atEnd⟩

/-- Moves to the first of the tokens that are left. -/
def withLeft (r : TokenReader) (rest : List Token) : TokenReader :=
  ⟨r.tokens, r.tokens.length - rest.length⟩

/-- Reads one expression that reaches to the end of input. -/
def parse (r : TokenReader) : Except SyntaxError Expr × TokenReader :=
  if r.tokens.getLast?.any Token.isEnd then
    let (result, rest) := Reading.start.run r.ahead
    (result.mapError (.atFirst · rest), r.withLeft rest)
  else (.error (unclosed r.tokens), r)

end TokenReader

/-- The expression of a whole list of tokens. -/
def Expr.ofTokens (tokens : List Token) : Except SyntaxError Expr :=
  (TokenReader.ofTokens tokens).parse.1

end Reckoner
