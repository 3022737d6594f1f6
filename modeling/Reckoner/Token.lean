import Reckoner.Numeral

/-!
Tokens, the words of an expression. A token has a kind, the text it was read from, the literal that
this text stands for, if any, and the line it ends on. Tokens built by hand need not be consistent.
-/

namespace Reckoner

inductive Symbol
  | leftParen | rightParen | leftBrace | rightBrace | comma | dot | minus | plus | semicolon
  | slash | star | bang | bangEqual | equal | equalEqual | greater | greaterEqual | less
  | lessEqual
  deriving DecidableEq

namespace Symbol

def all : List Symbol :=
  [leftParen, rightParen, leftBrace, rightBrace, comma, dot, minus, plus, semicolon, slash, star,
    bang, bangEqual, equal, equalEqual, greater, greaterEqual, less, lessEqual]

/-- How a symbol is written in an expression. -/
def text : Symbol → String
  | leftParen => "("
  | rightParen => ")"
  | leftBrace => "\x7b"
  | rightBrace => "\x7d"
  | comma => ","
  | dot => "."
  | minus => "-"
  | plus => "+"
  | semicolon => ";"
  | slash => "/"
  | star => "*"
  | bang => "!"
  | bangEqual => "!="
  | equal => "="
  | equalEqual => "=="
  | greater => ">"
  | greaterEqual => ">="
  | less => "<"
  | lessEqual => "<="

def name : Symbol → String
  | leftParen => "LEFT_PAREN"
  | rightParen => "RIGHT_PAREN"
  | leftBrace => "LEFT_BRACE"
  | rightBrace => "RIGHT_BRACE"
  | comma => "COMMA"
  | dot => "DOT"
  | minus => "MINUS"
  | plus => "PLUS"
  | semicolon => "SEMICOLON"
  | slash => "SLASH"
  | star => "STAR"
  | bang => "BANG"
  | bangEqual => "BANG_EQUAL"
  | equal => "EQUAL"
  | equalEqual => "EQUAL_EQUAL"
  | greater => "GREATER"
  | greaterEqual => "GREATER_EQUAL"
  | less => "LESS"
  | lessEqual => "LESS_EQUAL"

end Symbol

inductive Keyword
  | andWord | classWord | elseWord | falseWord | forWord | funWord | ifWord | nilWord | orWord
  | printWord | returnWord | superWord | thisWord | trueWord | varWord | whileWord
  deriving DecidableEq

namespace Keyword

def all : List Keyword :=
  [andWord, classWord, elseWord, falseWord, forWord, funWord, ifWord, nilWord, orWord, printWord,
    returnWord, superWord, thisWord, trueWord, varWord, whileWord]

/-- How a keyword is written in an expression. -/
def text : Keyword → String
  | andWord => "and"
  | classWord => "class"
  | elseWord => "else"
  | falseWord => "false"
  | forWord => "for"
  | funWord => "fun"
  | ifWord => "if"
  | nilWord => "nil"
  | orWord => "or"
  | printWord => "print"
  | returnWord => "return"
  | superWord => "super"
  | thisWord => "this"
  | trueWord => "true"
  | varWord => "var"
  | whileWord => "while"

/-- The keyword with exactly the given text. -/
def ofText? (s : String) : Option Keyword := all.find? (·.text == s)

def name : Keyword → String
  | andWord => "AND"
  | classWord => "CLASS"
  | elseWord => "ELSE"
  | falseWord => "FALSE"
  | forWord => "FOR"
  | funWord => "FUN"
  | ifWord => "IF"
  | nilWord => "NIL"
  | orWord => "OR"
  | printWord => "PRINT"
  | returnWord => "RETURN"
  | superWord => "SUPER"
  | thisWord => "THIS"
  | trueWord => "TRUE"
  | varWord => "VAR"
  | whileWord => "WHILE"

theorem ofText?_text (w : Keyword) : ofText? w.text = some w := by
  cases w <;> decide

theorem text_of_ofText? {s : String} {w : Keyword} (h : ofText? s = some w) : w.text = s := by
  simpa using List.find?_some h

end Keyword

inductive TokenKind
  | symbol (s : Symbol)
  | keyword (w : Keyword)
  | identifier
  | string
  | number
  | endOfInput
  deriving DecidableEq

namespace TokenKind

def all : List TokenKind :=
  Symbol.all.map symbol ++ [identifier, string, number] ++ Keyword.all.map keyword ++ [endOfInput]

/-- The name of a kind in a listing of tokens. -/
def name : TokenKind → String
  | symbol s => s.name
  | keyword w => w.name
  | identifier => "IDENTIFIER"
  | string => "STRING"
  | number => "NUMBER"
  | endOfInput => "EOF"

def ofName? (s : String) : Option TokenKind := all.find? (·.name == s)

theorem ofName?_name (k : TokenKind) : ofName? k.name = some k := by
  cases k with
  | symbol s => cases s <;> decide
  | keyword w => cases w <;> decide
  | identifier => decide
  | string => decide
  | number => decide
  | endOfInput => decide

end TokenKind

/-- What a number or string token stands for. Two literals are compared as values, so that NaN
differs from itself and the two zeros are equal. -/
inductive Literal
  | number (x : Float)
  | string (s : String)
  deriving BEq

def Literal.text : Literal → String
  | number x => Numeral.write x
  | string s => s

structure Token where
  kind : TokenKind
  lexeme : String
  literal : Option Literal
  line : Nat
  deriving BEq

namespace Token

/-- The token that ends every scanned list. -/
def endOfInput (line : Nat) : Token := ⟨.endOfInput, "", none, line⟩

def isEnd (t : Token) : Bool := t.kind == .endOfInput

theorem isEnd_iff {t : Token} : t.isEnd = true ↔ t.kind = .endOfInput := beq_iff_eq

def literalText (t : Token) : String :=
  match t.literal with
  | some l => l.text
  | none => "null"

def text (t : Token) : String := t.kind.name ++ " " ++ t.lexeme ++ " " ++ t.literalText

end Token

end Reckoner
