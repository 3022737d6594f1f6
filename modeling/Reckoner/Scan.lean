import Reckoner.Diagnostic
import Reckoner.Piece

/-!
Scanning, the reading of a text as tokens. A blank or a comment leaves no trace, a piece that is no
token leaves a fault, and scanning goes on after a fault. The last token is always the end of input.
-/

namespace Reckoner

inductive LexicalFault
  | unexpectedCharacter (c : Char)
  | unterminatedString
  | invalidNumber
  deriving DecidableEq

def LexicalFault.message : LexicalFault → String
  | unexpectedCharacter _ => "Unexpected character."
  | unterminatedString => "Unterminated string."
  | invalidNumber => "Invalid number."

structure LexicalError where
  fault : LexicalFault
  line : Nat
  deriving DecidableEq

def LexicalError.diagnostic (e : LexicalError) : Diagnostic :=
  .static e.line .nowhere e.fault.message

def LexicalError.text (e : LexicalError) : String := e.diagnostic.text

/-- What a piece leaves behind. -/
abbrev Entry := Except LexicalError Token

namespace Piece

def lineBreaks (p : Piece) : Nat := p.text.count '\n'

def lexeme (p : Piece) : String := String.ofList p.text

/-- The kind of a word, which is a keyword only as a whole. -/
def wordKind (p : Piece) : TokenKind :=
  match Keyword.ofText? p.lexeme with
  | some w => .keyword w
  | none => .identifier

/-- What lies between the first and the last character. -/
def inside (p : Piece) : String := String.ofList p.text.tail.dropLast

/-- The entry of a piece that ends on the given line. -/
def entry? (p : Piece) (line : Nat) : Option Entry :=
  match p.kind with
  | .blank | .comment => none
  | .symbol s => some (.ok ⟨.symbol s, p.lexeme, none, line⟩)
  | .word => some (.ok ⟨p.wordKind, p.lexeme, none, line⟩)
  | .string => some (.ok ⟨.string, p.lexeme, some (.string p.inside), line⟩)
  | .number =>
    match Numeral.read? p.text with
    | some x => some (.ok ⟨.number, p.lexeme, some (.number x), line⟩)
    | none => some (.error ⟨.invalidNumber, line⟩)
  | .unclosed => some (.error ⟨.unterminatedString, line⟩)
  | .stray => p.text.head?.map fun c => .error ⟨.unexpectedCharacter c, line⟩

end Piece

/-- The entries of pieces of which the first starts on the given line. -/
def entriesFrom (line : Nat) : List Piece → List Entry
  | [] => [.ok (.endOfInput line)]
  | p :: rest =>
    let next := line + p.lineBreaks
    (p.entry? next).toList ++ entriesFrom next rest

structure Scan where
  tokens : List Token
  errors : List LexicalError

namespace Scan

def ofEntries (entries : List Entry) : Scan where
  tokens := entries.filterMap fun
    | .ok t => some t
    | .error _ => none
  errors := entries.filterMap fun
    | .ok _ => none
    | .error e => some e

def ofText (source : String) : Scan := ofEntries (entriesFrom 1 (Piece.cut source.toList))

end Scan

end Reckoner
