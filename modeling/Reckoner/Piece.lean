import Reckoner.Token

/-!
Pieces, the stretches of text that an expression is cut into from left to right. Each piece is the
longest one that starts at its place. A quote without a closing one takes all the text that follows,
and a character that starts nothing is a piece of its own.
-/

namespace Reckoner

inductive PieceKind
  | blank
  | comment
  | symbol (s : Symbol)
  | string
  | number
  | word
  | unclosed
  | stray
  deriving DecidableEq

structure Piece where
  kind : PieceKind
  text : List Char
  deriving DecidableEq

def isBlank (c : Char) : Bool := c == ' ' || c == '\r' || c == '\t' || c == '\n'

/-- Letters are those of ASCII and the underscore. -/
def isWordStart (c : Char) : Bool := c.isAlpha || c == '_'

def isWordPart (c : Char) : Bool := isWordStart c || c.isDigit

namespace Piece

/-- The symbols of one character that no longer symbol starts with. -/
def single? : Char → Option Symbol
  | '(' => some .leftParen
  | ')' => some .rightParen
  | '{' => some .leftBrace
  | '}' => some .rightBrace
  | ',' => some .comma
  | '.' => some .dot
  | '-' => some .minus
  | '+' => some .plus
  | ';' => some .semicolon
  | '*' => some .star
  | _ => none

/-- The symbols that an equals sign may extend, with the longer one. -/
def extensible? : Char → Option (Symbol × Symbol)
  | '!' => some (.bang, .bangEqual)
  | '=' => some (.equal, .equalEqual)
  | '>' => some (.greater, .greaterEqual)
  | '<' => some (.less, .lessEqual)
  | _ => none

/-- How many characters continue a number whose first digit has been read. A point belongs to the
number only if a digit follows it. -/
def numberTail (rest : List Char) : Nat :=
  let whole := (rest.takeWhile Char.isDigit).length
  match rest.drop whole with
  | '.' :: d :: more =>
    if d.isDigit then whole + 2 + (more.takeWhile Char.isDigit).length else whole
  | _ => whole

/-- The kind of the piece that starts with `c`, and how many characters of `rest` belong to it. -/
def measure (c : Char) (rest : List Char) : PieceKind × Nat :=
  if isBlank c then (.blank, 0)
  else if c.isDigit then (.number, numberTail rest)
  else if isWordStart c then (.word, (rest.takeWhile isWordPart).length)
  else if c = '"' then
    let inside := (rest.takeWhile (· != '"')).length
    if inside < rest.length then (.string, inside + 1) else (.unclosed, inside)
  else if c = '/' then
    if rest.head? = some '/' then (.comment, (rest.takeWhile (· != '\n')).length)
    else (.symbol .slash, 0)
  else if let some s := single? c then (.symbol s, 0)
  else if let some (short, long) := extensible? c then
    if rest.head? = some '=' then (.symbol long, 1) else (.symbol short, 0)
  else (.stray, 0)

/-- The pieces of a text in order. -/
def cut : List Char → List Piece
  | [] => []
  | c :: rest =>
    let (kind, more) := measure c rest
    ⟨kind, c :: rest.take more⟩ :: cut (rest.drop more)
termination_by text => text.length
decreasing_by simp only [List.length_drop, List.length_cons]; omega

theorem cut_cons (c : Char) (rest : List Char) :
    cut (c :: rest) = ⟨(measure c rest).1, c :: rest.take (measure c rest).2⟩ ::
      cut (rest.drop (measure c rest).2) := by
  rw [cut]

/-- Cutting loses nothing. -/
theorem flatMap_text_cut (source : List Char) : (cut source).flatMap Piece.text = source := by
  fun_induction cut source with
  | case1 => rfl
  | case2 c rest kind more h ih =>
    simp only [List.flatMap_cons, ih, List.cons_append, List.take_append_drop]

theorem text_ne_nil {p : Piece} {source : List Char} (h : p ∈ cut source) : p.text ≠ [] := by
  fun_induction cut source with
  | case1 => simp at h
  | case2 c rest kind more _ ih =>
    rcases List.mem_cons.mp h with rfl | hrest
    · simp
    · exact ih hrest

end Piece

end Reckoner
