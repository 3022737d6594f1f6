import Reckoner.Quoted

/-!
Positions in a text. A position knows the text, what is left of it, and the number of its line. It
only moves forward, a character at a time, and a line feed that it passes starts a new line.
-/

namespace Reckoner

/-- The length of characters in bytes of UTF-8. -/
def byteLength : List Char → Nat
  | [] => 0
  | c :: cs => c.utf8Size + byteLength cs

/-- Leaves out a number of bytes in front, if they are whole characters. -/
def dropBytes? : Nat → List Char → Option (List Char)
  | 0, cs => some cs
  | _ + 1, [] => none
  | n + 1, c :: cs =>
    if c.utf8Size ≤ n + 1 then dropBytes? (n + 1 - c.utf8Size) cs else none

/-- Keeps a number of bytes in front, if they are whole characters. -/
def takeBytes? : Nat → List Char → Option (List Char)
  | 0, _ => some []
  | _ + 1, [] => none
  | n + 1, c :: cs =>
    if c.utf8Size ≤ n + 1 then (takeBytes? (n + 1 - c.utf8Size) cs).map (c :: ·) else none

/-- The part of a text between two byte offsets. There is none if they stand in the wrong order or
inside a character. -/
def slice? (cs : List Char) (start stop : Nat) : Option (List Char) :=
  if start ≤ stop then (dropBytes? start cs).bind (takeBytes? (stop - start)) else none

structure Position where
  source : List Char
  rest : List Char
  line : Nat

namespace Position

def ofText (source : String) : Position := ⟨source.toList, source.toList, 1⟩

/-- The number of bytes before the position. -/
def offset (p : Position) : Nat := byteLength p.source - byteLength p.rest

def isAtEnd (p : Position) : Bool := p.rest.isEmpty

def peek? (p : Position) : Option Char := p.rest[0]?

def peekNext? (p : Position) : Option Char := p.rest[1]?

/-- Passes one character, if there is one. -/
def next (p : Position) : Option Char × Position :=
  match p.rest with
  | [] => (none, p)
  | c :: rest => (some c, ⟨p.source, rest, if c = '\n' then p.line + 1 else p.line⟩)

/-- Passes `n` characters and one more, as far as there are any. -/
def nth (p : Position) : Nat → Option Char × Position
  | 0 => p.next
  | n + 1 =>
    match p.next with
    | (some _, after) => after.nth n
    | (none, after) => (none, after)

/-- Passes the next character if it is the given one. -/
def nextIf (p : Position) (c : Char) : Bool × Position :=
  if p.peek? = some c then (true, p.next.2) else (false, p)

/-- The line after some characters. -/
def lineAfter (line : Nat) (cs : List Char) : Nat :=
  cs.foldl (fun n c => if c = '\n' then n + 1 else n) line

/-- Passes characters as long as they pass a test. -/
def advanceWhile (p : Position) (test : Char → Bool) : Position :=
  ⟨p.source, p.rest.dropWhile test, lineAfter p.line (p.rest.takeWhile test)⟩

/-- Two positions are equal if their texts are and the same is left of them. -/
instance : BEq Position where
  beq p q := p.source == q.source && p.rest == q.rest

/-- The text from one position to a later one in the same text. -/
def sliceTo? (p q : Position) : Option (List Char) :=
  if p.source = q.source then slice? p.source p.offset q.offset else none

/-- A short description for a log. -/
def summary (p : Position) : String :=
  "Cursor \x7b line: Line(" ++ toString p.line ++ "), offset: " ++ toString p.offset ++ " \x7d"

/-- A description for a log with the whole text, over several lines. -/
def details (p : Position) : String :=
  "Cursor \x7b\n    line: Line(\n        " ++ toString p.line ++ ",\n    ),\n    offset: " ++
    toString p.offset ++ ",\n    source: " ++ Quoted.quote (String.ofList p.source) ++ ",\n\x7d"

end Position

end Reckoner
