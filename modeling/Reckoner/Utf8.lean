/-!
Text as bytes in UTF-8. Strict reading refuses bytes that are not the encoding of a text; lenient
reading shows each of their longest incomplete or wrong sequences as one replacement character.
-/

namespace Reckoner.Utf8

def encode (s : String) : List UInt8 := s.toList.flatMap String.utf8EncodeChar

def decode? (bytes : List UInt8) : Option String := String.fromUTF8? bytes.toByteArray

def lineFeed : UInt8 := 10

/-- The lines of a text, each with the line feed that ends it. Only the last may lack it. -/
def lines : List UInt8 → List (List UInt8)
  | [] => []
  | b :: rest =>
    if b = lineFeed then [b] :: lines rest
    else match lines rest with
      | [] => [[b]]
      | line :: others => (b :: line) :: others

theorem encode_append (s t : String) : encode (s ++ t) = encode s ++ encode t := by
  simp only [encode, String.toList_append, List.flatMap_append]

theorem flatten_lines (bytes : List UInt8) : (lines bytes).flatten = bytes := by
  induction bytes with
  | nil => rfl
  | cons b rest ih =>
    simp only [lines]
    split
    · simp [ih]
    · split
      · next h => simp_all
      · next line others h => simp_all

/-- The ranges of the bytes that must follow the first byte of a character. The range of the second
byte keeps out encodings that are too long, surrogates, and code points beyond the last one. -/
def following? (first : UInt8) : Option (List (UInt8 × UInt8)) :=
  let tail := (0x80, 0xBF)
  if first < 0x80 then some []
  else if first < 0xC2 then none
  else if first < 0xE0 then some [tail]
  else if first = 0xE0 then some [(0xA0, 0xBF), tail]
  else if first = 0xED then some [(0x80, 0x9F), tail]
  else if first < 0xF0 then some [tail, tail]
  else if first = 0xF0 then some [(0x90, 0xBF), tail, tail]
  else if first < 0xF4 then some [tail, tail, tail]
  else if first = 0xF4 then some [(0x80, 0x8F), tail, tail]
  else none

/-- How many bytes lie in the ranges given for them, up to the first that does not. -/
def matching : List (UInt8 × UInt8) → List UInt8 → Nat
  | (low, high) :: ranges, b :: rest =>
    if low ≤ b ∧ b ≤ high then matching ranges rest + 1 else 0
  | _, _ => 0

/-- The character whose encoding has the given first byte and the given tail. -/
def character (first : UInt8) (tail : List UInt8) : Char :=
  let lead := if tail.isEmpty then first.toNat else first.toNat % 1 <<< (6 - tail.length)
  Char.ofNat (tail.foldl (fun n b => 64 * n + b.toNat % 64) lead)

def replacement : Char := Char.ofNat 0xFFFD

/-- The characters of bytes that need not be a text. -/
def lenient : List UInt8 → List Char
  | [] => []
  | first :: rest =>
    match following? first with
    | none => replacement :: lenient rest
    | some ranges =>
      let n := matching ranges rest
      (if n = ranges.length then character first (rest.take n) else replacement) ::
        lenient (rest.drop n)
termination_by bytes => bytes.length
decreasing_by all_goals (simp; try omega)

def display (bytes : List UInt8) : String := String.ofList (lenient bytes)

end Reckoner.Utf8
