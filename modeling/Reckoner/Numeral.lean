import Reckoner.Binary64.Nearest
import Reckoner.Decimal.Shortest

/-!
Numerals, the texts of numbers. Writing gives the shortest decimal that reads back as the number;
reading takes digits with an optional fraction and gives the nearest number.
-/

namespace Reckoner.Numeral

/-- The text of a finite or infinite magnitude. -/
def writeMagnitude (m : Nat) : List Char :=
  if m = Binary64.infinity then "Infinity".toList
  else if m = 0 then ['0']
  else (Decimal.shortest m).text

/-- Zero is written without its sign, and NaN has no sign. -/
def write (x : Float) : String :=
  let bits := x.toBits.toNat
  let m := bits % Binary64.signBit
  if Binary64.infinity < m then "NaN"
  else if Binary64.signBit ≤ bits ∧ m ≠ 0 then String.ofList ('-' :: writeMagnitude m)
  else String.ofList (writeMagnitude m)

/-- The number that a row of decimal digits stands for. -/
def digitsValue (ds : List Char) : Nat :=
  ds.foldl (fun n d => 10 * n + (d.toNat - '0'.toNat)) 0

/-- The number of a numeral with the given digits before and behind the point. -/
def ofDigits (whole fraction : List Char) : Float :=
  Float.ofBits (Binary64.ofDecimal (digitsValue (whole ++ fraction)) fraction.length).toUInt64

/-- Reads digits, or digits, a point and digits. Any other text is no numeral. -/
def read? (text : List Char) : Option Float :=
  let whole := text.takeWhile Char.isDigit
  if whole.isEmpty then none
  else match text.dropWhile Char.isDigit with
    | [] => some (ofDigits whole [])
    | '.' :: fraction =>
      if fraction.isEmpty || !fraction.all Char.isDigit then none else some (ofDigits whole fraction)
    | _ => none

end Reckoner.Numeral
