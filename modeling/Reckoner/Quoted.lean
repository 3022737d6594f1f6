import Reckoner.Character.Mark
import Reckoner.Character.Unseen

/-!
Quoted text, on one line and with nothing invisible in it. A quote and a backslash are written with
a backslash before them, and characters that cannot be seen on their own by a letter or by their
code point.
-/

namespace Reckoner.Quoted

def isInvisible (c : Char) : Bool := Character.isMark c || Character.isUnseen c

def character (c : Char) : List Char :=
  match c with
  | '"' => ['\\', '"']
  | '\\' => ['\\', '\\']
  | '\n' => ['\\', 'n']
  | '\r' => ['\\', 'r']
  | '\t' => ['\\', 't']
  | '\x00' => ['\\', '0']
  | _ =>
    if isInvisible c then ['\\', 'u', '{'] ++ Nat.toDigits 16 c.toNat ++ ['}'] else [c]

def quote (s : String) : String :=
  "\"" ++ String.ofList (s.toList.flatMap character) ++ "\""

end Reckoner.Quoted
