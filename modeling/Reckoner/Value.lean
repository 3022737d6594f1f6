import Reckoner.Token

/-!
Values, which expressions denote and literals are. Values of different kinds are never equal, and
numbers are equal as floating-point numbers are, so that NaN differs from itself.
-/

namespace Reckoner

inductive Value
  | number (x : Float)
  | string (s : String)
  | bool (b : Bool)
  | nil
  deriving BEq

namespace Value

def text : Value → String
  | number x => Numeral.write x
  | string s => s
  | bool b => if b then "true" else "false"
  | nil => "nil"

/-- Only `nil` and `false` count as false. -/
def isTruthy : Value → Bool
  | nil => false
  | bool b => b
  | _ => true

end Value

def Literal.value : Literal → Value
  | number x => .number x
  | string s => .string s

end Reckoner
