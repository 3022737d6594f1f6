/-!
Diagnostics, the messages about faults of an expression. A static diagnostic is about the text or
its structure and may name the place on its line; a runtime one is about the values.
-/

namespace Reckoner

/-- Where on its line a static fault was found. -/
inductive Place
  | nowhere
  | atEnd
  | atLexeme (lexeme : String)
  deriving DecidableEq

def Place.text : Place → String
  | nowhere => ""
  | atEnd => " at end"
  | atLexeme lexeme => " at '" ++ lexeme ++ "'"

inductive Diagnostic
  | static (line : Nat) (place : Place) (message : String)
  | runtime (line : Nat) (message : String)
  deriving DecidableEq

namespace Diagnostic

def line : Diagnostic → Nat
  | static line _ _ => line
  | runtime line _ => line

def isRuntime : Diagnostic → Bool
  | static .. => false
  | runtime .. => true

def lineText (line : Nat) : String := "[line " ++ toString line ++ "]"

/-- A static diagnostic opens with its line and a runtime one closes with it. -/
def text : Diagnostic → String
  | static line place message => lineText line ++ " Error" ++ place.text ++ ": " ++ message
  | runtime line message => message ++ "\n" ++ lineText line

end Diagnostic

end Reckoner
