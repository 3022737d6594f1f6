import Reckoner.Expr.Evaluation
import Reckoner.Scan
import Reckoner.TokenReader

/-!
The trace of a text, which a detailed log shows while the text is run. It names the scanned tokens
and then, if there was no fault before, the nodes that evaluation enters.
-/

namespace Reckoner

def scannedText (t : Token) : String := "Scanned " ++ t.text

def enteredText (e : Expr) : String := "Evaluating " ++ e.text

/-- The nodes that evaluation enters for a scanned text. A fault keeps it from all of them. -/
def Scan.entered (s : Scan) : List Expr :=
  if s.errors.isEmpty then
    match Expr.ofTokens s.tokens with
    | .ok e => e.entered
    | .error _ => []
  else []

/-- The messages in order. The end of input is not shown. -/
def trace (source : String) : List String :=
  let scan := Scan.ofText source
  (scan.tokens.filter (!·.isEnd)).map scannedText ++ scan.entered.map enteredText

end Reckoner
