import Reckoner.Session

/-!
Stages of the work on an expression. Each stage shows its own result for a text. The tokens are shown
whether or not there were errors, the tree and the value only if there were none before them.
-/

namespace Reckoner

inductive Stage
  | tokens
  | tree
  | value
  deriving DecidableEq

namespace Stage

def ofText? : String → Option Stage
  | "tokens" => some tokens
  | "ast" => some tree
  | "value" => some value
  | _ => none

/-- Writes one token on each line. -/
def showTokens (s : Session) (source : String) : Session :=
  let (scanned, found) := s.scan source
  (scanned.write (String.intercalate "\n" (found.map Token.text) ++ "\n")).1

/-- Writes the canonical form of the expression. -/
def showTree (s : Session) (source : String) : Session :=
  let (scanned, found) := s.scan source
  if scanned.journal.hadError then scanned
  else match scanned.parse (.ofTokens found) with
    | (parsed, .ok e, _) => (parsed.write (e.text ++ "\n")).1
    | (parsed, .error _, _) => parsed

/-- Writes the result of a stage for a text. -/
def perform (stage : Stage) (s : Session) (source : String) : Session :=
  match stage with
  | tokens => showTokens s source
  | tree => showTree s source
  | value => (s.run source).1

end Stage

end Reckoner
