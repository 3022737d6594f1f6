import Reckoner.Arguments
import Reckoner.Folder

/-!
The program at a console. It shows the result of a stage for the text of a file, or for each line of
its input after a prompt. The exit status tells a misused command line, a static error and a runtime
error apart.
-/

namespace Reckoner

/-- What a finished program leaves behind. -/
structure Exit where
  status : Nat
  output : List UInt8
  errors : List UInt8

namespace Console

/-- The text of a file, or why there is none. -/
def textOf (content : Except ReadFault (List UInt8)) : Except ReadFault String :=
  match content with
  | .error fault => .error fault
  | .ok bytes =>
    match Utf8.decode? bytes with
    | some text => .ok text
    | none => .error .notText

/-- The exit status after a text. A static error goes before a runtime error. -/
def statusOf (j : Journal) : Nat :=
  if j.hadError then 65 else if j.hadRuntimeError then 70 else 0

def exitOf (status : Nat) (s : Session) : Exit :=
  ⟨status, s.output.held, s.journal.reporter.written⟩

/-- Shows a stage for one text. -/
def runText (stage : Stage) (source : String) : Exit :=
  let s := stage.perform .unlimited source
  exitOf (statusOf s.journal) s

def unreadableText (name : String) (fault : ReadFault) : String :=
  "Error: Failed to read " ++ name ++ "\n\nCaused by:\n    " ++ fault.message ++ "\n"

def runFile (stage : Stage) (name : String) (content : Except ReadFault (List UInt8)) : Exit :=
  match textOf content with
  | .ok source => runText stage source
  | .error fault => ⟨1, [], Utf8.encode (unreadableText name fault)⟩

def promptText : String := "> "

def badLineText : String := "Error: " ++ ReadFault.notText.message ++ "\n"

/-- Shows a stage for lines that go into one session. The flags are forgotten before each line, and
a line that is no text ends the program. -/
def promptFrom (stage : Stage) (s : Session) : List (List UInt8) → Exit
  | [] => exitOf 0 (s.write promptText).1
  | line :: rest =>
    let asked := (s.write promptText).1
    match Utf8.decode? line with
    | none =>
      let left := exitOf 1 asked
      ⟨left.status, left.output, left.errors ++ Utf8.encode badLineText⟩
    | some source => promptFrom stage (stage.perform asked.reset source) rest

def runPrompt (stage : Stage) (input : List UInt8) : Exit :=
  promptFrom stage .unlimited (Utf8.lines input)

def versionText : String := "lox 0.1.0\n"

def usageText : String := "Usage: lox [OPTIONS] [FILE]\n"

def helpText : String :=
  "Evaluates an expression from FILE, or line by line from an interactive prompt.\n\n" ++
    usageText ++
    "\nOptions:\n" ++
    "      --emit <STAGE>  What to print: tokens, ast or value [default: value]\n" ++
    "  -h, --help          Print help\n" ++
    "  -V, --version       Print version\n"

def misuseText : String := "error: these arguments do not fit\n\n" ++ usageText

/-- Runs the program on its arguments, the files it may find, and its input. -/
def run (args : List String) (find : String → Except ReadFault (List UInt8))
    (input : List UInt8) : Exit :=
  match Request.ofArguments args with
  | .help => ⟨0, Utf8.encode helpText, []⟩
  | .version => ⟨0, Utf8.encode versionText, []⟩
  | .misuse => ⟨64, [], Utf8.encode misuseText⟩
  | .evaluate (some name) stage => runFile stage name (find name)
  | .evaluate none stage => runPrompt stage input

end Console

end Reckoner
