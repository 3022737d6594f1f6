import Reckoner.Stage

/-!
Arguments of the command line. They name at most one file and at most once the stage whose result is
shown. They are read from left to right, and the first argument that asks for help or for the
version, or that does not fit, decides.
-/

namespace Reckoner

inductive Request
  | help
  | version
  | misuse
  | evaluate (file : Option String) (stage : Stage)
  deriving DecidableEq

/-- What the arguments read so far have said. -/
structure Arguments where
  file : Option String
  stage : Option Stage

namespace Arguments

def unread : Arguments := ⟨none, none⟩

def request (a : Arguments) : Request := .evaluate a.file (a.stage.getD .value)

/-- Takes a file name, which must be the first one and not empty. -/
def withFile? (a : Arguments) (name : String) : Option Arguments :=
  if name.isEmpty || a.file.isSome then none else some ⟨some name, a.stage⟩

/-- Takes the text of a stage, which must be the first one. -/
def withStage? (a : Arguments) (text : String) : Option Arguments :=
  match Stage.ofText? text, a.stage with
  | some stage, none => some ⟨a.file, some stage⟩
  | _, _ => none

/-- Arguments after the end of the options. -/
def readFiles (a : Arguments) : List String → Request
  | [] => a.request
  | arg :: rest =>
    match a.withFile? arg with
    | some known => known.readFiles rest
    | none => .misuse

/-- An argument by its form. -/
inductive Form
  | file
  | endOfOptions
  | stage
  | stageIs (text : String)
  | help
  | version
  | unknown

def Form.ofLong (option : List Char) : Form :=
  let name := String.ofList (option.takeWhile (· != '='))
  match option.dropWhile (· != '=') with
  | [] =>
    if name = "" then endOfOptions
    else if name = "emit" then stage
    else if name = "help" then help
    else if name = "version" then version
    else unknown
  | _ :: value => if name = "emit" then stageIs (String.ofList value) else unknown

def Form.of (arg : String) : Form :=
  match arg.toList with
  | '-' :: '-' :: option => ofLong option
  | '-' :: 'h' :: _ => help
  | '-' :: 'V' :: _ => version
  | '-' :: _ :: _ => unknown
  | _ => file

def read (a : Arguments) : List String → Request
  | [] => a.request
  | arg :: rest =>
    match Form.of arg with
    | .file =>
      match a.withFile? arg with
      | some known => known.read rest
      | none => .misuse
    | .endOfOptions => a.readFiles rest
    | .stage =>
      match rest with
      | [] => .misuse
      | text :: rest =>
        match a.withStage? text with
        | some known => known.read rest
        | none => .misuse
    | .stageIs text =>
      match a.withStage? text with
      | some known => known.read rest
      | none => .misuse
    | .help => .help
    | .version => .version
    | .unknown => .misuse

end Arguments

def Request.ofArguments (args : List String) : Request := Arguments.unread.read args

end Reckoner
