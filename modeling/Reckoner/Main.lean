import Reckoner.Console

/-!
The command line. It reads files and lines, and writes what the console leaves behind.
-/

namespace Reckoner.Command

def emit (exit : Exit) : IO Unit := do
  let out ← IO.getStdout
  let err ← IO.getStderr
  out.write exit.output.toByteArray
  out.flush
  err.write exit.errors.toByteArray
  err.flush

def isFolderCode : UInt32 := 21

def readFile (name : String) : IO (Except ReadFault (List UInt8)) := do
  try
    let content ← IO.FS.readBinFile name
    return .ok content.data.toList
  catch
    | .noFileOrDirectory .. => return .error .missing
    | .inappropriateType _ code _ =>
      return .error (if code = isFolderCode then .isFolder else .notFolder)
    | .invalidArgument .. => return .error .longName
    | e => throw e

/-- Reads bytes up to the next line feed or the end of input. -/
partial def readLine (input : IO.FS.Stream) (read : ByteArray) : IO ByteArray := do
  let more ← input.read 1
  if more.isEmpty then return read
  else if more.data.toList = [Utf8.lineFeed] then return read ++ more
  else readLine input (read ++ more)

/-- Every line is run by itself, as a line leaves nothing behind for the next one. -/
partial def prompt (stage : Stage) : IO UInt32 := do
  emit ⟨0, Utf8.encode Console.promptText, []⟩
  let line ← readLine (← IO.getStdin) ByteArray.empty
  if line.isEmpty then return 0
  match Utf8.decode? line.data.toList with
  | some source =>
    emit (Console.runText stage source)
    prompt stage
  | none =>
    emit ⟨1, [], Utf8.encode Console.badLineText⟩
    return 1

end Reckoner.Command

open Reckoner in
def main (args : List String) : IO UInt32 := do
  match Request.ofArguments args with
  | .evaluate none stage => Command.prompt stage
  | .evaluate (some name) _ =>
    let content ← Command.readFile name
    let exit := Console.run args (fun _ => content) []
    Command.emit exit
    return exit.status.toUInt32
  | _ =>
    let exit := Console.run args (fun _ => .error .missing) []
    Command.emit exit
    return exit.status.toUInt32
