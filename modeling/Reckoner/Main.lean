import Reckoner.CommandLine.Basic

/-! # The program

Reads the arguments, the environment, the input and a file, and writes what the command line makes
of them.  On a terminal each line is answered before the next one is read.
-/
namespace Reckoner.Main

open CommandLine

def write (stream : IO.FS.Stream) (text : String) : IO Unit := do
  stream.putStr text
  stream.flush

partial def answer (limits : Limits) (colors : Bool) (s : Session) : IO Unit := do
  let out ← IO.getStdout
  write out (prompt.render colors)
  let line ← (← IO.getStdin).getLine
  if line.isEmpty then return
  let (s, shown, flow) := converseStep limits s line
  write out (shown.render colors)
  match flow with
  | .exit => return
  | .continue => answer limits colors s

partial def readAll (stream : IO.FS.Stream) (read : ByteArray) : IO ByteArray := do
  let more ← stream.read 65536
  if more.isEmpty then return read else readAll stream (read ++ more)

def readFile (path : String) : IO (Except ReadError ByteArray) := do
  try return .ok (← IO.FS.readBinFile path)
  catch
  | .noFileOrDirectory .. => return .error .missing
  | .inappropriateType _ number text | .permissionDenied _ number text
  | .invalidArgument _ number text | .resourceExhausted _ number text
  | .noSuchThing _ number text | .otherError number text =>
    return .error (.other text number.toNat)
  | e => return .error (.other (toString e) 0)

/-- The bytes that a command line will need from a file and from the input. -/
def gather (action : Action) : IO (Except ReadError ByteArray × ByteArray) := do
  match action with
  | .runFile path => return (← readFile path, .empty)
  | .converse => return (.error .missing, ← readAll (← IO.getStdin) .empty)
  | _ => return (.error .missing, .empty)

end Reckoner.Main

open Reckoner Reckoner.Main in
def main (args : List String) : IO UInt32 := do
  let noColor ← IO.getEnv "NO_COLOR"
  let terminal ← (← IO.getStdout).isTty
  let action :=
    match Settings.read noColor args with
    | .ok (_, rest) => CommandLine.Action.ofArguments rest
    | .error _ => .help
  match Settings.read noColor args, action, ← (← IO.getStdin).isTty with
  | .ok (settings, _), .converse, true =>
    answer settings.limits (settings.color.enabled terminal) .fresh
    return 0
  | _, _, _ =>
    let (content, input) ← gather action
    let outcome := CommandLine.run ⟨args, noColor, terminal, input, fun _ => content⟩
    write (← IO.getStdout) outcome.out
    write (← IO.getStderr) outcome.err
    return outcome.code.toUInt32
