import Uncurry.Command.Transform

/-!
# The program

Reads what the command needs, runs it, and carries its outcome out.
-/
namespace Uncurry.Program

open Command

/-- A text for the terminal, with a replacement character for each surrogate. -/
def shown (text : Text) : String :=
  String.ofList (text.map fun c => c.toChar?.getD '\uFFFD')

/-- What is said of a crash. -/
def crashMessage : Crash → String
  | .escapeOverflow => "escape out of range"
  | .unknownLevel => "unknown log level"
  | .undecodable => "input is not UTF-8"
  | .unencodable => "output has no UTF-8 form"
  | .notFound => "no such file"
  | .isDirectory => "is a directory"
  | .notDirectory => "not a directory"
  | .nameTooLong => "file name too long"
  | .embeddedNull => "null character in a path"

/-- Everything up to the end of a stream. -/
partial def readAll (stream : IO.FS.Stream) (soFar : ByteArray) : IO ByteArray := do
  let more ← stream.read 65536
  if more.isEmpty then return soFar else readAll stream (soFar ++ more)

/-- What stands at a path. -/
def probe (path : String) : IO (Except PathFault FileNode) := do
  try
    return .ok (.file (← IO.FS.readBinFile path))
  catch error =>
    match error with
    | .noFileOrDirectory .. => return .error .missing
    | .inappropriateType _ code _ =>
      return if code = 21 then .ok .directory else .error .notDirectory
    | .invalidArgument .. => return .error .tooLong
    | _ => throw error

/-- The files as far as a request asks for them: what stands at its operand. -/
def accessFor (request : Request) : IO FileAccess := do
  match request with
  | .transform options =>
    match options.named? with
    | some operand =>
      let found ← probe (shown (simplify operand))
      return ⟨fun _ => found, fun _ => none⟩
    | none => return FileSet.access []
  | _ => return FileSet.access []

/-- Carries an outcome out and answers the exit code. -/
def carryOut (outcome : Outcome) : IO UInt32 := do
  if let some (path, contents) := outcome.written then
    IO.FS.writeBinFile (shown path) contents
  IO.print (shown outcome.output)
  IO.eprint (shown outcome.errorText)
  match outcome.exit with
  | .status code => return code.toUInt32
  | .message text =>
    IO.eprintln (shown text)
    return 1
  | .crash cause =>
    IO.eprintln (crashMessage cause)
    return 1

end Uncurry.Program

open Uncurry Uncurry.Command Uncurry.Program in
def main (arguments : List String) : IO UInt32 := do
  let request := Request.ofArguments (arguments.map Text.ofString)
  let input ← if request.readsInput then readAll (← IO.getStdin) .empty else pure .empty
  let logLevel ← IO.getEnv "JSCURRY_LOG_LEVEL"
  let traceback ← IO.getEnv "JSCURRY_DEBUG_PY_TRACE"
  let invocation : Invocation :=
    { arguments := arguments.map Text.ofString
      input := input
      logLevel := (logLevel.map Text.ofString).getD []
      traceback := !(traceback.getD "").isEmpty }
  carryOut (transform (← accessFor request) invocation)
