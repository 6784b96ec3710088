import Uncurry.Command.Files
import Uncurry.Report
import Uncurry.Text.Surrogate

/-!
# Invocations and outcomes of commands
-/
namespace Uncurry.Command

/-- What a command is given besides the files. -/
structure Invocation where
  arguments : List Text
  /-- The standard input. -/
  input : ByteArray
  /-- The least level of log records that are written; empty if none was asked for. -/
  logLevel : Text
  /-- Whether a failure is reported with a traceback. -/
  traceback : Bool

/-- What a command leaves behind. -/
structure Outcome where
  exit : Exit
  output : Text
  /-- What is reported, surrogates included. -/
  errors : Text
  /-- The file that is written, with its new contents. -/
  written : Option (Text × ByteArray)

/-- The outcome of a command that ends before it writes anything. -/
def Outcome.early (exit : Exit) : Outcome := ⟨exit, [], [], none⟩

/-- What is written to the standard error. -/
def Outcome.errorText (outcome : Outcome) : Text := outcome.errors.escapeSurrogates

/-- How a command ends that meets a fault of a path. -/
def PathFault.crash : PathFault → Crash
  | missing => .notFound
  | notDirectory => .notDirectory
  | isDirectory => .isDirectory
  | tooLong => .nameTooLong
  | embeddedNull => .embeddedNull

/-- The text of bytes in UTF-8. -/
def decode (bytes : ByteArray) : Except Exit Text :=
  match String.fromUTF8? bytes with
  | some string => .ok (Text.ofString string)
  | none => .error (.crash .undecodable)

/-- The bytes of a text in UTF-8. -/
def encode (text : Text) : Except Exit ByteArray :=
  match text.toString? with
  | some string => .ok string.toUTF8
  | none => .error (.crash .unencodable)

/-- The outcome of a command that prints a text and then reports something more. A text without UTF-8
form cannot be printed. -/
def Outcome.printing (output errors more : Text) : Outcome :=
  match encode output with
  | .ok _ => ⟨.status 0, output, errors ++ more, none⟩
  | .error exit => ⟨exit, [], errors, none⟩

/-- The outcome of a command that writes a text into a file and then reports something more. The
file is emptied first, and stays empty if the text has no UTF-8 form. -/
def Outcome.writing (path output errors more : Text) : Outcome :=
  match encode output with
  | .ok bytes => ⟨.status 0, [], errors ++ more, some (path, bytes)⟩
  | .error exit => ⟨exit, [], errors, some (path, .empty)⟩

/-- The contents of what stands at a path. -/
def readFile (access : FileAccess) (path : Text) : Except Exit Text :=
  match access.find path with
  | .ok (.file contents) => decode contents
  | .ok .directory => .error (.crash .isDirectory)
  | .error fault => .error (.crash fault.crash)

/-- Which records of a log are written: the warnings, without level and logger, or all from some
level on. -/
inductive LogSetting
  | warningsOnly
  | fromRank (rank : Nat)
  deriving DecidableEq

namespace LogSetting

/-- The names of levels, of which the last stands for all records. -/
def levels : List (String × Nat) :=
  [("CRITICAL", LogLevel.critical.rank), ("FATAL", LogLevel.critical.rank),
   ("ERROR", LogLevel.error.rank), ("WARN", LogLevel.warning.rank),
   ("WARNING", LogLevel.warning.rank), ("INFO", LogLevel.info.rank),
   ("DEBUG", LogLevel.debug.rank), ("NOTSET", 0)]

/-- The setting that a level asks for, in capital letters or not. -/
def ofLevel? (level : Text) : Option LogSetting :=
  if level.isEmpty then some .warningsOnly
  else
    let wanted := level.map CodePoint.toUpper
    (levels.find? fun entry => wanted = Text.ofString entry.1).map fun entry => .fromRank entry.2

/-- What is written of a log. -/
def text (setting : LogSetting) (log : List LogRecord) : Text :=
  match setting with
  | warningsOnly => warnings log
  | fromRank rank =>
    (log.filter fun record => rank ≤ record.level.rank).flatMap fun record =>
      Text.line record.line

end LogSetting

/-- The outcome of a command that fails: a report with a heading, or a crash. -/
def Outcome.ofFailure (traceback : Bool) (heading : String) (errors : Text) (failure : Failure) :
    Outcome :=
  match failure.report? with
  | none => ⟨.crash .escapeOverflow, [], errors, none⟩
  | some report =>
    let traced := if traceback then failure.traceback report else []
    ⟨.status 1, [], errors ++ traced ++ Text.line (Text.ofString heading ++ report), none⟩

end Uncurry.Command
