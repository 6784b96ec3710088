import Uncurry.Curry.Transform

/-!
# Reporting failures
-/
namespace Uncurry

/-- Why a program stops short, in a way that it does not report itself. -/
inductive Crash
  | escapeOverflow
  | unknownLevel
  | undecodable
  | unencodable
  | notFound
  | isDirectory
  | notDirectory
  | nameTooLong
  | embeddedNull
  deriving DecidableEq

/-- How a program ends: with a status, with a last message, or short. -/
inductive Exit
  | status (code : Nat)
  | message (text : Text)
  | crash (cause : Crash)
  deriving DecidableEq

/-- A line of text. -/
def Text.line (t : Text) : Text := t ++ [CodePoint.ofChar '\n']

namespace Failure

/-- What is reported of a failure. An escape beyond all bounds has no report. -/
def report? : Failure → Option Text
  | source failure => failure.report?
  | edit error => some error.message

/-- The class of a failure, as a traceback names it. -/
def className : Failure → String
  | source (.lexical _) => "jscurry.lexer_rd.LexError"
  | source (.grammatical _) => "jscurry.parser_rd.ParseError"
  | edit _ => "jscurry.document.TransformError"

/-- The traceback of a failure that has this report. -/
def traceback (failure : Failure) (report : Text) : Text :=
  Text.line "Traceback (most recent call last):" ++
    Text.line (Text.ofString failure.className ++ Text.ofString ": " ++ report)

end Failure

/-- The records of a log that are written where nobody asked for a log: warnings, without level and
logger. -/
def warnings (log : List LogRecord) : Text :=
  (log.filter fun record => LogLevel.warning.rank ≤ record.level.rank).flatMap fun record =>
    Text.line record.message

end Uncurry
