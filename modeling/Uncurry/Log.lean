import Uncurry.Text.CodePoint

/-!
# Log records
-/
namespace Uncurry

inductive LogLevel
  | debug
  | info
  | warning
  | error
  | critical
  deriving DecidableEq

namespace LogLevel

def name : LogLevel → String
  | debug => "DEBUG"
  | info => "INFO"
  | warning => "WARNING"
  | error => "ERROR"
  | critical => "CRITICAL"

/-- How severe a level is. -/
def rank : LogLevel → Nat
  | debug => 1
  | info => 2
  | warning => 3
  | error => 4
  | critical => 5

end LogLevel

/-- The part of the program that writes a record. -/
inductive Logger
  | document
  | transforms
  deriving DecidableEq

def Logger.name : Logger → String
  | document => "jscurry.document"
  | transforms => "jscurry.transforms"

structure LogRecord where
  level : LogLevel
  logger : Logger
  message : Text
  deriving DecidableEq

/-- A record on one line, with its level and logger. -/
def LogRecord.line (record : LogRecord) : Text :=
  Text.ofString record.level.name ++ Text.ofString " " ++ Text.ofString record.logger.name ++
    Text.ofString ": " ++ record.message

end Uncurry
