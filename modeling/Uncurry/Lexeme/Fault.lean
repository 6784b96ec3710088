import Uncurry.Text.CodePoint

/-!
# What can be wrong with a lexeme
-/
namespace Uncurry

inductive LexCause
  | unterminatedString
  | unterminatedTemplate
  | unterminatedRegex
  | unterminatedComment
  | invalidNumber
  | invalidExponent
  | invalidNumberSuffix
  | invalidEscape
  | unexpected (c : CodePoint)
  deriving DecidableEq

namespace LexCause

def message : LexCause → Text
  | .unterminatedString => Text.ofString "Unterminated string"
  | .unterminatedTemplate => Text.ofString "Unterminated template literal"
  | .unterminatedRegex => Text.ofString "Unterminated regex literal"
  | .unterminatedComment => Text.ofString "Unterminated comment"
  | .invalidNumber => Text.ofString "Invalid number literal"
  | .invalidExponent => Text.ofString "Invalid exponent in number literal"
  | .invalidNumberSuffix => Text.ofString "Invalid number suffix"
  | .invalidEscape => Text.ofString "Invalid unicode escape"
  | .unexpected c => Text.ofString "Unexpected character '" ++ c :: Text.ofString "'"

/-- Whether more text could complete the lexeme: it lacks its end, and is no string, whose end has
to stand on the same line. -/
def isOpen : LexCause → Bool
  | .unterminatedTemplate | .unterminatedRegex | .unterminatedComment => true
  | _ => false

end LexCause

/-- How the reading of a lexeme fails: it is malformed some characters after its start, or it has an
escape whose value no 32-bit integer holds, which is reported without a place. -/
inductive LexemeFault
  | malformed (cause : LexCause) (offset : Nat)
  | escapeOverflow
  deriving DecidableEq

/-- The same fault, counted from some characters further back. -/
def LexemeFault.shift (count : Nat) : LexemeFault → LexemeFault
  | .malformed cause offset => .malformed cause (offset + count)
  | .escapeOverflow => .escapeOverflow

end Uncurry
