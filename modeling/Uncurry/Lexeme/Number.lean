import Uncurry.Lexeme.Fault
import Uncurry.Text.Identifier
import Uncurry.Token.Kind

/-!
# Number literals

A single underscore may stand between two digits. The literal is kept as written.
-/
namespace Uncurry.Lexeme

/-- The bases that a prefix of two characters chooses. -/
inductive Radix
  | hexadecimal
  | octal
  | binary
  deriving DecidableEq

namespace Radix

def ofLetter? (c : CodePoint) : Option Radix :=
  if c = 'x' || c = 'X' then some .hexadecimal
  else if c = 'o' || c = 'O' then some .octal
  else if c = 'b' || c = 'B' then some .binary
  else none

def isDigit : Radix → CodePoint → Bool
  | .hexadecimal, c => c.hexDigit?.isSome
  | .octal, c => 48 ≤ c.val && c.val ≤ 55
  | .binary, c => c = '0' || c = '1'

end Radix

/-- The length of a run of digits with underscores between them, given whether a digit came
before. -/
def digitsLength (isDigit : CodePoint → Bool) (afterDigit : Bool) : Text → Nat
  | [] => 0
  | c :: rest =>
    if isDigit c then digitsLength isDigit true rest + 1
    else if c = '_' && afterDigit && rest.head?.any isDigit then
      digitsLength isDigit afterDigit rest + 1
    else 0

/-- The length of the point and the digits after it. -/
def fractionLength : Text → Nat
  | [] => 0
  | c :: rest => if c = '.' then digitsLength CodePoint.isDigit false rest + 1 else 0

/-- The length of the exponent, which needs a digit. -/
def exponentLength : Text → Except LexCause Nat
  | [] => .ok 0
  | c :: rest =>
    if c = 'e' || c = 'E' then
      let sign := if rest.head?.any fun (d : CodePoint) => d = '+' || d = '-' then 1 else 0
      match digitsLength CodePoint.isDigit false (rest.drop sign) with
      | 0 => .error .invalidExponent
      | count => .ok (1 + sign + count)
    else .ok 0

/-- The length of a decimal literal without its suffix. -/
def decimalLength (t : Text) : Except LexCause Nat := do
  let whole := digitsLength CodePoint.isDigit false t
  let fraction := fractionLength (t.drop whole)
  let exponent ← exponentLength (t.drop (whole + fraction))
  return whole + fraction + exponent

/-- The base that the front of a text chooses by a zero and a letter. -/
def radix? : Text → Option Radix
  | c :: d :: _ => if c = '0' then Radix.ofLetter? d else none
  | _ => none

/-- The length of the digits of a literal with all that belongs to them but the suffix. -/
def magnitudeLength (t : Text) : Except LexCause Nat :=
  match radix? t with
  | some radix =>
    match digitsLength radix.isDigit false (t.drop 2) with
    | 0 => .error .invalidNumber
    | count => .ok (2 + count)
  | none => decimalLength t

/-- The kind and the length of the number literal at the front of a text. No identifier and no
digit may follow it directly. -/
def number (t : Text) : Except LexCause (TokenKind × Nat) := do
  let magnitude ← magnitudeLength t
  let big := (t.drop magnitude).head? = some (CodePoint.ofChar 'n')
  let length := if big then magnitude + 1 else magnitude
  if (t.drop length).head?.any fun c => c.isIdentifierStart || c.isDigit then
    throw .invalidNumberSuffix
  return (if big then .bigInt else .number, length)

end Uncurry.Lexeme
