import Uncurry.Lexeme.Fault
import Uncurry.Text.HexInteger
import Uncurry.Text.Identifier
import Uncurry.Token.Kind

/-!
# Identifiers and their escapes

An escape stands for one code point, whichever it is: the digits of `\u` are the next four
characters, those of `\u{` all characters up to a brace or the end of the text.
-/
namespace Uncurry.Lexeme

/-- The digits of an escape, and how many characters the escape takes after its backslash. The text
is what follows the backslash. -/
def escapeDigits? : Text → Option (Text × Nat)
  | [] => none
  | c :: rest =>
    if c = 'u' then
      if rest.head? = some (CodePoint.ofChar '{') then
        let digits := rest.tail.takeWhile (· != CodePoint.ofChar '}')
        let brace := if digits.length < rest.tail.length then 1 else 0
        some (digits, 2 + digits.length + brace)
      else some (rest.take 4, 1 + (rest.take 4).length)
    else none

/-- The code point of an escape, and how many characters the escape takes after its backslash. -/
def escape (t : Text) : Except LexemeFault (CodePoint × Nat) :=
  match escapeDigits? t with
  | none => .error (.malformed .invalidEscape 0)
  | some (digits, length) =>
    match Text.HexInteger.read digits with
    | none => .error (.malformed .invalidEscape 0)
    | some value =>
      if value < -2147483648 || 2147483647 < value then .error .escapeOverflow
      else if value < 0 then .error (.malformed .invalidEscape 0)
      else match CodePoint.ofNat? value.toNat with
        | none => .error (.malformed .invalidEscape 0)
        | some c => .ok (c, length)

/-- An identifier as read: its spelling with the escapes decoded, the number of characters it takes,
and whether there is an escape among them. -/
structure Name where
  spelling : Text
  length : Nat
  escaped : Bool
  deriving DecidableEq

/-- The longest run of identifier characters and escapes at the front of a text. -/
def name : Text → Except LexemeFault Name
  | [] => .ok ⟨[], 0, false⟩
  | c :: rest =>
    if c = '\\' then
      match escape rest with
      | .error fault => .error fault
      | .ok (d, length) =>
        match name (rest.drop length) with
        | .error fault => .error (fault.shift (length + 1))
        | .ok later => .ok ⟨d :: later.spelling, later.length + length + 1, true⟩
    else if c.isIdentifierPart then
      match name rest with
      | .error fault => .error (fault.shift 1)
      | .ok later => .ok ⟨c :: later.spelling, later.length + 1, later.escaped⟩
    else .ok ⟨[], 0, false⟩
termination_by t => t.length
decreasing_by all_goals simp only [List.length_cons, List.length_drop]; omega

namespace Name

/-- A reserved word is one only if it is written without escapes. -/
def kind (name : Name) : TokenKind :=
  if name.escaped then .identifier
  else match TokenKind.reservedWords.find? fun entry => name.spelling = Text.ofString entry.1 with
    | some entry => entry.2
    | none => .identifier

end Name

end Uncurry.Lexeme
