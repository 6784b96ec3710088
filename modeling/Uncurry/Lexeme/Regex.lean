import Uncurry.Text.Identifier
import Uncurry.Text.Line

/-!
# Regular expression literals

A slash inside a class `[…]` or after a backslash is part of the body. The flags are the identifier
characters after the closing slash.
-/
namespace Uncurry.Lexeme

/-- The number of identifier characters at the front of a text. -/
def partsLength : Text → Nat
  | [] => 0
  | c :: rest => if c.isIdentifierPart then partsLength rest + 1 else 0

theorem partsLength_eq (t : Text) :
    partsLength t = (t.takeWhile CodePoint.isIdentifierPart).length := by
  induction t with
  | nil => rfl
  | cons c rest ih => by_cases h : c.isIdentifierPart <;> simp [partsLength, h, ih]

/-- How many characters the body takes after the opening slash, the closing one included. -/
def regexBodyLength? (inClass : Bool) : Text → Option Nat
  | [] => none
  | c :: rest =>
    if c.isLineTerminator then none
    else if c = '\\' then
      match rest with
      | [] => none
      | _ :: later => (regexBodyLength? inClass later).map (· + 2)
    else if c = '/' && !inClass then some 1
    else (regexBodyLength? (c = '[' || (inClass && c != ']')) rest).map (· + 1)

/-- How many characters the literal takes after the opening slash. -/
def regexLength? (t : Text) : Option Nat :=
  (regexBodyLength? false t).map fun body => body + partsLength (t.drop body)

end Uncurry.Lexeme
