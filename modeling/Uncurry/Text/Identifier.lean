import Uncurry.Text.CodePoint
import Uncurry.Unicode.Identifier

/-!
# The characters of an identifier

In ASCII these are the letters, `$`, `_` and, after the first, the digits. The two zero-width
joiners continue an identifier as well.
-/
namespace Uncurry.CodePoint

def isAsciiLetter (c : CodePoint) : Bool :=
  (65 ≤ c.val && c.val ≤ 90) || (97 ≤ c.val && c.val ≤ 122)

def isIdentifierStart (c : CodePoint) : Bool :=
  if c.isAscii then c.isAsciiLetter || c = '$' || c = '_'
  else Unicode.identifierStart.contains c.val

def isIdentifierPart (c : CodePoint) : Bool :=
  c.isIdentifierStart || c.isDigit || c.val = 0x200C || c.val = 0x200D ||
    (!c.isAscii && Unicode.identifierExtend.contains c.val)

theorem isIdentifierPart_of_isIdentifierStart {c : CodePoint} (h : c.isIdentifierStart = true) :
    c.isIdentifierPart = true := by
  simp [isIdentifierPart, h]

end Uncurry.CodePoint
