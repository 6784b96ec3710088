import Uncurry.Text.CodePoint
import Uncurry.Unicode.Printable

/-!
# Quoted texts

A text in messages stands between single quotes, or between double quotes if it holds a single one
and no double one. The quote and the backslash are escaped, and so is every character that does not
print.
-/
namespace Uncurry

def CodePoint.isPrintable (c : CodePoint) : Bool := Unicode.printable.contains c.val

namespace Text

def hexDigitChar (digit : Nat) : CodePoint := Nat.digitChar digit

/-- The last `width` hexadecimal digits of a number. -/
def hexDigits (width n : Nat) : Text :=
  match width with
  | 0 => []
  | width + 1 => hexDigits width (n / 16) ++ [hexDigitChar (n % 16)]

@[simp] theorem length_hexDigits (width n : Nat) : (hexDigits width n).length = width := by
  induction width generalizing n with
  | zero => rfl
  | succ width ih => simp [hexDigits, ih]

/-- A character inside quotes. -/
def quotedChar (quote c : CodePoint) : Text :=
  if c = quote || c = '\\' then ['\\', c]
  else if c = '\n' then ofString "\\n"
  else if c = '\r' then ofString "\\r"
  else if c = '\t' then ofString "\\t"
  else if c.isPrintable then [c]
  else if c.val < 0x100 then ofString "\\x" ++ hexDigits 2 c.val
  else if c.val < 0x10000 then ofString "\\u" ++ hexDigits 4 c.val
  else ofString "\\U" ++ hexDigits 8 c.val

/-- The quotes that a text is put in. -/
def quoteFor (t : Text) : CodePoint :=
  if t.contains (CodePoint.ofChar '\'') && !t.contains (CodePoint.ofChar '"') then '"' else '\''

/-- A text in quotes. -/
def quoted (t : Text) : Text :=
  let quote := t.quoteFor
  quote :: t.flatMap (quotedChar quote) ++ [quote]

end Text

end Uncurry
