import Uncurry.Text.Blank
import Uncurry.Unicode.Decimal

/-!
# Hexadecimal integers

The liberal reading of an integer in base sixteen: blanks around it, a sign, a `0x` before the
digits, single underscores between them and after the `0x`, and decimal digits of every script.
-/
namespace Uncurry.Text.HexInteger

/-- ASCII form of a character beyond ASCII: a space for a blank, a digit for a decimal digit. -/
def asciiForm? (c : CodePoint) : Option CodePoint :=
  if c.val < 127 then some c
  else if c.isBlank then some ' '
  else (Unicode.decimalDigit? c.val).map fun digit => Nat.digitChar digit

/-- ASCII form of a whole text. One that is ASCII already stays as it is. -/
def toAscii? (t : Text) : Option Text :=
  if t.all CodePoint.isAscii then some t else t.mapM asciiForm?

/-- Tab, line feed, vertical tab, form feed, carriage return and space may stand around a number. -/
def isPadding (c : CodePoint) : Bool := (9 ≤ c.val && c.val ≤ 13) || c = ' '

/-- Reads digits to the end of the text, the value so far given. An underscore needs a digit on
both sides. -/
def digits (value : Nat) (afterDigit : Bool) : Text → Option Nat
  | [] => if afterDigit then some value else none
  | c :: rest =>
    match c.hexDigit? with
    | some digit => digits (16 * value + digit) true rest
    | none => if c = '_' && afterDigit then digits value false rest else none

/-- Reads what follows the sign. -/
def magnitude : Text → Option Nat
  | a :: b :: rest =>
    if a = '0' && (b = 'x' || b = 'X') then
      match rest with
      | c :: later => if c = '_' then digits 0 false later else digits 0 false rest
      | [] => none
    else digits 0 false (a :: b :: rest)
  | t => digits 0 false t

/-- Reads a sign and what follows it. -/
def signed : Text → Option Int
  | [] => none
  | c :: rest =>
    if c = '-' then (magnitude rest).map fun n => -(n : Int)
    else if c = '+' then (magnitude rest).map Int.ofNat
    else (magnitude (c :: rest)).map Int.ofNat

/-- The integer that a text denotes in base sixteen. -/
def read (t : Text) : Option Int := do
  let ascii ← toAscii? t
  signed (dropEndWhile isPadding (ascii.dropWhile isPadding))

end Uncurry.Text.HexInteger
