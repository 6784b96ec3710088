import Uncurry.Text.CodePoint

/-!
# String literals

A backslash takes the character after it along, or both characters of a carriage return and line
feed.
-/
namespace Uncurry.Lexeme

/-- How many characters a string literal takes after its opening quote, the closing one included.
There is none if a line feed or a carriage return comes first. -/
def stringLength? (quote : CodePoint) : Text → Option Nat
  | [] => none
  | c :: rest =>
    if c = quote then some 1
    else if c = '\n' || c = '\r' then none
    else if c = '\\' then
      match rest with
      | [] => none
      | [_] => none
      | d :: e :: later =>
        if d = '\r' && e = '\n' then (stringLength? quote later).map (· + 3)
        else (stringLength? quote (e :: later)).map (· + 2)
    else (stringLength? quote rest).map (· + 1)

end Uncurry.Lexeme
