import Uncurry.Location
import Uncurry.Token.Kind

/-!
# Tokens
-/
namespace Uncurry

/-- A piece of a program. The text is as written but for identifiers, whose escapes are decoded;
the token at the end of the program has none. -/
structure Token where
  kind : TokenKind
  text : Text
  span : Span
  /-- Whether a line terminator stands between this token and the one before it. -/
  newlineBefore : Bool
  deriving DecidableEq, Inhabited

namespace Token

def start (token : Token) : Location := token.span.start

def stop (token : Token) : Location := token.span.stop

/-- Whether a token is an identifier of this spelling, as a word with a meaning in its context. -/
def isWord (token : Token) (word : String) : Bool :=
  token.kind = .identifier && token.text = Text.ofString word

end Token

end Uncurry
