import Uncurry.Curry.Arity
import Uncurry.Text.Line
import Uncurry.Token.Sequence

/-!
# Highlighting

A line is cut into styled fragments which together are the line again: each token and each comment
is one fragment, what lies between them is plain. A line without tokens is plain as a whole.
-/
namespace Uncurry

/-- What a token is to the eye. -/
inductive TokenGroup
  | keyword
  | boolean
  | constant
  | number
  | string
  | regex
  | identifier
  | curry
  | operator
  | punctuation
  | comment
  | plain
  deriving DecidableEq

structure Fragment where
  style : String
  text : Text
  deriving DecidableEq

namespace Highlight

open TokenGroup in
/-- The group of a kind of tokens. -/
def groupOf : TokenKind → TokenGroup
  | .kwTrue | .kwFalse => boolean
  | .kwNull | .kwThis => constant
  | .number | .bigInt => number
  | .string | .template | .templateHead | .templateMiddle | .templateTail => string
  | .regex => regex
  | .identifier | .privateName => identifier
  | .comment => comment
  | .endOfInput => plain
  | .optionalChain | .leftParen | .rightParen | .leftBracket | .rightBracket | .leftBrace
  | .rightBrace | .dot | .comma | .colon | .semicolon | .question | .atSign => punctuation
  | kind => if kind.isReservedWord then keyword else operator

/-- The style of a group, in the words of a terminal. -/
def style : TokenGroup → String
  | .keyword => "bold ansicyan"
  | .boolean | .constant => "ansicyan"
  | .number => "ansimagenta"
  | .string => "ansigreen"
  | .regex => "ansiyellow"
  | .curry => "bold ansiyellow"
  | .comment => "italic ansigray"
  | .identifier | .operator | .punctuation | .plain => ""

/-- Whether a name makes a function curried or applies a curried one: `F2`, `A3`. -/
def isCurryName (name : Text) : Bool :=
  (Curry.constructorArity? name).isSome || (Curry.applicationArity? name).isSome

/-- The style of a token. -/
def tokenStyle (token : Token) : String :=
  if token.kind = .identifier && isCurryName token.text then style .curry
  else style (groupOf token.kind)

/-- A fragment without style, unless its text is empty. -/
def plainUnlessEmpty (text : Text) : List Fragment := if text.isEmpty then [] else [⟨"", text⟩]

/-- The characters of a text from one offset up to another. -/
def slice (text : Text) (start stop : Nat) : Text := (text.take stop).drop start

/-- The fragments of a line from some offset on, for the tokens that start there or later. -/
def fragmentsFrom (line : Text) (offset : Nat) : List Token → List Fragment
  | [] => plainUnlessEmpty (line.drop offset)
  | token :: later =>
    let start := token.start.offset
    let stop := token.stop.offset
    if token.kind = .endOfInput then fragmentsFrom line offset later
    else plainUnlessEmpty (slice line offset start) ++
      ⟨tokenStyle token, slice line start stop⟩ :: fragmentsFrom line stop later

/-- The fragments of a line. An escape beyond all bounds leaves it without any. -/
def line? (line : Text) : Option (List Fragment) :=
  if line.isEmpty then some [⟨"", []⟩]
  else match tokenize .keep line with
    | .ok tokens => some (fragmentsFrom line 0 tokens)
    | .error (.malformed _) => some [⟨"", line⟩]
    | .error .escapeOverflow => none

/-- The fragments of a line of a text; beyond its end there are empty lines. -/
def lineAt? (text : Text) (number : Nat) : Option (List Fragment) :=
  line? ((Text.lines text).getD number [])

end Highlight

end Uncurry
