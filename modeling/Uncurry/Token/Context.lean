import Uncurry.Text.CodePoint
import Uncurry.Token.Kind

/-!
# What the tokens before a character say about it

A slash starts a regular expression or divides, a brace opens a block or an object, and a closing
brace may end the substitution of a template. All this is settled by the tokens read so far, of
which a context keeps what is needed.
-/
namespace Uncurry

/-- What a closing brace will close. -/
inductive Enclosure
  | block
  | object
  | substitution
  deriving DecidableEq

structure LexContext where
  /-- Whether a line terminator was passed since the last token. -/
  newline : Bool
  last : Option TokenKind
  lastText : Text
  beforeLast : Option TokenKind
  /-- Whether the last token closed a statement head or a block, so that a statement may start. -/
  statementMayStart : Bool
  /-- The open parentheses from the inside out; `true` stands for one that opened the head of a
  statement. -/
  parens : List Bool
  /-- The open braces and substitutions from the inside out. -/
  enclosures : List Enclosure
  deriving DecidableEq

namespace LexContext

def initial : LexContext := ⟨false, none, [], none, false, [], []⟩

/-- A slash after one of these divides. -/
def endsOperand : TokenKind → Bool
  | .identifier | .privateName | .number | .bigInt | .string | .regex | .template | .templateTail
  | .rightParen | .rightBracket | .rightBrace | .kwThis | .kwSuper | .kwTrue | .kwFalse | .kwNull
  | .plusPlus | .minusMinus => true
  | _ => false

/-- Whether a slash starts a regular expression. -/
def regexMayStart (context : LexContext) : Bool :=
  context.statementMayStart || !context.last.any endsOperand

/-- Whether a parenthesis opens the head of a statement: `if (…)`, `for await (…)` and the like. -/
def opensHead (context : LexContext) : Bool :=
  match context.last with
  | some .kwIf | some .kwWhile | some .kwFor | some .kwWith => true
  | _ => context.beforeLast = some .kwFor && context.lastText = Text.ofString "await"

/-- Whether the innermost open brace, substitutions apart, is that of an object. -/
def insideObject (context : LexContext) : Bool :=
  (context.enclosures.find? (· != .substitution)) = some .object

/-- Whether a brace opens an object rather than a block. -/
def opensObject (context : LexContext) : Bool :=
  match context.last with
  | none => false
  | some .identifier =>
    ["yield", "await", "of"].any fun word => context.lastText = Text.ofString word
  | some .semicolon | some .leftBrace | some .rightBrace | some .rightParen | some .arrow
  | some .kwElse | some .kwDo | some .kwTry | some .kwFinally | some .kwClass => false
  | some .colon => context.insideObject
  | some _ => true

/-- Whether a closing brace ends the substitution of a template. -/
def closesSubstitution (context : LexContext) : Bool :=
  context.enclosures.head? = some .substitution

/-- Whether the substitution of some template is still open. -/
def insideTemplate (context : LexContext) : Bool := context.enclosures.contains .substitution

/-- The context behind a line terminator. -/
def afterNewline (context : LexContext) : LexContext := { context with newline := true }

/-- The context behind a token. -/
def after (context : LexContext) (kind : TokenKind) (text : Text) : LexContext where
  newline := false
  last := some kind
  lastText := text
  beforeLast := context.last
  statementMayStart :=
    match kind with
    | .rightParen => context.parens.headD false
    | .rightBrace => context.enclosures.head? != some .object
    | _ => false
  parens :=
    match kind with
    | .leftParen => context.opensHead :: context.parens
    | .rightParen => context.parens.tail
    | _ => context.parens
  enclosures :=
    match kind with
    | .leftBrace => (if context.opensObject then .object else .block) :: context.enclosures
    | .rightBrace => context.enclosures.tail
    | .templateHead => .substitution :: context.enclosures
    | .templateMiddle => .substitution :: context.enclosures.tail
    | .templateTail => context.enclosures.tail
    | _ => context.enclosures

end LexContext

end Uncurry
