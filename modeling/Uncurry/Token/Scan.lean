import Uncurry.Lexeme.Comment
import Uncurry.Lexeme.Identifier
import Uncurry.Lexeme.Number
import Uncurry.Lexeme.Quotation
import Uncurry.Lexeme.Regex
import Uncurry.Lexeme.Template
import Uncurry.Text.Blank
import Uncurry.Token.Context

/-!
# The lexeme at the front of a text
-/
namespace Uncurry

/-- What stands at the front of a text. Words have a decoded text, other tokens that of their
lexeme. -/
inductive Lexeme
  | blank
  | newline
  | comment
  | word (kind : TokenKind) (text : Text)
  | token (kind : TokenKind)
  deriving DecidableEq

namespace Lexeme

/-- The punctuator at the front of a text, if there is one, and its length. A question mark and a
point before a digit are two tokens. -/
def punctuator? (t : Text) : Option (TokenKind × Nat) :=
  let fits (entry : String × TokenKind) : Bool :=
    (Text.ofString entry.1).isPrefixOf t &&
      !(entry.2 = .optionalChain && (t.drop 2).head?.any CodePoint.isDigit)
  (TokenKind.punctuators.find? fits).map fun entry => (entry.2, (Text.ofString entry.1).length)

/-- The token of a chunk of a template, by how it starts and ends. -/
def chunkKind (opened : Bool) : ChunkEnd → TokenKind
  | .backtick => if opened then .template else .templateTail
  | .substitution => if opened then .templateHead else .templateMiddle

/-- A lexeme of known length, or the fault that it has no end. -/
def orFault (kind : TokenKind) (cause : LexCause) : Option Nat → Except LexemeFault (Lexeme × Nat)
  | some length => .ok (.token kind, length)
  | none => .error (.malformed cause 0)

/-- The chunk of a template whose first character was read. -/
def chunk (opened : Bool) (rest : Text) : Except LexemeFault (Lexeme × Nat) :=
  match chunkLength? rest with
  | some (length, stop) => .ok (.token (chunkKind opened stop), length)
  | none => .error (.malformed .unterminatedTemplate 0)

/-- The lexeme at the front of a text that is given by its first character and the rest, and how
many characters it takes after the first. At the start of a program `#!` opens a comment. -/
def scan (context : LexContext) (atStart : Bool) (c : CodePoint) (rest : Text) :
    Except LexemeFault (Lexeme × Nat) :=
  let next (d : Char) : Bool := rest.head? = some (CodePoint.ofChar d)
  if atStart && c = '#' && next '!' then .ok (.comment, lineCommentLength rest)
  else if c.isLineTerminator then .ok (.newline, 0)
  else if c.isBlank || c.val = 0xFEFF then .ok (.blank, 0)
  else if c = '/' && next '/' then .ok (.comment, lineCommentLength rest)
  else if c = '/' && next '*' then
    match blockCommentLength? rest.tail with
    | some length => .ok (.comment, length + 1)
    | none => .error (.malformed .unterminatedComment 0)
  else if c = '<' && (Text.ofString "!--").isPrefixOf rest then
    .ok (.comment, lineCommentLength rest)
  else if c = '"' || c = '\'' then
    orFault .string .unterminatedString (stringLength? c rest)
  else if c = '`' then chunk true rest
  else if c.isDigit || (c = '.' && rest.head?.any CodePoint.isDigit) then
    match number (c :: rest) with
    | .ok (kind, length) => .ok (.token kind, length - 1)
    | .error cause => .error (.malformed cause 0)
  else if c.isIdentifierStart || c = '\\' then
    match name (c :: rest) with
    | .ok name => .ok (.word name.kind name.spelling, name.length - 1)
    | .error fault => .error fault
  else if c = '#' then
    if rest.head?.any CodePoint.isIdentifierStart then .ok (.token .privateName, partsLength rest)
    else .error (.malformed (.unexpected c) 0)
  else if c = '/' && context.regexMayStart then
    orFault .regex .unterminatedRegex (regexLength? rest)
  else if c = '}' && context.closesSubstitution then chunk false rest
  else
    match punctuator? (c :: rest) with
    | some (kind, length) => .ok (.token kind, length - 1)
    | none => .error (.malformed (.unexpected c) 0)

end Lexeme

end Uncurry
