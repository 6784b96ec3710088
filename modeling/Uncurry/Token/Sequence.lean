import Uncurry.Token.Basic
import Uncurry.Token.Scan

/-!
# The tokens of a program

`tokenize` reads a whole text, with or without its comments. The last token is that of the end of
the text.
-/
namespace Uncurry

/-- Why and where a text has no tokens. -/
structure LexError where
  cause : LexCause
  line : Nat
  column : Nat
  deriving DecidableEq

def LexError.message (error : LexError) : Text := error.cause.message

/-- A text without tokens has an error in some place, or an escape whose value is beyond all
bounds. -/
inductive LexFailure
  | malformed (error : LexError)
  | escapeOverflow
  deriving DecidableEq

/-- The failure that a fault in the lexeme at the front of a text amounts to. -/
def LexemeFault.locate (here : Location) (t : Text) : LexemeFault → LexFailure
  | .malformed cause offset =>
    let there := here.advance (t.take offset) (t.drop offset)
    .malformed ⟨cause, there.line, there.column⟩
  | .escapeOverflow => .escapeOverflow

/-- Whether comments are kept among the tokens. -/
inductive CommentPolicy
  | skip
  | keep
  deriving DecidableEq

namespace Token

/-- The tokens of a text that starts in some context and at some location. -/
def readFrom (comments : CommentPolicy) (context : LexContext) (here : Location) :
    Text → Except LexFailure (List Token)
  | [] =>
    if context.insideTemplate then
      .error (.malformed ⟨.unterminatedTemplate, here.line, here.column⟩)
    else .ok [⟨.endOfInput, [], ⟨here, here⟩, context.newline⟩]
  | c :: rest =>
    match Lexeme.scan context (here.offset = 0) c rest with
    | .error fault => .error (fault.locate here (c :: rest))
    | .ok (lexeme, length) =>
      let written := c :: rest.take length
      let later := rest.drop length
      let there := here.advance written later
      match lexeme with
      | .blank => readFrom comments context there later
      | .newline => readFrom comments context.afterNewline there later
      | .comment =>
        let context := if written.any CodePoint.isLineTerminator then context.afterNewline else context
        match comments with
        | .skip => readFrom comments context there later
        | .keep =>
          (readFrom comments context there later).map
            (⟨.comment, written, ⟨here, there⟩, context.newline⟩ :: ·)
      | .word kind text =>
        (readFrom comments (context.after kind text) there later).map
          (⟨kind, text, ⟨here, there⟩, context.newline⟩ :: ·)
      | .token kind =>
        (readFrom comments (context.after kind written) there later).map
          (⟨kind, written, ⟨here, there⟩, context.newline⟩ :: ·)
termination_by t => t.length
decreasing_by all_goals simp only [List.length_cons, List.length_drop]; omega

end Token

/-- The tokens of a program. -/
def tokenize (comments : CommentPolicy) (source : Text) : Except LexFailure (List Token) :=
  Token.readFrom comments .initial .origin source

end Uncurry
