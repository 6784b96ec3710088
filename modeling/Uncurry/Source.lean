import Uncurry.Grammar.Program
import Uncurry.Token.Sequence

/-!
# From source text to syntax trees
-/
namespace Uncurry

/-- Why a source text has no syntax tree: it has no tokens, or they do not fit the grammar. -/
inductive SourceFailure
  | lexical (failure : LexFailure)
  | grammatical (error : ParseError)
  deriving DecidableEq

namespace SourceFailure

/-- A message with the place it is about. -/
def located (message : Text) (line column : Nat) : Text :=
  message ++ Text.ofString " at line " ++ Text.ofNat line ++ Text.ofString ", col " ++
    Text.ofNat column

/-- What is reported of a failure. An escape beyond all bounds has no report. -/
def report? : SourceFailure → Option Text
  | lexical (.malformed error) => some (located error.message error.line error.column)
  | lexical .escapeOverflow => none
  | grammatical error =>
    some (located error.message error.token.start.line error.token.start.column)

end SourceFailure

/-- The result of a parser on a source text, comments skipped. -/
def parseWith (parser : Parser SyntaxTree) (source : Text) : Except SourceFailure SyntaxTree := do
  let tokens ← (tokenize .skip source).mapError .lexical
  (parser.run tokens).mapError .grammatical

/-- The syntax tree of a program. -/
def parseProgram (source : Text) : Except SourceFailure SyntaxTree :=
  parseWith Grammar.program source

/-- The syntax tree of a single expression. -/
def parseFragment (source : Text) : Except SourceFailure SyntaxTree :=
  parseWith Grammar.fragment source

end Uncurry
