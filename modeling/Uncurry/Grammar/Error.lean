import Uncurry.Token.Basic

/-!
# Why a sequence of tokens is no program
-/
namespace Uncurry

/-- What is wrong at a token; `got` is its kind. -/
inductive ParseCause
  | expected (kind got : TokenKind)
  | expectedWord (word : String) (got : TokenKind)
  | expectedTerminator (got : TokenKind)
  | expectedCase
  | tryAlone
  | newlineAfterThrow
  | unnamedFunction
  | unnamedClass
  | expectedSpecifiers
  | unexpectedExport
  | expectedIdentifier (got : TokenKind)
  | expectedPropertyName (got : TokenKind)
  | expectedPatternColon
  | expectedPropertyColon
  | expectedMethodParameters
  | unexpected (got : TokenKind)
  | trailing
  deriving DecidableEq

namespace ParseCause

/-- `Expected …, got …`. -/
def expectation (what : String) (got : TokenKind) : Text :=
  Text.ofString "Expected " ++ Text.ofString what ++ Text.ofString ", got " ++
    Text.ofString got.name

def message : ParseCause → Text
  | expected kind got => expectation kind.name got
  | expectedWord word got => expectation ("'" ++ word ++ "'") got
  | expectedTerminator got => expectation "';'" got
  | expectedCase => Text.ofString "Expected case or default"
  | tryAlone => Text.ofString "try requires a catch or finally clause"
  | newlineAfterThrow => Text.ofString "Illegal newline after throw"
  | unnamedFunction => Text.ofString "Function declaration requires a name"
  | unnamedClass => Text.ofString "Class declaration requires a name"
  | expectedSpecifiers => Text.ofString "Expected import specifiers"
  | unexpectedExport => Text.ofString "Unexpected token after export"
  | expectedIdentifier got => expectation "identifier" got
  | expectedPropertyName got => expectation "property name" got
  | expectedPatternColon => Text.ofString "Expected ':' in object pattern"
  | expectedPropertyColon => Text.ofString "Expected ':' after property name"
  | expectedMethodParameters => Text.ofString "Expected '(' after method name"
  | unexpected got => Text.ofString "Unexpected token " ++ Text.ofString got.name
  | trailing => Text.ofString "Unexpected tokens after expression fragment"

end ParseCause

/-- What is wrong, and the token where it shows. -/
structure ParseError where
  cause : ParseCause
  token : Token
  deriving DecidableEq

def ParseError.message (error : ParseError) : Text := error.cause.message

end Uncurry
