import Uncurry.Grammar.Error
import Uncurry.Tree.Basic

/-!
# Parsers over a sequence of tokens

A parser takes tokens off the front of a sequence, in a context that the constructs around it have
set, and fails with an error that names a token. The end of the sequence is a token of its own,
which every look beyond the last token shows and which is never taken.
-/
namespace Uncurry

/-- A syntax tree whose nodes know where they stand. -/
abbrev SyntaxTree := Tree Span

/-- What the constructs around a place say about it. -/
structure ParseContext where
  /-- Whether `in` is an operator, which it is not in the head of a `for`. -/
  allowIn : Bool
  insideFunction : Bool
  insideAsync : Bool
  insideGenerator : Bool
  deriving DecidableEq

/-- The context outside all constructs. -/
def ParseContext.outermost : ParseContext := ⟨true, false, false, false⟩

/-- Whether a statement may end without a semicolon before a token. -/
def Token.endsStatement (token : Token) : Bool :=
  token.kind = .rightBrace || token.kind = .endOfInput || token.newlineBefore

/-- What a parser passes: a token that it takes, or the place of a semicolon that may be left out
and is. -/
inductive Passage
  | token (token : Token)
  | automatic
  deriving DecidableEq

def Passage.token? : Passage → Option Token
  | .token taken => some taken
  | .automatic => none

/-- What was passed so far, the last first; the tokens left; and the token at the end. -/
structure Cursor where
  passed : List Passage
  rest : List Token
  final : Token

namespace Cursor

/-- The token some places ahead. -/
def peek (cursor : Cursor) (ahead : Nat) : Token := (cursor.rest.drop ahead).headD cursor.final

def current (cursor : Cursor) : Token := cursor.rest.headD cursor.final

/-- The last token that was taken. -/
def last? (cursor : Cursor) : Option Token := cursor.passed.findSome? Passage.token?

/-- Where the last token taken stops. -/
def stop (cursor : Cursor) : Location := (cursor.last?.map Token.stop).getD .origin

/-- The cursor behind the current token. No cursor leaves the token at the end behind. -/
def next (cursor : Cursor) : Cursor where
  passed := .token cursor.current :: cursor.passed
  rest := cursor.rest.tail
  final := cursor.final

/-- The cursor behind a semicolon that is left out here. -/
def skipSemicolon (cursor : Cursor) : Cursor :=
  { cursor with passed := .automatic :: cursor.passed }

/-- A cursor before all tokens of a sequence, of which the last is that of the end. -/
def ofTokens (tokens : List Token) : Cursor where
  passed := []
  rest := (tokens.filter (·.kind != .comment)).dropLast
  final := tokens.getLastD default

end Cursor

/-- Why a parser stops without a result: there is an error in the tokens, a node is closed before
any token was taken, or a construct nests deeper or repeats more often than was allowed for. -/
inductive HaltCause
  | error (error : ParseError)
  | nothingTaken
  | exhausted

/-- Why and where a parser stops without a result. -/
structure Halt where
  cause : HaltCause
  cursor : Cursor

/-- What is reported when a parser stops without a result. -/
def Halt.error (halt : Halt) : ParseError :=
  match halt.cause with
  | .error error => error
  | _ => ⟨.unexpected halt.cursor.current.kind, halt.cursor.current⟩

abbrev Parser := ReaderT ParseContext (StateT Cursor (Except Halt))

namespace Parser

variable {α σ : Type}

/-- The result of a parser on a whole sequence of tokens. -/
def run (parser : Parser α) (tokens : List Token) : Except ParseError α :=
  ((parser ParseContext.outermost (Cursor.ofTokens tokens)).map (·.1)).mapError Halt.error

def halt (cause : HaltCause) : Parser α := do throw ⟨cause, ← get⟩

def fail (cause : ParseCause) (token : Token) : Parser α := halt (.error ⟨cause, token⟩)

def context : Parser ParseContext := read

def peek (ahead : Nat) : Parser Token := return (← get).peek ahead

def current : Parser Token := return (← get).current

/-- Where the current token starts. -/
def here : Parser Location := return (← current).start

/-- Whether the current token is of some kind. -/
def sees (kind : TokenKind) : Parser Bool := return (← current).kind = kind

/-- Whether the current token is of one of some kinds. -/
def seesAny (kinds : List TokenKind) : Parser Bool := return kinds.contains (← current).kind

/-- Whether the current token is an identifier of this spelling. -/
def seesWord (word : String) : Parser Bool := return (← current).isWord word

/-- Takes the current token. -/
def advance : Parser Token := do
  let cursor ← get
  set cursor.next
  return cursor.current

/-- Takes the current token if it is of some kind, and says whether it was. -/
def accept (kind : TokenKind) : Parser Bool := do
  if ← sees kind then
    let _ ← advance
    return true
  return false

/-- Takes the current token if it is an identifier of this spelling, and says whether it was. -/
def acceptWord (word : String) : Parser Bool := do
  if ← seesWord word then
    let _ ← advance
    return true
  return false

/-- Takes the current token, which has to be of some kind. -/
def expect (kind : TokenKind) : Parser Token := do
  let token ← current
  if token.kind = kind then advance else fail (.expected kind token.kind) token

/-- Takes the current token, which has to be an identifier of this spelling. -/
def expectWord (word : String) : Parser Unit := do
  let token ← current
  if token.isWord word then
    let _ ← advance
  else fail (.expectedWord word token.kind) token

/-- Ends a statement: with a semicolon, or without one before a closing brace, at the end and after
a line terminator. -/
def endStatement : Parser Unit := do
  if ← accept .semicolon then return
  let token ← current
  if token.endsStatement then modify Cursor.skipSemicolon
  else fail (.expectedTerminator token.kind) token

/-- Runs a parser with `in` as an operator. -/
def allowingIn (parser : Parser α) : Parser α :=
  fun context => parser { context with allowIn := true }

/-- Runs a parser without `in` as an operator. -/
def forbiddingIn (parser : Parser α) : Parser α :=
  fun context => parser { context with allowIn := false }

/-- Runs a parser inside a function. -/
def insideFunction (isAsync isGenerator : Bool) (parser : Parser α) : Parser α :=
  fun context => parser
    { context with
      insideFunction := true
      insideAsync := isAsync
      insideGenerator := isGenerator }

/-- A node from some location to the end of the last token taken. -/
def finish (label : Label) (children : List SyntaxTree) (start : Location) : Parser SyntaxTree := do
  let cursor ← get
  if cursor.last?.isNone then halt .nothingTaken
  return .node label children ⟨start, cursor.stop⟩

/-- The leaf of a token. -/
def leaf (token : Token) : SyntaxTree := .leaf (.token token.kind) token.text token.span

/-- The leaf of a name, as which a reserved word may serve as well. -/
def nameLeaf (token : Token) : SyntaxTree := .leaf (.token .identifier) token.text token.span

/-- The leaf of the word that says how variables are bound. -/
def bindingLeaf (token : Token) : SyntaxTree := .leaf .binding token.text token.span

/-- Takes the current token as a leaf. -/
def takeLeaf : Parser SyntaxTree := return leaf (← advance)

/-- Applies a step as often as it answers, with a bound on the rounds. -/
def iterateFuel (step : σ → Parser (Option σ)) : Nat → σ → Parser σ
  | 0, _ => halt .exhausted
  | fuel + 1, state => do
    match ← step state with
    | some next => iterateFuel step fuel next
    | none => return state

/-- Applies a step as often as it answers. A step that answers takes a token, so the number of
tokens left bounds the rounds. -/
def iterate (step : σ → Parser (Option σ)) (state : σ) : Parser σ := do
  iterateFuel step ((← get).rest.length + 1) state

/-- Collects what the elements bring up to a token that ends them, with a bound on the rounds. -/
def collectFuel (ends : TokenKind → Bool) (element : Parser (List α)) : Nat → Parser (List α)
  | 0 => halt .exhausted
  | fuel + 1 => do
    if ends (← current).kind then return []
    let first ← element
    let later ← collectFuel ends element fuel
    return first ++ later

/-- Collects what the elements bring up to a token that ends them. Every element takes a token, so
the number of tokens left bounds the rounds. -/
def collect (ends : TokenKind → Bool) (element : Parser (List α)) : Parser (List α) := do
  collectFuel ends element ((← get).rest.length + 1)

/-- An element of a list in brackets with the comma after it, which the last one may lack. -/
def listed (close : TokenKind) (element : Parser α) : Parser (List α) := do
  let first ← element
  unless ← sees close do
    let _ ← expect .comma
  return [first]

end Parser

end Uncurry
