import Uncurry.Grammar.Pattern

/-!
# Functions
-/
namespace Uncurry.Grammar

open Uncurry.Parser

/-- `{ items }`. -/
def block (rules : Rules) : Parser SyntaxTree := do
  let start ← here
  let _ ← expect .leftBrace
  let items ← allowingIn do
    collect (fun kind => kind = .rightBrace || kind = .endOfInput) (return [← rules .item])
  let _ ← expect .rightBrace
  finish .block items start

/-- `(a, b = 1, {c}, ...rest)`. -/
def parameters (rules : Rules) : Parser SyntaxTree := do
  let start ← here
  let _ ← expect .leftParen
  let parameters ← allowingIn do
    collect (· = .rightParen) (listed .rightParen do
      if ← sees .ellipsis then restElement rules else rules .bindingElement)
  let _ ← expect .rightParen
  finish .params parameters start

/-- The parameters and the body of a function. -/
def functionRest (rules : Rules) (isAsync isGenerator : Bool) :
    Parser (SyntaxTree × SyntaxTree) :=
  insideFunction isAsync isGenerator do
    allowingIn do
      let parameters ← parameters rules
      let body ← block rules
      return (parameters, body)

/-- Whether the words `async function` stand here on one line. -/
def seesAsyncFunction : Parser Bool := do
  let next ← peek 1
  return (← seesWord "async") && next.kind = .kwFunction && !next.newlineBefore

/-- `async function* name(parameters) { body }`; a declaration may be required to have a name. -/
def function (rules : Rules) (label : Label) (nameRequired : Bool) : Parser SyntaxTree := do
  let start ← here
  let isAsync ← acceptWord "async"
  let _ ← expect .kwFunction
  let isGenerator ← accept .star
  let name ←
    if ← sees .identifier then takeLeaf
    else if nameRequired then fail .unnamedFunction (← current)
    else pure .missing
  let (parameters, body) ← functionRest rules isAsync isGenerator
  finish label [name, parameters, body] start

/-- Whether the bracket that the tokens start with is followed, behind the one that closes it, by an
arrow on the same line; the depth is that of the brackets open before them. -/
def arrowBehindBracket : (depth : Nat) → List Token → Bool
  | _, [] => false
  | depth, token :: rest =>
    if token.kind.opens then arrowBehindBracket (depth + 1) rest
    else if token.kind.closes then
      if depth ≤ 1 then rest.head?.any fun next => next.kind = .arrow && !next.newlineBefore
      else arrowBehindBracket (depth - 1) rest
    else arrowBehindBracket depth rest

/-- Whether an arrow function starts here. -/
def seesArrow : Parser Bool := do
  let cursor ← get
  let token := cursor.current
  let next := cursor.peek 1
  let asyncArrow := token.isWord "async" && !next.newlineBefore &&
    ((next.kind = .identifier && (cursor.peek 2).kind = .arrow) ||
      (next.kind = .leftParen && arrowBehindBracket 0 cursor.rest.tail))
  let plainArrow :=
    if token.kind = .identifier then next.kind = .arrow && !next.newlineBefore
    else token.kind = .leftParen && arrowBehindBracket 0 cursor.rest
  return asyncArrow || plainArrow

/-- `async (parameters) => body`, or `parameter => body`. -/
def arrow (rules : Rules) : Parser SyntaxTree := do
  let start ← here
  let isAsync ←
    if (← peek 1).kind != .arrow then acceptWord "async" else pure false
  let parameters ←
    if ← sees .identifier then
      let parameterStart ← here
      let parameter ← takeLeaf
      finish .params [parameter] parameterStart
    else parameters rules
  let _ ← expect .arrow
  let body ← insideFunction isAsync false do
    if ← sees .leftBrace then block rules else rules .assignment
  finish .arrow [parameters, body] start

end Uncurry.Grammar
