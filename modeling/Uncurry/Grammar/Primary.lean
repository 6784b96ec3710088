import Uncurry.Grammar.Class

/-!
# Operands, and the calls and members behind them
-/
namespace Uncurry.Grammar

open Uncurry.Parser

/-- An expression in parentheses that the grammar itself demands. -/
def inParens (rules : Rules) : Parser SyntaxTree := do
  let _ ← expect .leftParen
  let inner ← allowingIn (rules .expression)
  let _ ← expect .rightParen
  return inner

def paren (rules : Rules) : Parser SyntaxTree := do
  let start ← here
  let inner ← inParens rules
  finish .paren [inner] start

/-- `...value`, or a value. -/
def spreadOrValue (rules : Rules) : Parser SyntaxTree := do
  let start ← here
  if ← accept .ellipsis then
    let value ← rules .assignment
    finish .spread [value] start
  else rules .assignment

/-- `(a, ...b, c,)`. -/
def arguments (rules : Rules) : Parser SyntaxTree := do
  let start ← here
  let _ ← expect .leftParen
  let values ← allowingIn do
    collect (· = .rightParen) (listed .rightParen (spreadOrValue rules))
  let _ ← expect .rightParen
  finish .args values start

/-- `[a, , ...b]`. -/
def arrayLiteral (rules : Rules) : Parser SyntaxTree := do
  let start ← here
  let _ ← expect .leftBracket
  let elements ← allowingIn do
    collect (· = .rightBracket) (arrayElement (spreadOrValue rules))
  let _ ← expect .rightBracket
  finish .array elements start

/-- What stands behind the key of a property in an object. A name alone is its own value; a default
behind it makes sense in a pattern only. -/
def propertyRest (rules : Rules) (mayStandAlone : Bool) (key : SyntaxTree) (start : Location) :
    Parser SyntaxTree := do
  if ← accept .colon then
    let value ← rules .assignment
    finish .property [key, value] start
  else if mayStandAlone then
    let initial ← if ← accept .assign then rules .assignment else pure .missing
    finish .shorthand [key, initial] start
  else fail .expectedPropertyColon (← current)

def objectMember (rules : Rules) : Parser SyntaxTree := do
  let start ← here
  if ← accept .ellipsis then
    let value ← rules .assignment
    finish .spread [value] start
  else
    let modifiers ← methodModifiers
    let mayStandAlone ← sees .identifier
    let key ← propertyKey rules
    if ← sees .leftParen then
      let (parameters, body) ← functionRest rules modifiers.isAsync modifiers.isGenerator
      finish modifiers.label [key, parameters, body] start
    else if modifiers.label != .method || modifiers.isAsync || modifiers.isGenerator then
      fail .expectedMethodParameters (← current)
    else propertyRest rules mayStandAlone key start

/-- `{key: value, name, method() {}, get x() {}, ...spread}`. -/
def objectLiteral (rules : Rules) : Parser SyntaxTree := do
  let start ← here
  let _ ← expect .leftBrace
  let members ← allowingIn do
    collect (· = .rightBrace) (listed .rightBrace (objectMember rules))
  let _ ← expect .rightBrace
  finish .object members start

/-- A template: its chunks with the substitutions between them. -/
def template (rules : Rules) : Parser SyntaxTree := do
  let start ← here
  if ← sees .template then
    let whole ← takeLeaf
    finish .template [whole] start
  else
    let head := leaf (← expect .templateHead)
    let first ← allowingIn (rules .expression)
    let middle ← collect (· != .templateMiddle) do
      let chunk ← takeLeaf
      let value ← allowingIn (rules .expression)
      return [chunk, value]
    let tail := leaf (← expect .templateTail)
    finish .template (head :: first :: middle ++ [tail]) start

/-- `import(module)` and `import.meta`. -/
def importCall (rules : Rules) : Parser SyntaxTree := do
  let start ← here
  let _ ← expect .kwImport
  if ← accept .dot then
    let name ← memberName
    finish .importMeta [name] start
  else
    let values ← arguments rules
    finish .importCall [values] start

/-- `[index]` behind its opening bracket. -/
def indexRest (rules : Rules) : Parser SyntaxTree := do
  let index ← allowingIn (rules .expression)
  let _ ← expect .rightBracket
  return index

/-- One more link `?.name`, `?.[index]` or `?.(arguments)` behind its first token. -/
def optionalLink (rules : Rules) (start : Location) (object : SyntaxTree) : Parser SyntaxTree := do
  if ← sees .leftParen then
    let values ← arguments rules
    finish .optionalCall [object, values] start
  else if ← accept .leftBracket then
    let index ← indexRest rules
    finish .optionalComputed [object, index] start
  else
    let name ← memberName
    finish .optionalMember [object, name] start

/-- One more link of a chain of members, calls and tagged templates, if there is one. The callee of
`new` is a chain without calls and optional links. -/
def link (rules : Rules) (callsAllowed : Bool) (start : Location) (object : SyntaxTree) :
    Parser (Option SyntaxTree) := do
  match (← current).kind with
  | .dot =>
    let _ ← advance
    let name ← memberName
    return some (← finish .member [object, name] start)
  | .leftBracket =>
    let _ ← advance
    let index ← indexRest rules
    return some (← finish .memberComputed [object, index] start)
  | .template | .templateHead =>
    let quasi ← template rules
    return some (← finish .taggedTemplate [object, quasi] start)
  | .leftParen =>
    if callsAllowed then
      let values ← arguments rules
      return some (← finish .call [object, values] start)
    else return none
  | .optionalChain =>
    if callsAllowed then
      let _ ← advance
      return some (← optionalLink rules start object)
    else return none
  | _ => return none

/-- `new callee(arguments)` and `new.target`. -/
def construct (rules : Rules) : Parser SyntaxTree := do
  let start ← here
  let _ ← expect .kwNew
  if ← accept .dot then
    let name ← memberName
    finish .newTarget [name] start
  else
    let calleeStart ← here
    let callee ← iterate (link rules false calleeStart) (← rules .primary)
    let values ← if ← sees .leftParen then arguments rules else pure .missing
    finish .construct [callee, values] start

/-- The kinds of tokens that are operands on their own. -/
def atoms : List TokenKind :=
  [.number, .bigInt, .string, .regex, .kwThis, .kwSuper, .kwNull, .kwTrue, .kwFalse, .privateName]

/-- An operand without links behind it. -/
def primary (rules : Rules) : Parser SyntaxTree := do
  let token ← current
  match token.kind with
  | .identifier =>
    if ← seesAsyncFunction then function rules .functionExpr false else takeLeaf
  | .template | .templateHead => template rules
  | .leftParen => paren rules
  | .leftBracket => arrayLiteral rules
  | .leftBrace => objectLiteral rules
  | .kwFunction => function rules .functionExpr false
  | .kwClass => classDefinition rules .classExpr false
  | .kwImport => importCall rules
  | .kwNew => construct rules
  | kind => if atoms.contains kind then takeLeaf else fail (.unexpected kind) token

/-- An operand with all its links. -/
def leftHand (rules : Rules) : Parser SyntaxTree := do
  let start ← here
  iterate (link rules true start) (← primary rules)

end Uncurry.Grammar
