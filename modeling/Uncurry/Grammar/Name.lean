import Uncurry.Grammar.Rule

/-!
# Names of bindings, members and properties
-/
namespace Uncurry.Grammar

open Uncurry.Parser

def bindingIdentifier : Parser SyntaxTree := do
  let token ← current
  if token.kind = .identifier then takeLeaf else fail (.expectedIdentifier token.kind) token

/-- Whether a token can name a member: an identifier or a reserved word. -/
def isName (token : Token) : Bool := token.kind = .identifier || token.kind.isReservedWord

/-- The name of a member, private ones included. -/
def memberName : Parser SyntaxTree := do
  let token ← current
  if isName token then return nameLeaf (← advance)
  if token.kind = .privateName then takeLeaf
  else fail (.expectedPropertyName token.kind) token

/-- The name of something that a module exports, which may be a string. -/
def exportName : Parser SyntaxTree := do
  if ← sees .string then takeLeaf else memberName

/-- The key of a property: a name, a string, a number or an expression in brackets. -/
def propertyKey (rules : Rules) : Parser SyntaxTree := do
  let token ← current
  if isName token then return nameLeaf (← advance)
  if [.string, .number, .bigInt, .privateName].contains token.kind then takeLeaf
  else if token.kind = .leftBracket then
    let start ← here
    let _ ← advance
    let key ← allowingIn (rules .assignment)
    let _ ← expect .rightBracket
    finish .computedKey [key] start
  else fail (.expectedPropertyName token.kind) token

/-- Whether the current word modifies what follows it and is not itself the name of a member. -/
def isModifier : Parser Bool := do
  let followers : List TokenKind := [.leftParen, .assign, .semicolon, .rightBrace, .colon, .comma]
  return !followers.contains (← peek 1).kind

/-- What stands before the key of a method. -/
structure MethodModifiers where
  label : Label
  isAsync : Bool
  isGenerator : Bool

def methodModifiers : Parser MethodModifiers := do
  let isAsync ←
    if (← seesWord "async") && (← isModifier) && !(← peek 1).newlineBefore then
      let _ ← advance
      pure true
    else pure false
  let isGenerator ← accept .star
  if ← isModifier then
    if ← acceptWord "get" then return ⟨.getter, isAsync, isGenerator⟩
    if ← acceptWord "set" then return ⟨.setter, isAsync, isGenerator⟩
  return ⟨.method, isAsync, isGenerator⟩

end Uncurry.Grammar
