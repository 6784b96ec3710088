import Uncurry.Grammar.Function

/-!
# Classes
-/
namespace Uncurry.Grammar

open Uncurry.Parser

/-- A field with its initial value, of which the key was read. -/
def fieldRest (rules : Rules) (key : SyntaxTree) (start : Location) : Parser SyntaxTree := do
  let value ←
    if ← accept .assign then
      let within ← context
      insideFunction within.insideAsync within.insideGenerator (allowingIn (rules .assignment))
    else pure .missing
  endStatement
  finish .field [key, value] start

/-- A method, an accessor or a field; what stands before its modifiers starts at `start`. -/
def methodOrField (rules : Rules) (start : Location) : Parser SyntaxTree := do
  let modifiers ← methodModifiers
  let key ← propertyKey rules
  if ← sees .leftParen then
    let (parameters, body) ← functionRest rules modifiers.isAsync modifiers.isGenerator
    finish modifiers.label [key, parameters, body] start
  else fieldRest rules key start

def classMember (rules : Rules) : Parser SyntaxTree := do
  let start ← here
  let isStatic ← if ← isModifier then acceptWord "static" else pure false
  let opensBlock ← sees .leftBrace
  if isStatic && opensBlock then
    let body ← insideFunction false false (block rules)
    finish .staticBlock body.children start
  else methodOrField rules start

/-- `{ members }`, with semicolons between them at will. -/
def classBody (rules : Rules) : Parser SyntaxTree := do
  let start ← here
  let _ ← expect .leftBrace
  let members ← collect (· = .rightBrace) do
    if ← accept .semicolon then return []
    return [← classMember rules]
  let _ ← expect .rightBrace
  finish .classBody members start

/-- `class name extends base { members }`; a declaration may be required to have a name. -/
def classDefinition (rules : Rules) (label : Label) (nameRequired : Bool) : Parser SyntaxTree := do
  let start ← here
  let _ ← expect .kwClass
  let name ←
    if ← sees .identifier then takeLeaf
    else if nameRequired then fail .unnamedClass (← current)
    else pure .missing
  let base ← if ← accept .kwExtends then rules .leftHand else pure .missing
  let body ← classBody rules
  finish label [name, base, body] start

end Uncurry.Grammar
