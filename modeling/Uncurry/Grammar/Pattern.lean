import Uncurry.Grammar.Name

/-!
# Binding patterns
-/
namespace Uncurry.Grammar

open Uncurry.Parser

/-- `...target`. -/
def restElement (rules : Rules) : Parser SyntaxTree := do
  let start ← here
  let _ ← expect .ellipsis
  let target ← rules .bindingTarget
  finish .rest [target] start

/-- A property of an object pattern. A name alone binds itself, with or without a default; the leaf
of the name is then the key as well as the value. -/
def patternProperty (rules : Rules) : Parser SyntaxTree := do
  let start ← here
  if ← accept .ellipsis then
    let target ← bindingIdentifier
    finish .rest [target] start
  else
    let mayStandAlone ← sees .identifier
    let key ← propertyKey rules
    let value ←
      if ← accept .colon then rules .bindingElement
      else if mayStandAlone then
        if ← accept .assign then
          let initial ← allowingIn (rules .assignment)
          finish .assignPattern [key, initial] start
        else pure key
      else fail .expectedPatternColon (← current)
    finish .patternProperty [key, value] start

/-- `{a, b: c, [k]: d, e = 1, ...rest}`. -/
def objectPattern (rules : Rules) : Parser SyntaxTree := do
  let start ← here
  let _ ← expect .leftBrace
  let properties ← collect (· = .rightBrace) (listed .rightBrace (patternProperty rules))
  let _ ← expect .rightBrace
  finish .objectPattern properties start

/-- An element of an array with the comma after it. A comma alone stands for a hole. -/
def arrayElement (element : Parser SyntaxTree) : Parser (List SyntaxTree) := do
  if ← accept .comma then return [.missing]
  listed .rightBracket element

/-- `[a, , b = 1, ...rest]`. -/
def arrayPattern (rules : Rules) : Parser SyntaxTree := do
  let start ← here
  let _ ← expect .leftBracket
  let elements ← collect (· = .rightBracket) (arrayElement do
    if ← sees .ellipsis then restElement rules else rules .bindingElement)
  let _ ← expect .rightBracket
  finish .arrayPattern elements start

/-- What a declaration binds: a name or a pattern. -/
def bindingTarget (rules : Rules) : Parser SyntaxTree := do
  match (← current).kind with
  | .leftBrace => objectPattern rules
  | .leftBracket => arrayPattern rules
  | _ => bindingIdentifier

/-- A target with a default or without. -/
def bindingElement (rules : Rules) : Parser SyntaxTree := do
  let start ← here
  let target ← bindingTarget rules
  if ← accept .assign then
    let initial ← allowingIn (rules .assignment)
    finish .assignPattern [target, initial] start
  else return target

end Uncurry.Grammar
