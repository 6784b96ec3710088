import Uncurry.Grammar.Statement

/-!
# Imports and exports
-/
namespace Uncurry.Grammar

open Uncurry.Parser

/-- `a as b`. Without an alias the leaf of the name is the alias as well. -/
def specifier (label : Label) : Parser SyntaxTree := do
  let start ← here
  let name ← exportName
  let outer ← if ← acceptWord "as" then exportName else pure name
  finish label [name, outer] start

/-- `{a, b as c, "text" as d}`. -/
def specifiers (label : Label) : Parser (List SyntaxTree) := do
  let _ ← expect .leftBrace
  let items ← collect (· = .rightBrace) (listed .rightBrace (specifier label))
  let _ ← expect .rightBrace
  return items

/-- Skips `with {…}` or `assert {…}` behind the name of a module. -/
def skipAttributes (rules : Rules) : Parser Unit := do
  let token ← current
  if token.kind = .kwWith || (token.isWord "assert" && !token.newlineBefore) then
    let _ ← advance
    let _ ← objectLiteral rules

/-- The name of a module, with the attributes behind it skipped. -/
def moduleSource (rules : Rules) : Parser SyntaxTree := do
  let source := leaf (← expect .string)
  skipAttributes rules
  return source

/-- The name for the default export of a module. -/
def defaultSpecifier : Parser SyntaxTree := do
  let start ← here
  let name ← takeLeaf
  finish .importDefault [name] start

/-- `* as name` or the specifiers in braces. -/
def namedSpecifiers : Parser (List SyntaxTree) := do
  let start ← here
  let token ← current
  match token.kind with
  | .star =>
    let _ ← advance
    expectWord "as"
    let name ← bindingIdentifier
    return [← finish .importNamespace [name] start]
  | .leftBrace => specifiers .importSpecifier
  | _ => fail .expectedSpecifiers token

/-- What an import brings in, up to the word `from`. -/
def importClause : Parser (List SyntaxTree) := do
  let first ← if ← sees .identifier then pure [← defaultSpecifier] else pure []
  let more ← if first.isEmpty then pure true else accept .comma
  let later ← if more then namedSpecifiers else pure []
  expectWord "from"
  return first ++ later

def importDeclaration (rules : Rules) : Parser SyntaxTree := do
  let start ← here
  let _ ← expect .kwImport
  let clause ← if ← sees .string then pure [] else importClause
  let source ← moduleSource rules
  endStatement
  finish .importDecl (clause ++ [source]) start

/-- What follows `export default`. -/
def exportDefaultRest (rules : Rules) (start : Location) : Parser SyntaxTree := do
  let declaration ←
    if (← sees .kwFunction) || (← seesAsyncFunction) then function rules .functionDecl false
    else if ← sees .kwClass then classDefinition rules .classDecl false
    else
      let value ← allowingIn (rules .assignment)
      endStatement
      pure value
  finish .exportDefault [declaration] start

/-- What follows `export *`. -/
def exportAllRest (rules : Rules) (start : Location) : Parser SyntaxTree := do
  let name ← if ← acceptWord "as" then exportName else pure .missing
  expectWord "from"
  let source ← moduleSource rules
  endStatement
  finish .exportAll [name, source] start

/-- `export {a, b as c} from 'module'`, behind its first word. -/
def exportListRest (rules : Rules) (start : Location) : Parser SyntaxTree := do
  let listStart ← here
  let items ← specifiers .exportSpecifier
  let list ← finish .exportSpecifiers items listStart
  let source ← if ← acceptWord "from" then moduleSource rules else pure .missing
  endStatement
  finish .exportNamed [.missing, list, source] start

/-- The declaration behind `export`. -/
def exportedDeclaration (rules : Rules) : Parser SyntaxTree := do
  let token ← current
  if [.kwVar, .kwConst].contains token.kind || (← seesLet) then variableStatement rules
  else if token.kind = .kwFunction || (← seesAsyncFunction) then function rules .functionDecl true
  else if token.kind = .kwClass then classDefinition rules .classDecl true
  else fail .unexpectedExport token

def exportDeclaration (rules : Rules) : Parser SyntaxTree := do
  let start ← here
  let _ ← expect .kwExport
  if ← accept .kwDefault then exportDefaultRest rules start
  else if ← accept .star then exportAllRest rules start
  else if ← sees .leftBrace then exportListRest rules start
  else
    let declaration ← exportedDeclaration rules
    finish .exportNamed [declaration, .missing, .missing] start

/-- Whether the word `import` starts a declaration and not an expression. -/
def seesImportDeclaration : Parser Bool := do
  let next ← peek 1
  return (← sees .kwImport) && next.kind != .leftParen && next.kind != .dot

/-- An item of a list of statements: a statement, or a declaration that may stand only there. -/
def item (rules : Rules) : Parser SyntaxTree := do
  if ← seesAsyncFunction then function rules .functionDecl true
  else if ← seesImportDeclaration then importDeclaration rules
  else if ← sees .kwExport then exportDeclaration rules
  else statement rules

end Uncurry.Grammar
