import Uncurry.Grammar.Expression

/-!
# Statements
-/
namespace Uncurry.Grammar

open Uncurry.Parser

/-- Whether `let` declares variables here. -/
def seesLet : Parser Bool := do
  let next ← peek 1
  return (← seesWord "let") && [.identifier, .leftBrace, .leftBracket].contains next.kind

/-- `target = initial`, the initial value being optional. -/
def declarator (rules : Rules) : Parser SyntaxTree := do
  let start ← here
  let target ← rules .bindingTarget
  let initial ← if ← accept .assign then rules .assignment else pure .missing
  finish .varDeclarator [target, initial] start

/-- The word that binds and the declarators after it. -/
def declarators (rules : Rules) : Parser (List SyntaxTree) := do
  let word := bindingLeaf (← advance)
  let first ← declarator rules
  let later ← collect (· != .comma) do
    let _ ← advance
    return [← declarator rules]
  return word :: first :: later

def variableStatement (rules : Rules) : Parser SyntaxTree := do
  let start ← here
  let parts ← declarators rules
  endStatement
  finish .varDecl parts start

def expressionStatement (rules : Rules) : Parser SyntaxTree := do
  let start ← here
  let value ← allowingIn (expression rules)
  endStatement
  finish .exprStmt [value] start

def emptyStatement : Parser SyntaxTree := do
  let start ← here
  let _ ← advance
  finish .emptyStmt [] start

def debuggerStatement : Parser SyntaxTree := do
  let start ← here
  let _ ← advance
  endStatement
  finish .debuggerStmt [] start

/-- `if (test) consequent else alternate`. -/
def ifStatement (rules : Rules) : Parser SyntaxTree := do
  let start ← here
  let _ ← expect .kwIf
  let test ← inParens rules
  let consequent ← rules .statement
  let alternate ← if ← accept .kwElse then rules .statement else pure .missing
  finish .ifStmt [test, consequent, alternate] start

/-- What the head of a `for` starts with: declarations or an expression, if anything. -/
def forInitial (rules : Rules) : Parser SyntaxTree := do
  if ← sees .semicolon then return .missing
  let start ← here
  let declares ← seesAny [.kwVar, .kwConst]
  if declares || (← seesLet) then
    let parts ← forbiddingIn (declarators rules)
    finish .varDecl parts start
  else forbiddingIn (rules .expression)

/-- A loop over the values or the names of something, its head read up to there. -/
def forEachRest (rules : Rules) (label : Label) (start : Location) (binding : SyntaxTree) :
    Parser SyntaxTree := do
  let _ ← advance
  let values ← allowingIn (rules (if label = .forIn then .expression else .assignment))
  let _ ← expect .rightParen
  let body ← rules .statement
  finish label [binding, values, body] start

/-- A loop with a test and an update, its head read up to the first semicolon. -/
def forRest (rules : Rules) (start : Location) (initial : SyntaxTree) : Parser SyntaxTree := do
  let _ ← expect .semicolon
  let test ← if ← sees .semicolon then pure .missing else allowingIn (rules .expression)
  let _ ← expect .semicolon
  let update ← if ← sees .rightParen then pure .missing else allowingIn (rules .expression)
  let _ ← expect .rightParen
  let body ← rules .statement
  finish .forStmt [initial, test, update, body] start

/-- The three loops that start with `for`. -/
def forStatement (rules : Rules) : Parser SyntaxTree := do
  let start ← here
  let _ ← expect .kwFor
  let _ ← acceptWord "await"
  let _ ← expect .leftParen
  let bare ← sees .semicolon
  let initial ← forInitial rules
  if bare then forRest rules start initial
  else if ← sees .kwIn then forEachRest rules .forIn start initial
  else if ← seesWord "of" then forEachRest rules .forOf start initial
  else forRest rules start initial

def whileStatement (rules : Rules) : Parser SyntaxTree := do
  let start ← here
  let _ ← expect .kwWhile
  let test ← inParens rules
  let body ← rules .statement
  finish .whileStmt [test, body] start

/-- `do body while (test)`; the semicolon behind it is optional everywhere. -/
def doWhileStatement (rules : Rules) : Parser SyntaxTree := do
  let start ← here
  let _ ← expect .kwDo
  let body ← rules .statement
  let _ ← expect .kwWhile
  let test ← inParens rules
  let _ ← accept .semicolon
  finish .doWhile [body, test] start

/-- The test of a case, missing for the default. -/
def caseTest (rules : Rules) : Parser SyntaxTree := do
  if ← accept .kwCase then allowingIn (rules .expression)
  else
    let token ← current
    if token.kind = .kwDefault then
      let _ ← advance
      return .missing
    else fail .expectedCase token

def switchCase (rules : Rules) : Parser SyntaxTree := do
  let start ← here
  let test ← caseTest rules
  let _ ← expect .colon
  let items ← collect
    (fun kind => [.kwCase, .kwDefault, .rightBrace, .endOfInput].contains kind)
    (return [← rules .item])
  finish .switchCase (test :: items) start

def switchStatement (rules : Rules) : Parser SyntaxTree := do
  let start ← here
  let _ ← expect .kwSwitch
  let subject ← inParens rules
  let _ ← expect .leftBrace
  let cases ← collect (· = .rightBrace) (return [← switchCase rules])
  let _ ← expect .rightBrace
  finish .switchStmt (subject :: cases) start

/-- `catch (target) { … }`, the target being optional. -/
def catchClause (rules : Rules) : Parser SyntaxTree := do
  let start ← here
  let _ ← expect .kwCatch
  let target ←
    if ← accept .leftParen then
      let target ← rules .bindingTarget
      let _ ← expect .rightParen
      pure target
    else pure .missing
  let body ← block rules
  finish .catchClause [target, body] start

def tryStatement (rules : Rules) : Parser SyntaxTree := do
  let start ← here
  let word ← expect .kwTry
  let body ← block rules
  let catches ← sees .kwCatch
  let handler ← if catches then catchClause rules else pure .missing
  let finishes ← accept .kwFinally
  let finalizer ← if finishes then block rules else pure .missing
  if catches || finishes then finish .tryStmt [body, handler, finalizer] start
  else fail .tryAlone word

def returnStatement (rules : Rules) : Parser SyntaxTree := do
  let start ← here
  let _ ← expect .kwReturn
  let token ← current
  let value ←
    if [.semicolon, .rightBrace, .endOfInput].contains token.kind || token.newlineBefore then
      pure .missing
    else allowingIn (rules .expression)
  endStatement
  finish .returnStmt [value] start

/-- `break` and `continue`, with the name of a statement or without. -/
def jumpStatement (label : Label) : Parser SyntaxTree := do
  let start ← here
  let _ ← advance
  let token ← current
  let target ←
    if token.kind = .identifier && !token.newlineBefore then takeLeaf else pure .missing
  endStatement
  finish label [target] start

def throwStatement (rules : Rules) : Parser SyntaxTree := do
  let start ← here
  let _ ← expect .kwThrow
  let token ← current
  if token.newlineBefore then fail .newlineAfterThrow token
  let value ← allowingIn (rules .expression)
  endStatement
  finish .throwStmt [value] start

def withStatement (rules : Rules) : Parser SyntaxTree := do
  let start ← here
  let _ ← expect .kwWith
  let object ← inParens rules
  let body ← rules .statement
  finish .withStmt [object, body] start

def labeledStatement (rules : Rules) : Parser SyntaxTree := do
  let start ← here
  let name ← takeLeaf
  let _ ← expect .colon
  let body ← rules .statement
  finish .labeledStmt [name, body] start

/-- A statement that starts with none of the words and brackets that tell statements apart. -/
def wordStatement (rules : Rules) : Parser SyntaxTree := do
  let next ← peek 1
  let named ← sees .identifier
  if ← seesLet then variableStatement rules
  else if named && next.kind = .colon then labeledStatement rules
  else expressionStatement rules

/-- A statement. Declarations of functions, classes and constants may stand for one. -/
def statement (rules : Rules) : Parser SyntaxTree := do
  match (← current).kind with
  | .leftBrace => block rules
  | .kwVar | .kwConst => variableStatement rules
  | .semicolon => emptyStatement
  | .kwIf => ifStatement rules
  | .kwFor => forStatement rules
  | .kwWhile => whileStatement rules
  | .kwDo => doWhileStatement rules
  | .kwSwitch => switchStatement rules
  | .kwTry => tryStatement rules
  | .kwReturn => returnStatement rules
  | .kwBreak => jumpStatement .breakStmt
  | .kwContinue => jumpStatement .continueStmt
  | .kwThrow => throwStatement rules
  | .kwWith => withStatement rules
  | .kwDebugger => debuggerStatement
  | .kwFunction => function rules .functionDecl true
  | .kwClass => classDefinition rules .classDecl true
  | _ => wordStatement rules

end Uncurry.Grammar
