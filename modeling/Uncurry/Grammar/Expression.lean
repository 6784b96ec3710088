import Uncurry.Grammar.Primary

/-!
# Operators

From the weakest binding to the strongest: sequences, assignments, conditionals, binary operators in
twelve levels, prefix operators, postfix operators.
-/
namespace Uncurry.Grammar

open Uncurry.Parser

/-- The level of a binary operator; a higher one binds more strongly. -/
def level? : TokenKind → Option Nat
  | .coalesce => some 1
  | .logicalOr => some 2
  | .logicalAnd => some 3
  | .pipe => some 4
  | .caret => some 5
  | .ampersand => some 6
  | .looseEqual | .looseUnequal | .strictEqual | .strictUnequal => some 7
  | .less | .greater | .lessEqual | .greaterEqual | .kwInstanceof | .kwIn => some 8
  | .shiftLeft | .shiftRight | .shiftRightUnsigned => some 9
  | .plus | .minus => some 10
  | .star | .slash | .percent => some 11
  | .starStar => some 12
  | _ => none

/-- Operators that may leave their right operand unevaluated. -/
def isLogical (kind : TokenKind) : Bool :=
  kind = .logicalAnd || kind = .logicalOr || kind = .coalesce

/-- The level that the operators in the right operand have to exceed. Only powers group to the
right. -/
def rightLevel (kind : TokenKind) (level : Nat) : Nat :=
  if kind = .starStar then level - 1 else level

def prefixOperators : List TokenKind :=
  [.kwDelete, .kwVoid, .kwTypeof, .plus, .minus, .tilde, .bang]

/-- The tokens that can start the operand of an `await` outside all functions. -/
def awaitOperandStarts : List TokenKind :=
  [.identifier, .number, .bigInt, .string, .template, .templateHead, .leftBracket, .leftBrace,
   .kwThis, .kwSuper, .kwNull, .kwTrue, .kwFalse, .kwNew, .kwFunction, .kwClass, .bang, .tilde,
   .kwTypeof, .kwVoid, .kwDelete, .plusPlus, .minusMinus, .kwImport]

/-- The tokens before which a `yield` has no operand. -/
def yieldEnds : List TokenKind :=
  [.rightParen, .rightBracket, .rightBrace, .comma, .semicolon, .colon, .endOfInput,
   .templateMiddle, .templateTail, .question]

/-- Whether `await` stands here as an operator. -/
def seesAwait : Parser Bool := do
  let next ← peek 1
  let within ← context
  let outermost := !within.insideFunction && awaitOperandStarts.contains next.kind &&
    !next.newlineBefore
  return (← seesWord "await") && (within.insideAsync || outermost)

/-- `operand++` and `operand--` on one line. -/
def postfixExpression (rules : Rules) : Parser SyntaxTree := do
  let start ← here
  let operand ← leftHand rules
  let token ← current
  if (token.kind = .plusPlus || token.kind = .minusMinus) && !token.newlineBefore then
    let operator ← takeLeaf
    finish .updatePostfix [operand, operator] start
  else return operand

/-- An operand with its prefix operators. -/
def unary (rules : Rules) : Parser SyntaxTree := do
  let start ← here
  let kind := (← current).kind
  if prefixOperators.contains kind then
    let operator ← takeLeaf
    let operand ← rules .unary
    finish .unary [operator, operand] start
  else if kind = .plusPlus || kind = .minusMinus then
    let operator ← takeLeaf
    let operand ← rules .unary
    finish .updatePrefix [operator, operand] start
  else if ← seesAwait then
    let _ ← advance
    let operand ← rules .unary
    finish .awaitValue [operand] start
  else postfixExpression rules

/-- Joins one more operator above a level, with its right operand, to the left operand. -/
def joinOperator (rules : Rules) (level : Nat) (start : Location) (left : SyntaxTree) :
    Parser (Option SyntaxTree) := do
  let kind := (← current).kind
  match level? kind with
  | none => return none
  | some own =>
    if own ≤ level || (kind = .kwIn && !(← context).allowIn) then return none
    let operator ← takeLeaf
    let right ← rules (.binary (rightLevel kind own))
    let label := if isLogical kind then .logical else .binary
    return some (← finish label [left, operator, right] start)

/-- Operands joined by the binary operators above a level. -/
def binary (rules : Rules) (level : Nat) : Parser SyntaxTree := do
  let start ← here
  iterate (joinOperator rules level start) (← unary rules)

/-- `test ? consequent : alternate`. -/
def conditional (rules : Rules) : Parser SyntaxTree := do
  let start ← here
  let test ← binary rules 0
  if ← accept .question then
    let consequent ← allowingIn (rules .assignment)
    let _ ← expect .colon
    let alternate ← rules .assignment
    finish .conditional [test, consequent, alternate] start
  else return test

/-- `yield value` and `yield* values`. -/
def yieldExpression (rules : Rules) : Parser SyntaxTree := do
  let start ← here
  let _ ← advance
  if ← accept .star then
    let values ← rules .assignment
    finish .yieldDelegate [values] start
  else
    let token ← current
    let value ←
      if token.newlineBefore || yieldEnds.contains token.kind then pure .missing
      else rules .assignment
    finish .yieldValue [value] start

/-- An assignment, an arrow function, a `yield` or an operand of these. -/
def assignment (rules : Rules) : Parser SyntaxTree := do
  if ← seesArrow then arrow rules
  else if (← context).insideGenerator && (← seesWord "yield") then yieldExpression rules
  else
    let start ← here
    let left ← conditional rules
    if (← current).kind.isAssignment then
      let operator ← takeLeaf
      let right ← rules .assignment
      finish .assign [left, operator, right] start
    else return left

/-- Assignments with commas between them. -/
def expression (rules : Rules) : Parser SyntaxTree := do
  let start ← here
  let first ← assignment rules
  if ← sees .comma then
    let later ← collect (· != .comma) do
      let _ ← advance
      return [← rules .assignment]
    finish .sequence (first :: later) start
  else return first

end Uncurry.Grammar
