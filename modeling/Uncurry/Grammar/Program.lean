import Uncurry.Grammar.Module

/-!
# Programs

The rules are tied together here: each level of nesting hands the rules of one level less to its
constructs, and one level more than there are tokens is enough.
-/
namespace Uncurry

namespace Rule

open Grammar

/-- What a rule means, given what the rules mean inside. -/
def body (rules : Rules) : Rule → Parser SyntaxTree
  | item => Grammar.item rules
  | statement => Grammar.statement rules
  | expression => Grammar.expression rules
  | assignment => Grammar.assignment rules
  | binary level => Grammar.binary rules level
  | unary => Grammar.unary rules
  | leftHand => Grammar.leftHand rules
  | primary => Grammar.primary rules
  | bindingTarget => Grammar.bindingTarget rules
  | bindingElement => Grammar.bindingElement rules

/-- The parser of a rule for constructs that nest up to some depth. -/
def parserFuel : (depth : Nat) → Rules
  | 0 => fun _ => Parser.halt .exhausted
  | depth + 1 => body (parserFuel depth)

/-- The parser of a rule. -/
def parser (rule : Rule) : Parser SyntaxTree := do
  parserFuel ((← get).rest.length + 1) rule

end Rule

namespace Grammar

open Uncurry.Parser

/-- A whole program, whose node spans the whole text. -/
def program : Parser SyntaxTree := do
  let items ← collect (· = .endOfInput) (return [← Rule.item.parser])
  return .node .program items ⟨.origin, ← here⟩

/-- A single expression up to the end. -/
def fragment : Parser SyntaxTree := do
  let value ← Rule.expression.parser
  let token ← current
  if token.kind = .endOfInput then return value else fail .trailing token

end Grammar

end Uncurry
