import Uncurry.Grammar.Parser

/-!
# The rules that constructs nest by

The grammar is written with open recursion: where a construct holds another one, it calls a rule
that is handed to it. Before it does so it has taken a token, so that as many levels as there are
tokens are enough.
-/
namespace Uncurry

inductive Rule
  | item
  | statement
  | expression
  | assignment
  | binary (level : Nat)
  | unary
  | leftHand
  | primary
  | bindingTarget
  | bindingElement
  deriving DecidableEq

/-- A parser for each rule. -/
abbrev Rules := Rule → Parser SyntaxTree

end Uncurry
