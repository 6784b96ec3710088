import Uncurry.Command.Invocation
import Uncurry.Tree.Printer

/-!
# Commands that list trees and tokens
-/
namespace Uncurry.Command

/-- The text of a program for the listing of its tree, every line end in it a line feed. -/
def listedSource (access : FileAccess) (invocation : Invocation) : Except Exit Text := do
  let operands := invocation.arguments.filter fun argument =>
    !(Text.ofString "--").isPrefixOf argument
  let text ← match operands.head?.filter (· != Text.ofString "-") with
    | some path => readFile access path
    | none => decode invocation.input
  return Text.unifyLineEnds text

/-- Prints the outline of the syntax tree of a program. -/
def listTree (access : FileAccess) (invocation : Invocation) : Outcome :=
  match listedSource access invocation with
  | .error exit => .early exit
  | .ok source =>
    match parseProgram source with
    | .ok tree => .printing (Text.line tree.outline) [] []
    | .error failure => .ofFailure false "Parse error: " [] (.source failure)

/-- A token on one line: its kind, its text and where it starts. -/
def tokenLine (token : Token) : Text :=
  let text := if token.kind = .endOfInput then Tree.missingText else token.text.quoted
  Text.line (Text.ofString "Tok(" ++ Text.ofString token.kind.name ++ Text.ofString ", " ++ text ++
    Text.ofString ", " ++ Text.ofNat token.start.line ++ Text.ofString ":" ++
    Text.ofNat token.start.column ++ Text.ofString ")")

/-- A program with a curried function and a division. -/
def sample : Text := Text.joinLines
  [[],
   Text.ofString "var _List_cons = F2(function(hd, tl) \x7b return \x7b $: 1, a: hd, b: tl \x7d; \x7d);",
   Text.ofString "var x = A2(_List_cons, 1, _List_Nil) / 2;",
   []]

/-- Prints the tokens of the sample. -/
def listSample : Outcome :=
  match tokenize .skip sample with
  | .ok tokens => ⟨.status 0, tokens.flatMap tokenLine, [], none⟩
  | .error failure => .ofFailure false "Parse error: " [] (.source (.lexical failure))

end Uncurry.Command
