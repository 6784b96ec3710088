import Uncurry.Document.Node
import Uncurry.Source
import Uncurry.Tree.Printer

/-!
# Why an edit is refused
-/
namespace Uncurry

/-- A stretch of the source that an edit replaces, by its first offset and the one behind it. -/
structure Range where
  start : Nat
  stop : Nat
  deriving DecidableEq

inductive EditError
  | missingNode
  | insertedNode (node : DocumentTree)
  | wrongLabel (expected : Label) (got : DocumentTree)
  | noSuchArgument (index : Int) (count : Nat)
  | notAStatement (path : NodePath)
  | detached (path : NodePath)
  | overlap (range existing : Range)
  | overlapAt (offset : Nat)

/-- `[start, stop)`. -/
def Range.written (range : Range) : Text :=
  Text.ofString "[" ++ Text.ofNat range.start ++ Text.ofString ", " ++ Text.ofNat range.stop ++
    Text.ofString ")"

/-- A path on one line: the label of the node, that of the parent, and the index. -/
def NodePath.written (path : NodePath) : Text :=
  let parent := match path.parent with
    | some parent => Text.ofString parent.label.name
    | none => Tree.missingText
  Text.ofString "NodePath(" ++ Text.quoted path.node.label.name ++ Text.ofString " in " ++ parent ++
    Text.ofString "[" ++ Text.ofNat path.index ++ Text.ofString "])"

namespace EditError

/-- How a message names a tree: by its label in quotes, or as a whole if it has none. -/
def nodeName (tree : DocumentTree) : Text :=
  match tree.label? with
  | some label => Text.quoted label.name
  | none => tree.written

def message : EditError → Text
  | missingNode => Text.ofString "cannot edit a missing node"
  | insertedNode node => Text.ofString "cannot edit inserted node " ++ node.written
  | wrongLabel expected got =>
    Text.ofString "expected a " ++ Text.quoted expected.name ++ Text.ofString " node, got " ++
      nodeName got
  | noSuchArgument index count =>
    Text.ofString "argument index " ++ Text.ofInt index ++ Text.ofString " out of range for " ++
      Text.ofNat count ++ Text.ofString " arguments"
  | notAStatement path =>
    Text.ofString "cannot insert before " ++ path.written ++
      Text.ofString ": not in a statement list"
  | detached path => path.written ++ Text.ofString " is no longer attached to its parent"
  | overlap range existing =>
    Text.ofString "edit " ++ range.written ++ Text.ofString " overlaps edit " ++ existing.written
  | overlapAt offset => Text.ofString "overlapping edits at offset " ++ Text.ofNat offset

end EditError

/-- Why something fails that reads source text and edits it. -/
inductive Failure
  | source (failure : SourceFailure)
  | edit (error : EditError)

end Uncurry
