import Uncurry.Text.Quoted
import Uncurry.Tree.Basic

/-!
# Two ways to print a tree

`written` puts a tree on one line, with quoted texts; `outline` gives every node a line of its own,
two spaces further in than its parent.
-/
namespace Uncurry.Tree

variable {α : Type}

/-- How a missing tree is printed. -/
def missingText : Text := Text.ofString "None"

/-- Texts with commas between them. -/
def commaSeparated (texts : List Text) : Text := (Text.ofString ", ").intercalate texts

mutual

/-- A tree on one line. -/
def written : Tree α → Text
  | missing => missingText
  | leaf kind text _ =>
    Text.ofString "Token(" ++ Text.quoted kind.name ++ Text.ofString ", " ++ text.quoted ++
      Text.ofString ")"
  | node label children _ =>
    Text.ofString "Tree(" ++ Text.quoted label.name ++ Text.ofString ", [" ++
      commaSeparated (writtenAll children) ++ Text.ofString "])"

def writtenAll : List (Tree α) → List Text
  | [] => []
  | tree :: trees => tree.written :: writtenAll trees

end

/-- Two spaces for each level. -/
def indentation (level : Nat) : Text := List.replicate (2 * level) (CodePoint.ofChar ' ')

/-- What an outline shows of a tree that is no node. -/
def atom : Tree α → Text
  | leaf _ text _ => text
  | _ => missingText

/-- The end of the line of a node and the lines of its children, given those of the child nodes. A
child that is no node stands on the line of its parent if it is the only one. -/
def outlineBody (children : List (Tree α)) (lines : List Text) : Text :=
  match children with
  | [leaf _ text _] => CodePoint.ofChar '\t' :: text ++ Text.ofString "\n"
  | [missing] => CodePoint.ofChar '\t' :: missingText ++ Text.ofString "\n"
  | _ => CodePoint.ofChar '\n' :: lines.flatten

mutual

/-- A tree with a line for each node and most leaves, that of the root at some level. -/
def outlineAt (level : Nat) : Tree α → Text
  | node label children _ =>
    indentation level ++ Text.ofString label.name ++
      outlineBody children (outlineAll (level + 1) children)
  | tree => indentation level ++ tree.atom ++ Text.ofString "\n"

def outlineAll (level : Nat) : List (Tree α) → List Text
  | [] => []
  | tree :: trees => tree.outlineAt level :: outlineAll level trees

end

def outline (tree : Tree α) : Text := tree.outlineAt 0

end Uncurry.Tree
