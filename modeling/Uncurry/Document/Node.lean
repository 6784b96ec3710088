import Uncurry.Location
import Uncurry.Tree.Basic

/-!
# The nodes of a document

Edits change the children of a node while paths to it are held, so nodes are known by numbers that
never change. A path says at which node something stands, under which parent and in which place.
-/
namespace Uncurry

/-- The number of a node or leaf of a document. -/
abbrev NodeId := Nat

/-- What a document knows of a node or leaf. The span of inserted ones is relative to their own
snippet. -/
structure Mark where
  id : NodeId
  span : Span
  inserted : Bool
  deriving DecidableEq

abbrev DocumentTree := Tree Mark

/-- What never changes about a node. -/
structure NodeRef where
  label : Label
  mark : Mark
  deriving DecidableEq

/-- A node with its parent, if it has one, and its place among the children there. -/
structure NodePath where
  node : NodeRef
  parent : Option NodeRef
  index : Nat
  deriving DecidableEq

namespace Tree

mutual

/-- Numbers the nodes and leaves of a tree from some number on, parents before children, and answers
the first number left. -/
def number (inserted : Bool) (next : NodeId) : Tree Span → DocumentTree × NodeId
  | missing => (missing, next)
  | leaf kind text span => (leaf kind text ⟨next, span, inserted⟩, next + 1)
  | node label children span =>
    let (children, after) := numberAll inserted (next + 1) children
    (node label children ⟨next, span, inserted⟩, after)

def numberAll (inserted : Bool) (next : NodeId) : List (Tree Span) → List DocumentTree × NodeId
  | [] => ([], next)
  | tree :: trees =>
    let (tree, next) := tree.number inserted next
    let (trees, next) := numberAll inserted next trees
    (tree :: trees, next)

end

mutual

/-- The node or leaf of some number. -/
def withId? (id : NodeId) : DocumentTree → Option DocumentTree
  | missing => none
  | leaf kind text mark => if mark.id = id then some (leaf kind text mark) else none
  | node label children mark =>
    if mark.id = id then some (node label children mark) else withIdAmong? id children

def withIdAmong? (id : NodeId) : List DocumentTree → Option DocumentTree
  | [] => none
  | tree :: trees => tree.withId? id <|> withIdAmong? id trees

end

mutual

/-- Changes the children of the node of some number. -/
def modifyChildren (id : NodeId) (change : List DocumentTree → List DocumentTree) :
    DocumentTree → DocumentTree
  | missing => missing
  | leaf kind text mark => leaf kind text mark
  | node label children mark =>
    if mark.id = id then node label (change children) mark
    else node label (modifyChildrenAmong id change children) mark

def modifyChildrenAmong (id : NodeId) (change : List DocumentTree → List DocumentTree) :
    List DocumentTree → List DocumentTree
  | [] => []
  | tree :: trees => tree.modifyChildren id change :: modifyChildrenAmong id change trees

end

mutual

/-- The paths to a node, which stands in some place, and to all nodes in it, in the order of the
document. -/
def pathsFrom (parent : Option NodeRef) (index : Nat) : DocumentTree → List NodePath
  | node label children mark =>
    ⟨⟨label, mark⟩, parent, index⟩ :: pathsAmong (some ⟨label, mark⟩) 0 children
  | _ => []

def pathsAmong (parent : Option NodeRef) (index : Nat) : List DocumentTree → List NodePath
  | [] => []
  | tree :: trees => tree.pathsFrom parent index ++ pathsAmong parent (index + 1) trees

end

/-- The paths to all nodes of a tree, a node before what it holds. -/
def paths (tree : DocumentTree) : List NodePath := tree.pathsFrom none 0

def hasId (tree : DocumentTree) (id : NodeId) : Bool := tree.info?.any fun mark => mark.id = id

end Tree

end Uncurry
