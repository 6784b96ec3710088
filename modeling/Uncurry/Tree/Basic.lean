import Uncurry.Text.CodePoint
import Uncurry.Token.Kind
import Uncurry.Tree.Label

/-!
# Syntax trees

Leaves hold the text of a token. A part of a construct that is left out, such as the initial value
of a variable or an element of an array, is a missing tree in its place. Nodes and leaves carry a
piece of information of some type, for instance where they stand.
-/
namespace Uncurry

/-- What a leaf is: a token of some kind, or the word that says how variables are bound. -/
inductive LeafKind
  | token (kind : TokenKind)
  | binding
  deriving DecidableEq

def LeafKind.name : LeafKind → String
  | .token kind => kind.name
  | .binding => "KIND"

inductive Tree (α : Type) where
  | missing
  | leaf (kind : LeafKind) (text : Text) (info : α)
  | node (label : Label) (children : List (Tree α)) (info : α)

namespace Tree

variable {α β : Type}

instance : Inhabited (Tree α) := ⟨missing⟩

def label? : Tree α → Option Label
  | node label _ _ => some label
  | _ => none

def hasLabel (tree : Tree α) (label : Label) : Bool := tree.label? = some label

def children : Tree α → List (Tree α)
  | node _ children _ => children
  | _ => []

def info? : Tree α → Option α
  | missing => none
  | leaf _ _ info => some info
  | node _ _ info => some info

/-- The child in some place, missing if there is none. -/
def child (tree : Tree α) (index : Nat) : Tree α := tree.children.getD index missing

/-- The first child with a label, missing if there is none. -/
def childWithLabel (tree : Tree α) (label : Label) : Tree α :=
  (tree.children.find? (·.hasLabel label)).getD missing

/-- What is reached by going down from child to child. -/
def descend (tree : Tree α) : List Nat → Tree α
  | [] => tree
  | index :: path => (tree.child index).descend path

/-- The name of an identifier. -/
def identifier? : Tree α → Option Text
  | leaf kind text _ => if kind = .token .identifier then some text else none
  | _ => none

mutual

/-- Applies a function to the information of every node and leaf. -/
def map (f : α → β) : Tree α → Tree β
  | missing => missing
  | leaf kind text info => leaf kind text (f info)
  | node label children info => node label (mapAll f children) (f info)

def mapAll (f : α → β) : List (Tree α) → List (Tree β)
  | [] => []
  | tree :: trees => tree.map f :: mapAll f trees

end

theorem mapAll_eq (f : α → β) (trees : List (Tree α)) : mapAll f trees = trees.map (map f) := by
  induction trees with
  | nil => rfl
  | cons tree trees ih => simp [mapAll, ih]

end Tree

end Uncurry
