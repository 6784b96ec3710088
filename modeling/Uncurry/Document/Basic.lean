import Uncurry.Document.Patch
import Uncurry.Text.Blank

/-!
# Documents

A document is a source text with its tree and the edits made so far. An edit changes the tree, so
that later edits see it, and adds a patch of the source, so that everything that was not edited
comes back as it was. What an edit cuts out is kept aside: paths into it stay valid, while every
further edit of it is refused.
-/
namespace Uncurry

structure Document where
  source : Text
  tree : DocumentTree
  cut : List DocumentTree
  patches : List Patch
  nextId : NodeId

/-- A node, and the children to go down to from it. -/
structure Place where
  node : NodeId
  path : List Nat
  deriving DecidableEq

/-- A document after statements were inserted into it, with the path before which they stand now. -/
structure Insertion where
  document : Document
  path : NodePath
  statements : List DocumentTree

namespace Document

/-- A document without edits. -/
def ofTree (source : Text) (tree : SyntaxTree) : Document :=
  let (tree, next) := tree.number false 0
  ⟨source, tree, [], [], next⟩

def parse (source : Text) : Except SourceFailure Document :=
  (parseProgram source).map (ofTree source)

/-- The paths to all nodes of the tree. -/
def paths (document : Document) : List NodePath := document.tree.paths

/-- The paths to the nodes with one of some labels. -/
def find (document : Document) (labels : List Label) : List NodePath :=
  document.paths.filter fun path => labels.contains path.node.label

/-- The node or leaf of some number, cut out or not. -/
def node (document : Document) (id : NodeId) : DocumentTree :=
  (Tree.withIdAmong? id (document.tree :: document.cut)).getD .missing

/-- What stands in a place. -/
def treeAt (document : Document) (place : Place) : DocumentTree :=
  (document.node place.node).descend place.path

/-- The range of a node or leaf that was neither left out nor inserted. -/
def editable (tree : DocumentTree) : Except EditError Range :=
  match tree.info? with
  | none => .error .missingNode
  | some mark =>
    if mark.inserted then .error (.insertedNode tree)
    else .ok ⟨mark.span.start.offset, mark.span.stop.offset⟩

/-- The source text of what stands in a place. -/
def textAt (document : Document) (place : Place) : Except EditError Text := do
  let range ← editable (document.treeAt place)
  return (document.source.take range.stop).drop range.start

/-- The source with all edits made. -/
def toSource (document : Document) : Except EditError Text :=
  Patch.apply document.source document.patches

/-- Records a patch. -/
def addPatch (document : Document) (range : Range) (text : Text) : Except EditError Document := do
  return { document with patches := ← Patch.add document.patches ⟨range, text⟩ }

/-- Changes the children of a node. -/
def modifyChildren (document : Document) (id : NodeId)
    (change : List DocumentTree → List DocumentTree) : Document :=
  { document with
    tree := document.tree.modifyChildren id change
    cut := Tree.modifyChildrenAmong id change document.cut }

/-- Keeps a tree aside that is no longer part of the document. -/
def setAside (document : Document) (tree : DocumentTree) : Document :=
  { document with cut := tree :: document.cut }

/-- Puts the expression of a text in the place of what a call calls. -/
def replaceCallee (document : Document) (place : Place) (callee : Text) :
    Except Failure Document := do
  match document.treeAt place with
  | .node .call (old :: _) mark =>
    let range ← (editable old).mapError .edit
    let parsed ← (parseFragment callee).mapError .source
    let document ← (document.addPatch range callee).mapError .edit
    let (new, next) := parsed.number true document.nextId
    return { (document.modifyChildren mark.id (·.set 0 new)).setAside old with nextId := next }
  | other => throw (.edit (.wrongLabel .call other))

/-- The range that goes with an argument: up to the argument behind it, or else from the end of the
one before it, or else the argument alone. -/
def argumentRange (values : List DocumentTree) (index : Nat) : Except EditError Range := do
  let own ← editable (values.getD index .missing)
  if index + 1 < values.length then
    return ⟨own.start, (← editable (values.getD (index + 1) .missing)).start⟩
  else if 0 < index then
    return ⟨(← editable (values.getD (index - 1) .missing)).stop, own.stop⟩
  else return own

/-- Takes an argument out of a call, with the comma that separates it. -/
def removeArgument (document : Document) (place : Place) (index : Int) :
    Except EditError Document := do
  match document.treeAt place with
  | .node .call (_ :: .node _ values mark :: _) _ =>
    if index < 0 ∨ (values.length : Int) ≤ index then
      throw (.noSuchArgument index values.length)
    let range ← argumentRange values index.toNat
    let document ← document.addPatch range []
    return (document.modifyChildren mark.id (·.eraseIdx index.toNat)).setAside
      (values.getD index.toNat .missing)
  | other => throw (.wrongLabel .call other)

/-- The blanks that the line of an offset starts with, if nothing else comes before the offset. -/
def indentationAt (source : Text) (offset : Nat) : Text :=
  let before := Text.lastLine (source.take offset)
  if Text.isBlank before then before else []

/-- A snippet without the line feeds around it, its lines but for the first and the empty ones
indented. -/
def indented (indentation snippet : Text) : Text :=
  let isFeed (c : CodePoint) : Bool := c = '\n'
  match Text.lines (Text.dropEndWhile isFeed (snippet.dropWhile isFeed)) with
  | [] => []
  | first :: later =>
    Text.joinLines (first :: later.map fun line => if line.isEmpty then line else indentation ++ line)

/-- Inserts the statements of a snippet before a statement, with its indentation. -/
def insertBefore (document : Document) (path : NodePath) (snippet : Text) :
    Except Failure Insertion := do
  let some parent := path.parent.filter (·.label.isStatementList)
    | throw (.edit (.notAStatement path))
  let range ← (editable (document.node path.node.mark.id)).mapError .edit
  let siblings := (document.node parent.mark.id).children
  let some index := siblings.findIdx? (·.hasId path.node.mark.id)
    | throw (.edit (.detached path))
  let parsed ← (parseProgram snippet).mapError .source
  let indentation := indentationAt document.source range.start
  let text := indented indentation snippet ++ CodePoint.ofChar '\n' :: indentation
  let document ← (document.addPatch ⟨range.start, range.start⟩ text).mapError .edit
  let (statements, next) := Tree.numberAll true document.nextId parsed.children
  let changed := document.modifyChildren parent.mark.id fun children =>
    children.take index ++ statements ++ children.drop index
  return ⟨{ changed with nextId := next }, { path with index := index + statements.length },
    statements⟩

end Document

end Uncurry
