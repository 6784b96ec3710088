import Uncurry.Document.Basic

/-!
# Editing step by step

An edit checks what it is told, records its patch and changes the tree, one after the other on the
same desk. What it did before it failed stays done.
-/
namespace Uncurry

/-- A document at work, and the path that the edit was told if it was told one. -/
structure Desk where
  document : Document
  path? : Option NodePath

abbrev Editor := ExceptT Failure (StateM Desk)

namespace Editor

/-- Fails as a computation does, which leaves the desk alone. -/
def ofExcept {α : Type} (result : Except Failure α) : Editor α := ExceptT.mk (pure result)

def document : Editor Document := return (← get).document

def modifyDocument (change : Document → Document) : Editor Unit :=
  modify fun desk => { desk with document := change desk.document }

/-- Records a patch. -/
def record (range : Range) (text : Text) : Editor Unit := do
  let recorded ← ofExcept (((← document).addPatch range text).mapError .edit)
  modifyDocument fun _ => recorded

/-- Numbers what is inserted, from the first number left on. -/
def numbered {α : Type} (number : NodeId → α × NodeId) : Editor α := do
  let (inserted, next) := number (← document).nextId
  modifyDocument fun document => { document with nextId := next }
  return inserted

/-- Puts the expression of a text in the place of what a call calls. -/
def replaceCallee (place : Place) (callee : Text) : Editor Unit := do
  match (← document).treeAt place with
  | .node .call (old :: _) mark =>
    let range ← ofExcept ((Document.editable old).mapError .edit)
    let parsed ← ofExcept ((parseFragment callee).mapError .source)
    record range callee
    let new ← numbered (parsed.number true)
    modifyDocument (·.modifyChildren mark.id (·.set 0 new))
    modifyDocument (·.setAside old)
  | other => throw (.edit (.wrongLabel .call other))

/-- Takes an argument out of a call, with the comma that separates it. -/
def removeArgument (place : Place) (index : Int) : Editor Unit := do
  match (← document).treeAt place with
  | .node .call (_ :: .node _ values mark :: _) _ =>
    if index < 0 ∨ (values.length : Int) ≤ index then
      throw (.edit (.noSuchArgument index values.length))
    let range ← ofExcept ((Document.argumentRange values index.toNat).mapError .edit)
    record range []
    modifyDocument (·.modifyChildren mark.id (·.eraseIdx index.toNat))
    modifyDocument (·.setAside (values.getD index.toNat .missing))
  | other => throw (.edit (.wrongLabel .call other))

/-- Inserts the statements of a snippet before a statement, with its indentation, and moves the path
along with the statement. -/
def insertBefore (path : NodePath) (snippet : Text) : Editor (List DocumentTree) := do
  let some parent := path.parent.filter (·.label.isStatementList)
    | throw (.edit (.notAStatement path))
  let range ← ofExcept ((Document.editable ((← document).node path.node.mark.id)).mapError .edit)
  let siblings := ((← document).node parent.mark.id).children
  let some index := siblings.findIdx? (·.hasId path.node.mark.id)
    | throw (.edit (.detached path))
  let parsed ← ofExcept ((parseProgram snippet).mapError .source)
  let indentation := Document.indentationAt (← document).source range.start
  record ⟨range.start, range.start⟩
    (Document.indented indentation snippet ++ CodePoint.ofChar '\n' :: indentation)
  let statements ← numbered (Tree.numberAll true · parsed.children)
  modifyDocument (·.modifyChildren parent.mark.id fun children =>
    children.take index ++ statements ++ children.drop index)
  modify fun desk => { desk with path? := some { path with index := index + statements.length } }
  return statements

end Editor

end Uncurry
