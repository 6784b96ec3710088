import Uncurry.Curry.ArityTable
import Uncurry.Document.Editor
import Uncurry.Log

/-!
# Passes over a document

A pass works on a document, an arity table and a log. What it did before it failed stays.
-/
namespace Uncurry

structure Workspace where
  document : Document
  table : ArityTable
  log : List LogRecord

abbrev Pass := ExceptT Failure (StateM Workspace)

/-- A workspace before all passes. -/
def Workspace.ofDocument (document : Document) : Workspace := ⟨document, .empty, []⟩

namespace Pass

def log (level : LogLevel) (logger : Logger) (message : Text) : Pass Unit :=
  modify fun workspace => { workspace with log := workspace.log ++ [⟨level, logger, message⟩] }

/-- Logs a message with a count in it. -/
def logCount (before : String) (count : Nat) (after : String) : Pass Unit :=
  log .debug .transforms (Text.ofString before ++ Text.ofNat count ++ Text.ofString after)

def document : Pass Document := return (← get).document

def table : Pass ArityTable := return (← get).table

/-- Records the arity of a name, with a warning if it changes. -/
def record (name : Text) (arity : Int) : Pass Unit := do
  if let some conflict := (← table).conflict? name arity then
    log .warning .transforms (ArityTable.warning conflict)
  modify fun workspace => { workspace with table := workspace.table.record name arity }

/-- Fails as a computation does, which leaves the workspace alone. -/
def ofExcept {α : Type} (result : Except Failure α) : Pass α := ExceptT.mk (pure result)

/-- Edits the document with a path at hand, and answers with what became of the path too. -/
def ofEditor {α : Type} (path? : Option NodePath) (editor : Editor α) :
    Pass (α × Option NodePath) := ExceptT.mk fun workspace =>
  let (result, desk) := editor.run ⟨workspace.document, path?⟩
  (result.map fun a => (a, desk.path?), { workspace with document := desk.document })

def replaceCallee (place : Place) (callee : Text) : Pass Unit := do
  let _ ← ofEditor none (Editor.replaceCallee place callee)

def removeArgument (place : Place) (index : Int) : Pass Unit := do
  let _ ← ofEditor none (Editor.removeArgument place index)

/-- Runs a step on each item in turn and counts those that it says yes to. -/
def count {α : Type} (step : α → Pass Bool) : List α → Pass Nat
  | [] => return 0
  | item :: rest => do
    let counted ← step item
    let later ← count step rest
    return if counted then later + 1 else later

/-- Inserts statements before a statement and logs how many. -/
def insertBefore (path : NodePath) (snippet : Text) : Pass Insertion := do
  let (statements, moved) ← ofEditor (some path) (Editor.insertBefore path snippet)
  log .debug .document (Text.ofString "inserted " ++ Text.ofNat statements.length ++
    Text.ofString " statement(s) at offset " ++ Text.ofNat path.node.mark.span.start.offset)
  return ⟨← document, moved.getD path, statements⟩

end Pass

end Uncurry
