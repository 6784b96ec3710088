import Uncurry.Curry.Transform
import Uncurry.Proofs.Document.Atomicity

/-!
# What passes do to a workspace
-/
namespace Uncurry.Pass

variable {α β : Type} {workspace : Workspace}

theorem run_bind (pass : Pass α) (next : α → Pass β) (workspace : Workspace) :
    (pass >>= next).run workspace =
      match pass.run workspace with
      | (.ok a, after) => (next a).run after
      | (.error failure, after) => (.error failure, after) := by
  change StateT.bind pass.run (ExceptT.bindCont next) workspace = _
  simp only [StateT.bind, bind]
  rcases pass.run workspace with ⟨_ | _, after⟩ <;> rfl

@[simp] theorem run_pure (a : α) (workspace : Workspace) :
    (pure a : Pass α).run workspace = (.ok a, workspace) := rfl

@[simp] theorem run_document (workspace : Workspace) :
    Pass.document.run workspace = (.ok workspace.document, workspace) := rfl

@[simp] theorem run_table (workspace : Workspace) :
    Pass.table.run workspace = (.ok workspace.table, workspace) := rfl

@[simp] theorem run_ofExcept (result : Except Failure α) (workspace : Workspace) :
    (ofExcept result).run workspace = (result, workspace) := rfl

@[simp] theorem run_log (level : LogLevel) (logger : Logger) (message : Text)
    (workspace : Workspace) : (log level logger message).run workspace =
      (.ok (), { workspace with log := workspace.log ++ [⟨level, logger, message⟩] }) := rfl

theorem run_record (name : Text) (arity : Int) (workspace : Workspace) : ∃ log,
    (record name arity).run workspace =
      (.ok (), ⟨workspace.document, workspace.table.record name arity, log⟩) := by
  rw [record, run_bind, run_table]
  dsimp only
  cases workspace.table.conflict? name arity <;> exact ⟨_, rfl⟩

section

variable {place : Place} {callee : Text} {index : Int} {path : NodePath} {snippet : Text}
  {after : Document} {failure : Failure} {error : EditError} {insertion : Insertion}

theorem run_ofEditor (path? : Option NodePath) (editor : Editor α) (workspace : Workspace) :
    (ofEditor path? editor).run workspace =
      let run := editor.run ⟨workspace.document, path?⟩
      (run.1.map fun a => (a, run.2.path?), { workspace with document := run.2.document }) := rfl

theorem run_replaceCallee_ok (made : workspace.document.replaceCallee place callee = .ok after) :
    (replaceCallee place callee).run workspace = (.ok (), { workspace with document := after }) := by
  rw [replaceCallee, run_bind, run_ofEditor, Editor.run_replaceCallee, made]
  rfl

theorem run_replaceCallee_error
    (refused : workspace.document.replaceCallee place callee = .error failure) :
    (replaceCallee place callee).run workspace = (.error failure, workspace) := by
  rw [replaceCallee, run_bind, run_ofEditor, Editor.run_replaceCallee, refused]
  rfl

theorem run_removeArgument_ok (made : workspace.document.removeArgument place index = .ok after) :
    (removeArgument place index).run workspace = (.ok (), { workspace with document := after }) := by
  rw [removeArgument, run_bind, run_ofEditor, Editor.run_removeArgument, made]
  rfl

theorem run_removeArgument_error
    (refused : workspace.document.removeArgument place index = .error error) :
    (removeArgument place index).run workspace = (.error (.edit error), workspace) := by
  rw [removeArgument, run_bind, run_ofEditor, Editor.run_removeArgument, refused]
  rfl

theorem run_insertBefore_ok
    (made : workspace.document.insertBefore path snippet = .ok insertion) : ∃ log,
    (insertBefore path snippet).run workspace =
      (.ok insertion, { workspace with document := insertion.document, log := log }) := by
  constructor
  rw [insertBefore, run_bind, run_ofEditor, Editor.run_insertBefore, made]
  rfl

end

end Uncurry.Pass
