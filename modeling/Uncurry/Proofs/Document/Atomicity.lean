import Uncurry.Document.Editor
import Uncurry.Proofs.Document.Editing

/-!
# Edits are done as a whole

An edit that fails has checked everything before it changed anything: the desk is as it was. An edit
that succeeds leaves the document that it is said to make.
-/
namespace Uncurry

/-- What follows a check on a desk. A check that fails leaves the desk as it is. -/
def Desk.check {α β : Type} (desk : Desk) (result : Except Failure α)
    (next : α → Except Failure β × Desk) : Except Failure β × Desk :=
  match result with
  | .ok a => next a
  | .error failure => (.error failure, desk)

namespace Desk

variable {α β γ : Type} {desk : Desk}

theorem check_bind (result : Except Failure α) (more : α → Except Failure β)
    (next : β → Except Failure γ × Desk) :
    desk.check (result >>= more) next = desk.check result fun a => desk.check (more a) next := by
  cases result <;> rfl

theorem check_mapError_bind {ε : Type} (f : ε → Failure) (result : Except ε α)
    (more : α → Except ε β) (next : β → Except Failure γ × Desk) :
    desk.check ((result >>= more).mapError f) next =
      desk.check (result.mapError f) fun a => desk.check ((more a).mapError f) next := by
  cases result <;> rfl

end Desk

namespace Editor

variable {α β : Type} {desk : Desk}

theorem run_document_bind (next : Document → Editor β) (desk : Desk) :
    (document >>= next).run desk = (next desk.document).run desk := rfl

theorem run_ofExcept_bind (result : Except Failure α) (next : α → Editor β) (desk : Desk) :
    (ofExcept result >>= next).run desk = desk.check result fun a => (next a).run desk := by
  cases result <;> rfl

theorem run_record_bind (range : Range) (text : Text) (next : Unit → Editor β) (desk : Desk) :
    (record range text >>= next).run desk =
      desk.check ((desk.document.addPatch range text).mapError .edit) fun recorded =>
        (next ()).run { desk with document := recorded } := by
  rw [record, bind_assoc, run_document_bind, bind_assoc]
  exact run_ofExcept_bind ..

/-- The replacement of a callee is done as a whole. -/
theorem run_replaceCallee (place : Place) (callee : Text) (desk : Desk) :
    (replaceCallee place callee).run desk =
      desk.check (desk.document.replaceCallee place callee) fun after =>
        (.ok (), { desk with document := after }) := by
  rw [replaceCallee, run_document_bind]
  split
  · rename_i found
    rw [Document.replaceCallee, found]
    simp only [run_ofExcept_bind, run_record_bind, Desk.check_bind]
    rfl
  · rename_i other
    rw [Document.replaceCallee]
    split
    · rename_i found
      exact (other _ _ _ found).elim
    · rfl

/-- The removal of an argument is done as a whole. -/
theorem run_removeArgument (place : Place) (index : Int) (desk : Desk) :
    (removeArgument place index).run desk =
      desk.check ((desk.document.removeArgument place index).mapError .edit) fun after =>
        (.ok (), { desk with document := after }) := by
  rw [removeArgument, run_document_bind]
  split
  · rename_i values mark _ _ found
    rw [Document.removeArgument, found]
    by_cases bad : index < 0 ∨ (values.length : Int) ≤ index
    · simp only [if_pos bad]
      rfl
    · simp only [if_neg bad]
      simp only [run_ofExcept_bind, run_record_bind, Desk.check_mapError_bind]
      rfl
  · rename_i other
    rw [Document.removeArgument]
    split
    · rename_i found
      exact (other _ _ _ _ _ _ found).elim
    · rfl

/-- The insertion of statements is done as a whole. -/
theorem run_insertBefore (path : NodePath) (snippet : Text) (desk : Desk) :
    (insertBefore path snippet).run desk =
      desk.check (desk.document.insertBefore path snippet) fun insertion =>
        (.ok insertion.statements, ⟨insertion.document, some insertion.path⟩) := by
  rw [insertBefore, Document.insertBefore]
  generalize path.parent.filter (·.label.isStatementList) = parent
  cases parent with
  | none => rfl
  | some parent =>
    simp only [run_document_bind, run_ofExcept_bind, Desk.check_bind]
    congr 1
    funext range
    generalize List.findIdx? _ _ = index
    cases index with
    | none => rfl
    | some index =>
      simp only [run_document_bind, run_ofExcept_bind, run_record_bind, Desk.check_bind]
      rfl

/-- An edit with all that it is told. -/
def edit : Edit → Editor Unit
  | .replaceCallee place callee => replaceCallee place callee
  | .removeArgument place index => removeArgument place index
  | .insertBefore path snippet => do let _ ← insertBefore path snippet

theorem run_edit_insertBefore (path : NodePath) (snippet : Text) (desk : Desk) :
    (edit (.insertBefore path snippet)).run desk =
      desk.check (desk.document.insertBefore path snippet) fun insertion =>
        (.ok (), ⟨insertion.document, some insertion.path⟩) := by
  change StateT.bind (insertBefore path snippet).run (ExceptT.bindCont _) desk = _
  simp only [StateT.bind, bind]
  rw [run_insertBefore]
  cases desk.document.insertBefore path snippet <;> rfl

variable {document after : Document} {edit : Edit} {failure : Failure}

/-- An edit that succeeds makes the document that it computes. -/
theorem run_edit_ok (made : desk.document.edit edit = .ok after) :
    ∃ path?, (Editor.edit edit).run desk = (.ok (), ⟨after, path?⟩) := by
  cases edit with
  | replaceCallee place callee =>
    exact ⟨_, (run_replaceCallee place callee desk).trans (congrArg (desk.check · _) made)⟩
  | removeArgument place index =>
    exact ⟨_, (run_removeArgument place index desk).trans (congrArg (desk.check · _) made)⟩
  | insertBefore path snippet =>
    obtain ⟨insertion, inserted, rfl⟩ := Except.map_eq_ok made
    exact ⟨_, (run_edit_insertBefore path snippet desk).trans (congrArg (desk.check · _) inserted)⟩

/-- An edit that fails leaves the desk as it is. -/
theorem run_edit_error (refused : desk.document.edit edit = .error failure) :
    (Editor.edit edit).run desk = (.error failure, desk) := by
  cases edit with
  | replaceCallee place callee =>
    exact (run_replaceCallee place callee desk).trans (congrArg (desk.check · _) refused)
  | removeArgument place index =>
    exact (run_removeArgument place index desk).trans (congrArg (desk.check · _) refused)
  | insertBefore path snippet =>
    have refused : desk.document.insertBefore path snippet = .error failure := by
      cases h : desk.document.insertBefore path snippet <;> simp_all [Document.edit, Except.map]
    exact (run_edit_insertBefore path snippet desk).trans (congrArg (desk.check · _) refused)

/-- An edit that fails leaves the document and the path it was told as they were: the tree with the
marks of what was inserted, the patches, and the index of the path. -/
theorem edit_failed
    (failed : (Editor.edit edit).run ⟨document, edit.path?⟩ = (.error failure, desk)) :
    desk = ⟨document, edit.path?⟩ ∧ desk.document.toSource = document.toSource := by
  have same : desk = ⟨document, edit.path?⟩ := by
    cases made : document.edit edit with
    | ok after =>
      obtain ⟨path?, run⟩ := @run_edit_ok ⟨document, edit.path?⟩ _ _ made
      rw [run] at failed
      cases failed
    | error other =>
      rw [@run_edit_error ⟨document, edit.path?⟩ _ _ made] at failed
      exact (Prod.mk.inj failed).2.symm
  exact ⟨same, by rw [same]⟩

end Editor

/-- A program that calls a function in place. -/
def immediate : Text := Text.ofString "(function () \x7b x; \x7d)(1);"

theorem immediate_edited : (Document.parse immediate).toOption.any (fun document =>
    (document.find [.exprStmt]).getLast?.any fun path =>
      let replaced := document.attempt (.replaceCallee ⟨2, []⟩ (Text.ofString "g"))
      replaced.patches.length = 1 &&
        (match replaced.edit (.insertBefore path (Text.ofString "y;")) with
          | .error (.edit (.overlap _ _)) => true
          | _ => false) &&
        replaced.toSource.toOption = some (Text.ofString "g(1);")) = true := by
  decide +kernel

/-- No statement can be inserted into a callee that was replaced, and nothing is changed. -/
theorem edit_failed_immediate : ∃ document path range existing desk,
    Document.Reached immediate document ∧ document.patches.length = 1 ∧
      (Editor.edit (.insertBefore path (Text.ofString "y;"))).run ⟨document, some path⟩ =
        (.error (.edit (.overlap range existing)), desk) ∧
      desk = ⟨document, some path⟩ ∧ desk.document.toSource = .ok (Text.ofString "g(1);") := by
  obtain ⟨document, read, run⟩ := (Option.any_eq_true _ _).1 immediate_edited
  obtain ⟨path, _, run⟩ := (Option.any_eq_true _ _).1 run
  simp only [Bool.and_eq_true, decide_eq_true_eq] at run
  obtain ⟨⟨count, refused⟩, output⟩ := run
  split at refused
  · rename_i range existing overlapping
    have reached := (Document.Reached.parsed (eq_ok_of_toOption read)).attempted
      (.replaceCallee ⟨2, []⟩ (Text.ofString "g")) fun _ given => by cases given
    have run := @Editor.run_edit_error ⟨_, some path⟩ _ _ overlapping
    obtain ⟨same, source_eq⟩ := Editor.edit_failed run
    exact ⟨_, path, range, existing, _, reached, count, run, same,
      source_eq.trans (eq_ok_of_toOption output)⟩
  · cases refused

end Uncurry
