import Mathlib.Data.List.DropRight
import Uncurry.Curry.Stub

/-!
# The stubs in front of a declaration

What is put in for the stubs, line by line: `stubBlock` has the indentation of the declaration
behind every line, and `stubBlock_eq` says that inserting them comes to that.
-/
namespace Uncurry

/-- The last line of a text is all that stands behind its last line feed. -/
theorem Text.lastLine_eq (t : Text) :
    Text.lastLine t = t.rtakeWhile fun c : CodePoint => c ≠ '\n' := by
  have plain : ∀ c ∈ t.rtakeWhile fun c : CodePoint => c ≠ '\n', c ≠ CodePoint.ofChar '\n' :=
    fun c member => by simpa using List.mem_rtakeWhile_imp member
  have split := List.rdropWhile_append_rtakeWhile (p := fun c : CodePoint => c ≠ '\n') (l := t)
  have ends := List.rdropWhile_last_not (fun c : CodePoint => c ≠ '\n') t
  generalize t.rtakeWhile _ = last at plain split
  generalize t.rdropWhile _ = front at split ends
  obtain rfl | ⟨before, feed, rfl⟩ := List.eq_nil_or_concat front
  · rw [← split, lastLine]
    simp [lines_plain plain]
  · have feed_eq : feed = CodePoint.ofChar '\n' := by simpa using ends (by simp)
    rw [← split, lastLine, feed_eq]
    simp [lines_feed, lines_plain plain]

namespace Curry

/-- What stands on a line in front of a declaration that starts at some offset, if these are blanks
alone. -/
def margin (source : Text) (offset : Nat) : Text :=
  let before := (source.take offset).rtakeWhile fun c : CodePoint => c ≠ '\n'
  if ∀ c ∈ before, c.isBlank = true then before else []

/-- The lines of the stubs, each with a line feed and an indentation behind it. What the first line is
put in front of has its indentation already, so that all lines get it. -/
def stubBlock (indentation : Text) : Text :=
  (Text.lines stubs).flatMap fun line => line ++ CodePoint.ofChar '\n' :: indentation

variable {indentation : Text}

theorem margin_eq (source : Text) (offset : Nat) :
    margin source offset = Document.indentationAt source offset := by
  simp [margin, Document.indentationAt, Text.lastLine_eq, Text.isBlank]

theorem mem_margin {source : Text} {offset : Nat} {c : CodePoint} (h : c ∈ margin source offset) :
    c ∈ source ∧ c.isBlank = true := by
  rw [margin] at h
  split at h
  · rename_i blank
    exact ⟨List.mem_of_mem_take ((List.rtakeWhile_suffix _ _).subset h), blank c h⟩
  · cases h

/-- Indented lines with one more line feed are lines with an indentation behind each. -/
theorem joinLines_indented (indentation first : Text) (later : List Text) :
    Text.joinLines (first :: later.map (indentation ++ ·)) ++ CodePoint.ofChar '\n' :: indentation =
      (first :: later).flatMap (· ++ CodePoint.ofChar '\n' :: indentation) := by
  induction later generalizing first with
  | nil => simp [Text.joinLines]
  | cons second later ih =>
    have rest := ih second
    rw [List.flatMap_cons, ← rest]
    cases later <;> simp [Text.joinLines]

/-- No line of the stubs is empty. -/
theorem isEmpty_line_stubs : ∀ line ∈ Text.lines stubs, line.isEmpty = false := by
  decide +kernel

theorem trimmed_stubs : Text.dropEndWhile (fun c : CodePoint => c = '\n')
    (stubs.dropWhile fun c : CodePoint => c = '\n') = stubs := by
  decide +kernel

/-- Inserting the stubs puts them in line by line. -/
theorem stubBlock_eq (indentation : Text) : stubBlock indentation =
    Document.indented indentation stubs ++ CodePoint.ofChar '\n' :: indentation := by
  rw [stubBlock, Document.indented, trimmed_stubs]
  cases split : Text.lines stubs with
  | nil => exact absurd split (Text.lines_ne_nil stubs)
  | cons first later =>
    have indented : (later.map fun line => if line.isEmpty then line else indentation ++ line) =
        later.map (indentation ++ ·) := by
      refine List.map_congr_left fun line member => ?_
      rw [isEmpty_line_stubs line (split ▸ List.mem_cons_of_mem _ member),
        if_neg Bool.false_ne_true]
    rw [← joinLines_indented]
    simp only [indented]

end Curry

end Uncurry
