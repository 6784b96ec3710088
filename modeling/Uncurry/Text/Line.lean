import Uncurry.Text.CodePoint

/-!
# Lines

A program knows four line terminators. The lines of a document are split at line feeds alone, and
`joinLines` undoes the splitting.
-/
namespace Uncurry

namespace CodePoint

/-- Line feed, carriage return, line separator and paragraph separator end a line. -/
def isLineTerminator (c : CodePoint) : Bool :=
  c = '\n' || c = '\r' || c.val = 0x2028 || c.val = 0x2029

/-- Whether a new line starts after a character, given the one that follows. The two characters of
a carriage return and line feed end one line, at the second. -/
def breaksLine (c : CodePoint) (next : Option CodePoint) : Bool :=
  if c = '\r' then next != some (ofChar '\n') else c.isLineTerminator

end CodePoint

namespace Text

/-- The pieces of a text between its line feeds. -/
def lines : Text → List Text
  | [] => [[]]
  | c :: rest =>
    if c = '\n' then [] :: lines rest
    else match lines rest with
      | [] => [[c]]
      | line :: later => (c :: line) :: later

/-- Texts with line feeds between them. -/
def joinLines : List Text → Text
  | [] => []
  | [line] => line
  | line :: later => line ++ CodePoint.ofChar '\n' :: joinLines later

theorem lines_ne_nil (t : Text) : lines t ≠ [] := by
  cases t with
  | nil => simp [lines]
  | cons c rest =>
    simp only [lines]
    split
    · simp
    · split <;> simp

@[simp] theorem joinLines_lines (t : Text) : joinLines (lines t) = t := by
  induction t with
  | nil => rfl
  | cons c rest ih =>
    simp only [lines]
    split
    next h =>
      cases hl : lines rest with
      | nil => exact absurd hl (lines_ne_nil rest)
      | cons line later => rw [hl] at ih; simp [joinLines, ih, h]
    next h =>
      cases hl : lines rest with
      | nil => exact absurd hl (lines_ne_nil rest)
      | cons line later =>
        rw [hl] at ih
        cases later with
        | nil => simp_all [joinLines]
        | cons next later => simpa [joinLines] using ih

/-- A line feed cuts the lines of a text in two. -/
theorem lines_feed (t more : Text) : lines (t ++ CodePoint.ofChar '\n' :: more) = lines t ++ lines more := by
  induction t with
  | nil => simp [lines]
  | cons c t ih =>
    obtain ⟨line, later, split⟩ := List.exists_cons_of_ne_nil (lines_ne_nil t)
    by_cases feed : c = '\n'
    · simp [lines, feed, ih]
    · simp [lines, feed, ih, split]

theorem lines_plain {t : Text} (plain : ∀ c ∈ t, c ≠ CodePoint.ofChar '\n') : lines t = [t] := by
  induction t with
  | nil => rfl
  | cons c t ih =>
    obtain ⟨own, later⟩ := List.forall_mem_cons.1 plain
    simp [lines, own, ih later]

/-- The last line of a text. -/
def lastLine (t : Text) : Text := (lines t).getLast (lines_ne_nil t)

/-- Every line end, be it a carriage return, a line feed or the two together, becomes a line feed. -/
def unifyLineEnds : Text → Text
  | [] => []
  | c :: rest =>
    if c = '\r' then
      if rest.head? = some (CodePoint.ofChar '\n') then unifyLineEnds rest
      else CodePoint.ofChar '\n' :: unifyLineEnds rest
    else c :: unifyLineEnds rest

end Text

end Uncurry
