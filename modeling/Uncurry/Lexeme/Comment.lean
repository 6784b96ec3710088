import Uncurry.Text.Line

/-!
# Comments

Each function counts the characters that a comment takes after its opening.
-/
namespace Uncurry.Lexeme

/-- A line comment runs up to a line terminator, which it leaves. -/
def lineCommentLength : Text → Nat
  | [] => 0
  | c :: rest => if c.isLineTerminator then 0 else lineCommentLength rest + 1

/-- A block comment runs up to and including the first `*/`. -/
def blockCommentLength? : Text → Option Nat
  | [] => none
  | c :: rest =>
    if c = '*' && rest.head? = some (CodePoint.ofChar '/') then some 2
    else (blockCommentLength? rest).map (· + 1)

theorem lineCommentLength_eq (t : Text) :
    lineCommentLength t = (t.takeWhile (!·.isLineTerminator)).length := by
  induction t with
  | nil => rfl
  | cons c rest ih => by_cases h : c.isLineTerminator <;> simp [lineCommentLength, h, ih]

theorem blockCommentLength?_le {t : Text} {n : Nat} (h : blockCommentLength? t = some n) :
    n ≤ t.length := by
  induction t generalizing n with
  | nil => simp [blockCommentLength?] at h
  | cons c rest ih =>
    simp only [blockCommentLength?] at h
    split at h
    next hc =>
      cases rest with
      | nil => simp at hc
      | cons d rest => simp at h; simp; omega
    next =>
      simp only [Option.map_eq_some_iff] at h
      obtain ⟨m, hm, rfl⟩ := h
      simpa using ih hm

end Uncurry.Lexeme
