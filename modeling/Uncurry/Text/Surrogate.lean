import Uncurry.Text.Quoted

/-!
# Surrogates in texts that leave the program

UTF-8 has no form for a surrogate, so a text with one is no output. What is reported all the same
is written with each surrogate as an escape.
-/
namespace Uncurry

/-- A surrogate as a backslash, `u` and its four hexadecimal digits; all else as itself. -/
def CodePoint.surrogateEscaped (c : CodePoint) : Text :=
  if c.isSurrogate then Text.ofString "\\u" ++ Text.hexDigits 4 c.val else [c]

theorem CodePoint.isSome_toChar? (c : CodePoint) : c.toChar?.isSome = !c.isSurrogate := by
  have h : c.val.isValidChar ↔ ¬(0xD800 ≤ c.val ∧ c.val < 0xE000) := by
    have := c.val_lt
    simp only [Nat.isValidChar]
    omega
  have surrogate : c.isSurrogate = decide (0xD800 ≤ c.val ∧ c.val < 0xE000) := by
    simp only [isSurrogate, Bool.decide_and]
  rw [surrogate]
  by_cases hc : c.val.isValidChar
  · rw [decide_eq_false (h.mp hc)]
    unfold toChar?
    rw [dif_pos hc]
    rfl
  · rw [decide_eq_true (Decidable.of_not_not fun n => hc (h.mpr n))]
    unfold toChar?
    rw [dif_neg hc]
    rfl

namespace Text

/-- Whether a text has a UTF-8 form: none of its code points is a surrogate. -/
def isEncodable (t : Text) : Bool := t.all (!·.isSurrogate)

/-- A text with its surrogates escaped. -/
def escapeSurrogates (t : Text) : Text := t.flatMap CodePoint.surrogateEscaped

/-- Just the encodable texts are strings. -/
theorem isSome_toString? (t : Text) : t.toString?.isSome = t.isEncodable := by
  have chars : (t.mapM CodePoint.toChar?).isSome = t.isEncodable := by
    induction t with
    | nil => rfl
    | cons c t ih =>
      have hc := c.isSome_toChar?
      simp only [isEncodable, List.all_cons] at ih ⊢
      rw [← ih, ← hc, List.mapM_cons]
      cases c.toChar? with
      | none => rfl
      | some d => cases List.mapM CodePoint.toChar? t <;> rfl
  simp [toString?, chars]

end Text

end Uncurry
