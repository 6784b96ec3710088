import Uncurry.Text.Line

/-!
# Places in a text

A location is an offset together with its line and column, both counted from one.
-/
namespace Uncurry

structure Location where
  offset : Nat
  line : Nat
  column : Nat
  deriving DecidableEq, Inhabited

/-- The stretch of text from one location up to another. -/
structure Span where
  start : Location
  stop : Location
  deriving DecidableEq, Inhabited

namespace Location

/-- The start of a text. -/
def origin : Location := ⟨0, 1, 1⟩

/-- The location behind a character, given the one that follows it. -/
def step (here : Location) (c : CodePoint) (next : Option CodePoint) : Location :=
  if c.breaksLine next then ⟨here.offset + 1, here.line + 1, 1⟩
  else ⟨here.offset + 1, here.line, here.column + 1⟩

/-- The location behind a stretch of text, given what follows it. -/
def advance (here : Location) : (stretch following : Text) → Location
  | [], _ => here
  | c :: stretch, following =>
    (here.step c (stretch.head? <|> following.head?)).advance stretch following

@[simp] theorem step_offset (here : Location) (c : CodePoint) (next : Option CodePoint) :
    (here.step c next).offset = here.offset + 1 := by
  unfold step; split <;> rfl

@[simp] theorem advance_offset (here : Location) (stretch following : Text) :
    (here.advance stretch following).offset = here.offset + stretch.length := by
  induction stretch generalizing here with
  | nil => rfl
  | cons c stretch ih => simp [advance, ih]; omega

theorem advance_append (here : Location) (first second following : Text) :
    here.advance (first ++ second) following =
      (here.advance first (second ++ following)).advance second following := by
  induction first generalizing here with
  | nil => rfl
  | cons c first ih =>
    simp only [List.cons_append, advance, ih]
    cases first <;> cases second <;> simp

end Location

end Uncurry
