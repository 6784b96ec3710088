import Uncurry.Proofs.Lexical.Places

/-!
# Lines and columns

A lexer counts lines and columns as it goes. What it finds is what the offset alone says: the lines
that end before it, and the characters behind the last of their ends.
-/
namespace Uncurry

namespace Text

/-- Whether a line ends with the character at an offset. -/
def breaksAt (source : Text) (offset : Nat) : Bool :=
  source[offset]?.any fun c => c.breaksLine source[offset + 1]?

/-- The line of an offset, counted from one. -/
def lineAt (source : Text) (offset : Nat) : Nat := (List.range offset).countP source.breaksAt + 1

/-- The column of an offset, counted from one behind the end of a line. -/
def columnAt (source : Text) : Nat → Nat
  | 0 => 1
  | offset + 1 => if source.breaksAt offset then 1 else source.columnAt offset + 1

end Text

/-- The line and the column of a location are those of its offset. -/
def Location.Counted (source : Text) (here : Location) : Prop :=
  here.line = source.lineAt here.offset ∧ here.column = source.columnAt here.offset

namespace Location

variable {source stretch following : Text} {here : Location} {c : CodePoint}

theorem counted_origin (source : Text) : origin.Counted source := ⟨rfl, rfl⟩

/-- Line and column are counted on over a character of the text. -/
theorem Counted.step (h : here.Counted source) (found : source[here.offset]? = some c) :
    (here.step c source[here.offset + 1]?).Counted source := by
  have breaks : source.breaksAt here.offset = c.breaksLine source[here.offset + 1]? := by
    rw [Text.breaksAt, found, Option.any_some]
  obtain ⟨line, column⟩ := h
  rw [Counted, step_offset, Text.lineAt, Text.columnAt, List.range_succ, List.countP_append,
    List.countP_singleton, breaks, Location.step]
  rw [Text.lineAt] at line
  cases c.breaksLine source[here.offset + 1]? with
  | true => exact ⟨by simp [line], rfl⟩
  | false => exact ⟨by simp [line], by simp [column]⟩

/-- Line and column are counted on over a stretch of the text. -/
theorem Counted.advance (h : here.Counted source)
    (left : source.drop here.offset = stretch ++ following) :
    (here.advance stretch following).Counted source := by
  induction stretch generalizing here with
  | nil => exact h
  | cons c stretch ih =>
    have found : source[here.offset]? = some c := by
      rw [← List.head?_drop, left]
      rfl
    have later : source.drop (here.offset + 1) = stretch ++ following := by
      rw [← List.tail_drop, left]
      rfl
    have next : (stretch.head? <|> following.head?) = source[here.offset + 1]? := by
      rw [← List.head?_drop, later, List.head?_append, Option.orElse_eq_orElse,
        Option.orElse_eq_or]
    rw [Location.advance, next]
    exact ih (h.step found) (by rw [step_offset, later])

/-- A location of a source, counted from its start, with a text behind it up to the end. -/
structure StandsBefore (source : Text) (here : Location) (t : Text) : Prop where
  counted : here.Counted source
  left : source.drop here.offset = t
  length : here.offset + t.length = source.length

theorem standsBefore_origin (source : Text) : origin.StandsBefore source source :=
  ⟨counted_origin source, rfl, Nat.zero_add _⟩

theorem StandsBefore.advance (h : here.StandsBefore source (stretch ++ following)) :
    (here.advance stretch following).StandsBefore source following where
  counted := h.counted.advance h.left
  left := by rw [advance_offset, ← List.drop_drop, h.left, List.drop_left]
  length := by rw [advance_offset, Nat.add_assoc, ← List.length_append, h.length]

end Location

namespace Item

variable {source : Text} {here : Location} {items : List Item} {comments : CommentPolicy}
  {context : LexContext}

/-- The tokens of a text start and stop at locations counted from its start. -/
theorem tokens_standBefore (h : here.StandsBefore source (textOf items)) :
    ∀ token ∈ tokens comments context here items,
      (∃ t, token.start.StandsBefore source t) ∧ ∃ t, token.stop.StandsBefore source t := by
  induction items generalizing context here with
  | nil => simpa [tokens, Token.start, Token.stop] using ⟨_, h⟩
  | cons item items ih =>
    have there := h.advance
    refine List.forall_mem_append.2 ⟨fun token member => ?_, ih there⟩
    rw [Token.start, Token.stop, token?_span (Option.mem_toList.1 member)]
    exact ⟨⟨_, h⟩, ⟨_, there⟩⟩

theorem code_counted (h : here.StandsBefore source (textOf items)) :
    ∀ token ∈ code comments context here items,
      token.start.Counted source ∧ token.stop.Counted source := by
  obtain ⟨_, _, _, same⟩ := tokens_eq comments context here items
  intro token member
  obtain ⟨⟨_, start⟩, ⟨_, stop⟩⟩ :=
    tokens_standBefore h token (same ▸ List.mem_append_left _ member)
  exact ⟨start.counted, stop.counted⟩

end Item

end Uncurry
