import Uncurry.Proofs.Lexical.Places

/-!
# Comments among the tokens

A source is read in the same way whether its comments are kept or not: `tokenize_skip` says that to
skip them is to drop them from the tokens with them, and that a source without tokens lacks them for
one reason either way. No state of the reading depends on the choice, so it is enough to compare
what each lexeme adds.
-/
namespace Uncurry

variable {context : LexContext} {here : Location} {t : Text}

/-- A lexeme that is no comment is the same token if comments are skipped, and a comment is none. -/
theorem Item.token?_filter (item : Item) (context : LexContext) (span : Span)
    (plain : item.lexeme.kind? ≠ some .comment) :
    (item.token? .skip context span).toList =
      (item.token? .keep context span).toList.filter (·.kind != .comment) := by
  obtain ⟨lexeme, written⟩ := item
  cases lexeme with
  | blank => rfl
  | newline => rfl
  | comment => rfl
  | word kind text =>
    have other : kind ≠ .comment := fun same => plain (congrArg some same)
    simp [token?, other]
  | token kind =>
    have other : kind ≠ .comment := fun same => plain (congrArg some same)
    simp [token?, other]

/-- From any place on, to skip comments is to drop them from what is read with them. -/
theorem Token.readFrom_skip (context : LexContext) (here : Location) (t : Text) :
    readFrom .skip context here t =
      (readFrom .keep context here t).map (List.filter (·.kind != .comment)) := by
  induction hn : t.length using Nat.strongRecOn generalizing t context here with
  | ind length ih =>
  cases t with
  | nil =>
    simp only [readFrom]
    cases context.insideTemplate <;> rfl
  | cons c rest =>
    cases scanned : Lexeme.scan context (here.offset = 0) c rest with
    | error fault => simp [readFrom, scanned, Except.map]
    | ok found =>
      obtain ⟨lexeme, n⟩ := found
      have shorter : (rest.drop n).length < length := by
        rw [← hn, List.length_drop, List.length_cons]
        omega
      have added := Item.token?_filter ⟨lexeme, c :: rest.take n⟩ context
        ⟨here, here.advance (c :: rest.take n) (rest.drop n)⟩ (Lexeme.scan_kind scanned)
      rw [readFrom_cons scanned, readFrom_cons scanned, ih _ shorter _ _ _ rfl, added]
      cases readFrom .keep (context.behind ⟨lexeme, c :: rest.take n⟩)
        (here.advance (c :: rest.take n) (rest.drop n)) (rest.drop n) with
      | error failure => rfl
      | ok later => simp [Except.map]

/-- Skipping the comments of a source is dropping them from its tokens with comments, which stay as
they are with their places and what they know of line terminators. If the source has no tokens then
it has none with comments either, for the same reason and in the same place. -/
theorem tokenize_skip (source : Text) :
    tokenize .skip source = (tokenize .keep source).map (List.filter (·.kind != .comment)) :=
  Token.readFrom_skip .initial .origin source

end Uncurry
