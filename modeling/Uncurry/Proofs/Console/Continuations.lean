import Uncurry.Console.Entry
import Uncurry.Proofs.Lexical.Failures

/-!
# Texts that take further lines

A text that is being typed asks for more lines as long as something in it is open.
`needsContinuation_ends` says when some further lines put an end to this: always, but for a regular
expression that is still open at the end of its line, which nothing can close any more.
-/
namespace Uncurry.Console

variable {text : Text} {cause : LexCause}

/-- Whether a text is read up to a regular expression whose line ends before its body does. -/
def EndsInRegex (text : Text) : Prop :=
  ∃ items c rest context, text = Item.textOf items ++ c :: rest ∧
    Reads .initial true items (c :: rest) context ∧ Lexeme.CutRegex context c rest

theorem needsContinuation?_fails (h : Token.Fails .initial true text cause) :
    needsContinuation? text = some cause.isOpen := by
  obtain ⟨line, column, failed⟩ := h .skip .origin rfl
  rw [needsContinuation?, tokenize, failed]

/-- A text that is read up to a regular expression whose line ends asks for more lines whatever
lines it is given. -/
theorem EndsInRegex.needsContinuation (h : EndsInRegex text) (more : Text) :
    needsContinuation? (text ++ CodePoint.ofChar '\n' :: more) = some true := by
  obtain ⟨items, c, rest, context, rfl, reads, cut⟩ := h
  exact needsContinuation?_fails (reads.fails_cut cut more)

/-- A text that asks for more lines is read to its end, or up to a lexeme that lacks its own. -/
theorem exists_open (h : needsContinuation? text = some true) : ∃ items tail context,
    text = Item.textOf items ++ tail ∧ Reads .initial true items tail context ∧
      (tail = [] ∨ ∃ c rest, tail = c :: rest ∧ Lexeme.Lacking context c rest) := by
  rw [needsContinuation?] at h
  split at h
  · rename_i tokens accepted
    obtain ⟨items, context, split, reads, _⟩ := Token.exists_reads accepted
    exact ⟨items, [], context, by simp [split], reads, .inl rfl⟩
  · rename_i error failed
    have opens : error.cause.isOpen = true := by simpa using h
    obtain ⟨cause, line, column⟩ := error
    obtain ⟨items, tail, context, n, split, reads, stops, _⟩ := tokenize_error_iff.1 failed
    refine ⟨items, tail, context, split, reads, ?_⟩
    cases stops with
    | fault scanned => exact .inr ⟨_, _, rfl, Lexeme.lacking_of_scan scanned opens⟩
    | openTemplate => exact .inl rfl
  · cases h

/-- A text that asks for more lines stops to do so behind some further lines, just if it is not read
up to a regular expression whose line ends. -/
theorem needsContinuation_ends (h : needsContinuation? text = some true) :
    (∃ more, needsContinuation? (text ++ CodePoint.ofChar '\n' :: more) = some false) ↔
      ¬EndsInRegex text := by
  constructor
  · rintro ⟨more, stops⟩ locked
    rw [locked.needsContinuation more] at stops
    cases stops
  · intro free
    obtain ⟨items, tail, context, rfl, reads, rfl | ⟨c, rest, rfl, lacking⟩⟩ := exists_open h
    · rw [List.append_nil]
      exact ⟨_, needsContinuation?_fails reads.fails_feed⟩
    · have uncut : ¬Lexeme.CutRegex context c rest :=
        fun cut => free ⟨items, c, rest, context, rfl, reads, cut⟩
      obtain ⟨more, fails⟩ := reads.fails_mended lacking uncut
      exact ⟨more, needsContinuation?_fails fails⟩

/-- A call whose argument list is open can be closed. -/
theorem needsContinuation_ends_call :
    needsContinuation? (Text.ofString "f(") = some true ∧ ¬EndsInRegex (Text.ofString "f(") := by
  have opens : needsContinuation? (Text.ofString "f(") = some true := by decide +kernel
  exact ⟨opens, (needsContinuation_ends opens).1 ⟨Text.ofString ")", by decide +kernel⟩⟩

/-- The line of a regular expression ends behind its first character. -/
theorem endsInRegex_slash : EndsInRegex (Text.ofString "x = /a") := by
  refine ⟨[⟨.word .identifier (Text.ofString "x"), Text.ofString "x"⟩,
    ⟨.blank, Text.ofString " "⟩, ⟨.token .assign, Text.ofString "="⟩, ⟨.blank, Text.ofString " "⟩],
    CodePoint.ofChar '/', Text.ofString "a", _, rfl,
    .cons ?_ (.cons ?_ (.cons ?_ (.cons ?_ (.nil ..)))), ?_⟩
  · decide +kernel
  · decide +kernel
  · decide +kernel
  · decide +kernel
  · exact ⟨rfl, by decide, by decide, by decide, by decide⟩

/-- Such a text asks for more lines for ever. -/
theorem needsContinuation_locked : needsContinuation? (Text.ofString "x = /a") = some true ∧
    ∀ more, needsContinuation? (Text.ofString "x = /a" ++ CodePoint.ofChar '\n' :: more) =
      some true :=
  ⟨by decide +kernel, endsInRegex_slash.needsContinuation⟩

end Uncurry.Console
