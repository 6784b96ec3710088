import Uncurry.Proofs.Lexical.Identifiers
import Uncurry.Proofs.Lexical.Lines
import Uncurry.Proofs.Progress.Outcomes

/-!
# Where tokens and errors are reported

Lines and columns are counted on while a source is read, in stretches that may end anywhere, also
between a carriage return and its line feed. `positions` says that every token and every error is
reported where its offset alone puts it.
-/
namespace Uncurry

/-- The line terminators, of which a carriage return needs a look at what follows. -/
theorem CodePoint.breaksLine_iff {c : CodePoint} {next : Option CodePoint} :
    c.breaksLine next = true ↔ c = ofChar '\n' ∨ c = ofChar '\u2028' ∨ c = ofChar '\u2029' ∨
      c = ofChar '\r' ∧ next ≠ some (ofChar '\n') := by
  have separator : c.val = 0x2028 ↔ c = ofChar '\u2028' := ⟨fun same => ext same, congrArg val⟩
  have paragraph : c.val = 0x2029 ↔ c = ofChar '\u2029' := ⟨fun same => ext same, congrArg val⟩
  by_cases carriage : c = ofChar '\r'
  · subst carriage
    have other : ofChar '\r' ≠ ofChar '\n' ∧ ofChar '\r' ≠ ofChar '\u2028' ∧
      ofChar '\r' ≠ ofChar '\u2029' := by decide
    simp [breaksLine, other]
  · simp [breaksLine, isLineTerminator, carriage, separator, paragraph, or_assoc]

namespace Text

/-- A line ends with the character at an offset: with a line feed, a line separator, a paragraph
separator, or a carriage return that no line feed follows. -/
def EndsLine (source : Text) (offset : Nat) : Prop :=
  source[offset]? = some (CodePoint.ofChar '\n') ∨
    source[offset]? = some (CodePoint.ofChar '\u2028') ∨
    source[offset]? = some (CodePoint.ofChar '\u2029') ∨
    source[offset]? = some (CodePoint.ofChar '\r') ∧
      source[offset + 1]? ≠ some (CodePoint.ofChar '\n')

instance (source : Text) : DecidablePred source.EndsLine := fun _ =>
  inferInstanceAs (Decidable (_ ∨ _ ∨ _ ∨ _ ∧ _))

/-- A line starts at the start of a text and behind the end of another line. -/
def StartsLine (source : Text) : Nat → Prop
  | 0 => True
  | last + 1 => source.EndsLine last

/-- The line and the column of an offset of a text, both counted from one: the line by the lines
that end before the offset, the column from the start of the line that it is on. -/
structure IsPosition (source : Text) (offset line column : Nat) : Prop where
  within : offset ≤ source.length
  line_eq : line = (List.range offset).countP (fun i => source.EndsLine i) + 1
  column_eq : ∃ start ≤ offset, source.StartsLine start ∧
    (∀ i, start ≤ i → i < offset → ¬source.EndsLine i) ∧ column = offset - start + 1

variable {source : Text} {offset : Nat}

theorem breaksAt_iff : source.breaksAt offset = true ↔ source.EndsLine offset := by
  unfold breaksAt EndsLine
  cases source[offset]? with
  | none => simp
  | some c => simp only [Option.any_some, CodePoint.breaksLine_iff, Option.some.injEq]

theorem lineAt_eq (source : Text) (offset : Nat) : source.lineAt offset =
    (List.range offset).countP (fun i => source.EndsLine i) + 1 := by
  rw [lineAt, List.countP_congr fun i _ => breaksAt_iff.trans decide_eq_true_iff.symm]

theorem columnAt_eq (source : Text) (offset : Nat) : ∃ start ≤ offset, source.StartsLine start ∧
    (∀ i, start ≤ i → i < offset → ¬source.EndsLine i) ∧
      source.columnAt offset = offset - start + 1 := by
  induction offset with
  | zero => exact ⟨0, Nat.le_refl 0, trivial, by omega, rfl⟩
  | succ offset ih =>
    by_cases breaks : source.breaksAt offset = true
    · refine ⟨offset + 1, Nat.le_refl _, breaksAt_iff.1 breaks, by omega, ?_⟩
      rw [columnAt, if_pos breaks, Nat.sub_self]
    · obtain ⟨start, le, starts, plain, column⟩ := ih
      refine ⟨start, Nat.le_succ_of_le le, starts, fun i after before => ?_, ?_⟩
      · rcases Nat.lt_succ_iff_lt_or_eq.1 before with before | rfl
        · exact plain i after before
        · exact mt breaksAt_iff.2 breaks
      · rw [columnAt, if_neg breaks, column]
        omega

end Text

variable {source t stretch following : Text} {here : Location} {context : LexContext}
  {comments : CommentPolicy} {error : LexError} {items : List Item}

theorem Location.StandsBefore.isPosition (h : here.StandsBefore source t) :
    source.IsPosition here.offset here.line here.column := by
  obtain ⟨line, column⟩ := h.counted
  refine ⟨Nat.le.intro h.length, line.trans (source.lineAt_eq here.offset), ?_⟩
  rw [column]
  exact source.columnAt_eq here.offset

/-- A fault in a lexeme is located by counting on from the start of the lexeme. -/
theorem LexemeFault.locate_position {fault : LexemeFault} (h : here.StandsBefore source t)
    (located : fault.locate here t = .malformed error) :
    ∃ offset, source.IsPosition offset error.line error.column := by
  cases fault with
  | escapeOverflow => cases located
  | malformed cause offset =>
    cases located
    rw [← List.take_append_drop offset t] at h
    exact ⟨_, h.advance.isPosition⟩

/-- An error is located by counting on from wherever reading started. -/
theorem Token.readFrom_position (h : here.StandsBefore source t)
    (failed : readFrom comments context here t = .error (.malformed error)) :
    ∃ offset, source.IsPosition offset error.line error.column := by
  induction hn : t.length using Nat.strongRecOn generalizing t context here with
  | ind length ih =>
  cases t with
  | nil =>
    rw [readFrom] at failed
    split at failed
    · cases failed
      exact ⟨here.offset, h.isPosition⟩
    · cases failed
  | cons c rest =>
    cases scanned : Lexeme.scan context (here.offset = 0) c rest with
    | error fault =>
      rw [readFrom, scanned] at failed
      exact LexemeFault.locate_position h (Except.error.inj failed)
    | ok found =>
      obtain ⟨lexeme, n⟩ := found
      rw [readFrom_cons scanned] at failed
      have split : c :: rest = c :: rest.take n ++ rest.drop n := by simp
      rw [split] at h
      refine ih _ ?_ h.advance (Except.map_eq_error failed) rfl
      rw [← hn, List.length_drop, List.length_cons]
      omega

/-- An error in a program is at one of its tokens. -/
theorem parseProgram_error {failure : ParseError}
    (rejected : parseProgram source = .error (.grammatical failure)) :
    ∃ tokens, tokenize .skip source = .ok tokens ∧ failure.token ∈ tokens := by
  rw [parseProgram, parseWith] at rejected
  cases read : tokenize .skip source with
  | error failure =>
    rw [read] at rejected
    cases rejected
  | ok tokens =>
    rw [read] at rejected
    obtain ⟨body, final, rfl, ends, only, _⟩ := tokenize_ended read
    refine ⟨_, rfl, ?_⟩
    have run : (Grammar.program.run (body ++ [final])).mapError SourceFailure.grammatical =
        .error (.grammatical failure) := rejected
    rcases Grammar.program_outcome body final ends only with
      ⟨_, _, _, ok, _⟩ | ⟨_, _, _, error, member, _⟩
    · rw [ok] at run
      cases run
    · rw [error] at run
      cases run
      exact member

/-- Every token starts and stops at the line and the column of its offsets, and every error, be it
in a lexeme or among the tokens of a program, is at the line and the column of some offset. -/
theorem positions (comments : CommentPolicy) (source : Text) :
    (∀ tokens, tokenize comments source = .ok tokens → ∀ token ∈ tokens,
      source.IsPosition token.start.offset token.start.line token.start.column ∧
        source.IsPosition token.stop.offset token.stop.line token.stop.column) ∧
    (∀ error, tokenize comments source = .error (.malformed error) →
      ∃ offset, source.IsPosition offset error.line error.column) ∧
    ∀ error, parseProgram source = .error (.grammatical error) →
      ∃ offset, source.IsPosition offset error.token.start.line error.token.start.column := by
  have tokenized {comments : CommentPolicy} {tokens : List Token}
      (read : tokenize comments source = .ok tokens) : ∀ token ∈ tokens,
        source.IsPosition token.start.offset token.start.line token.start.column ∧
          source.IsPosition token.stop.offset token.stop.line token.stop.column := by
    obtain ⟨items, _, rfl, _, _, rfl⟩ := Token.exists_reads read
    intro token member
    obtain ⟨⟨_, start⟩, ⟨_, stop⟩⟩ :=
      Item.tokens_standBefore (Location.standsBefore_origin _) token member
    exact ⟨start.isPosition, stop.isPosition⟩
  refine ⟨fun _ => tokenized,
    fun _ => Token.readFrom_position (Location.standsBefore_origin source),
    fun error rejected => ?_⟩
  obtain ⟨tokens, read, member⟩ := parseProgram_error rejected
  exact ⟨_, (tokenized read error.token member).1⟩

/-- A program on lines that end in three ways, with a parenthesis too many. -/
def severalLines : Text := Text.ofString "a;\r\n/*\r*/ `b\u2028$\x7bc\x7d`)"

/-- A string that does not end on its line. -/
def brokenString : Text := Text.ofString "x\r\n 'y\n'"

/-- What is wrong with `severalLines`: its last token. -/
def severalLinesError : ParseError :=
  ⟨.expectedTerminator .rightParen,
    ⟨.rightParen, Text.ofString ")", ⟨⟨18, 4, 6⟩, ⟨19, 4, 7⟩⟩, false⟩⟩

theorem positions_severalLines :
    (∃ tokens, tokenize .keep severalLines = .ok tokens ∧
      (∀ token ∈ tokens,
        severalLines.IsPosition token.start.offset token.start.line token.start.column ∧
          severalLines.IsPosition token.stop.offset token.stop.line token.stop.column) ∧
      parseProgram severalLines = .error (.grammatical severalLinesError) ∧
      ∃ offset, severalLines.IsPosition offset 4 6) ∧
    tokenize .skip brokenString = .error (.malformed ⟨.unterminatedString, 2, 2⟩) ∧
      ∃ offset, brokenString.IsPosition offset 2 2 := by
  have read : (tokenize .keep severalLines).toOption.isSome = true := by decide +kernel
  have failed : (parseProgram severalLines).map (fun _ => ()) =
      .error (.grammatical severalLinesError) := by
    decide +kernel
  have broken : tokenize .skip brokenString = .error (.malformed ⟨.unterminatedString, 2, 2⟩) := by
    decide +kernel
  obtain ⟨tokens, found⟩ := Option.isSome_iff_exists.1 read
  have accepted := eq_ok_of_toOption found
  have rejected := Except.map_eq_error failed
  obtain ⟨ofTokens, _, ofProgram⟩ := positions .keep severalLines
  exact ⟨⟨tokens, accepted, ofTokens tokens accepted, rejected, ofProgram _ rejected⟩, broken,
    (positions .skip brokenString).2.1 _ broken⟩

end Uncurry
