import Uncurry.Proofs.Console.Continuations
import Uncurry.Proofs.Curry.Encoding
import Uncurry.Proofs.Lexical.BlankLines

/-!
# Submitting several lines

A text of several lines is submitted by pressing enter twice: the first time a blank line is added,
and the second time it is taken away again. `enter_twice` says that the text which is submitted is
the one that was typed. For this the blank line must not open anything (`needsContinuation?_spaced`).
-/
namespace Uncurry

open CodePoint

namespace Text

/-- A text has a character that is not blank if its last line has one. -/
theorem isBlank_lastLine {t : Text} (blank : t.isBlank = true) : t.lastLine.isBlank = true := by
  have inside := subset_of_mem_lines (List.getLast_mem (lines_ne_nil t))
  exact List.all_eq_true.2 fun c member => List.all_eq_true.1 blank c (inside member)

/-- What follows a text that is not blank is not trimmed at its front. -/
theorem trimStart_append {t : Text} (some : t.isBlank = false) (more : Text) :
    trimStart (t ++ more) = trimStart t ++ more := by
  have nonempty : t.dropWhile CodePoint.isBlank ≠ [] := fun none => by
    rw [List.dropWhile_eq_nil_iff] at none
    rw [isBlank, List.all_eq_true.2 none] at some
    cases some
  rw [trimStart, List.dropWhile_append, if_neg (by simpa using nonempty)]
  rfl

end Text

namespace Console

variable {text more : Text} {keys : List Key} {completions : Nat}

theorem openBrackets_kinds {tokens tokens' : List Token}
    (same : tokens'.map Token.kind = tokens.map Token.kind) :
    openBrackets tokens' = openBrackets tokens := by
  have kinds (tokens : List Token) : openBrackets tokens = (tokens.map Token.kind).foldl
      (fun depth kind =>
        if kind.opens then depth + 1 else if kind.closes then depth - 1 else depth) 0 := by
    rw [List.foldl_map]
    rfl
  rw [kinds, kinds, same]

/-- A text that asks for no more lines does not ask for them behind blank lines either. -/
theorem needsContinuation?_spaced (complete : needsContinuation? text = some false)
    (spacing : more.IsSpacing) :
    needsContinuation? (text ++ ofChar '\n' :: more) = some false := by
  rw [needsContinuation?] at complete
  split at complete
  · rename_i tokens accepted
    obtain ⟨tokens', accepted', kinds⟩ := tokenize_spaced accepted spacing
    rw [needsContinuation?, accepted']
    dsimp only
    rw [openBrackets_kinds kinds]
    exact complete
  · rename_i error failed
    have closed : error.cause.isOpen = false := by simpa using complete
    rw [needsContinuation?_fails (tokenize_spaced_error failed closed spacing), closed]
  · cases complete

/-- Text that takes a blank line is a command, or none, as before. -/
theorem isCommand_append (some : Text.isBlank text = false) (more : Text) :
    isCommand (Text.trimStart (text ++ more)) = isCommand (Text.trimStart text) := by
  rw [Text.trimStart_append some, isCommand, isCommand]
  cases trimmed : Text.trimStart text with
  | cons c rest => rfl
  | nil =>
    have blank : Text.isBlank text = true :=
      List.all_eq_true.2 (List.dropWhile_eq_nil_iff.1 trimmed)
    rw [blank] at some
    cases some

/-- A complete text whose last line is blank is submitted without this line, if it has others. -/
theorem enter?_blank {lines : List Text} {line : Text}
    (program : isCommand (Text.trimStart text) = false)
    (complete : needsContinuation? text = some false) (split : Text.lines text = lines ++ [line])
    (several : lines ≠ []) (blank : Text.isBlank line = true) :
    enter? text = some (.submit (Text.joinLines lines)) := by
  have count : (Text.lines text).length ≠ 1 := by simp [split, several]
  have last : Text.lastLine text = line := by simp [Text.lastLine, split]
  rw [enter?, program, complete, if_neg Bool.false_ne_true, Option.map_some]
  dsimp only
  rw [if_neg Bool.false_ne_true, if_neg count, last, if_pos blank, split, List.dropLast_concat]

/-- A complete text of several lines is extended if its last line is not blank. -/
theorem enter?_extend (program : isCommand (Text.trimStart text) = false)
    (complete : needsContinuation? text = some false) (several : 2 ≤ (Text.lines text).length)
    (last : Text.isBlank (Text.lastLine text) = false) :
    enter? text = some (.extend (withNewLine text)) := by
  have count : (Text.lines text).length ≠ 1 := by omega
  rw [enter?, program, complete, if_neg Bool.false_ne_true, Option.map_some]
  dsimp only
  rw [if_neg Bool.false_ne_true, if_neg count, last, if_neg Bool.false_ne_true]

/-- A line ends with an opening bracket, or with one that blanks alone are behind. -/
def EndsOpen (line : Text) : Prop :=
  ∃ front bracket blanks, line = front ++ bracket :: blanks ∧
    bracket ∈ [ofChar '{', ofChar '(', ofChar '['] ∧ ∀ c ∈ blanks, c.isBlank = true

/-- How many spaces the line behind another one starts with: as many as that line starts with blanks,
four more behind an opening bracket, and none behind a blank line. -/
structure NextWidth (line : Text) (width : Nat) : Prop where
  deeper : EndsOpen line → width = (line.takeWhile CodePoint.isBlank).length + 4
  even : ¬EndsOpen line → Text.isBlank line = false →
    width = (line.takeWhile CodePoint.isBlank).length
  none : Text.isBlank line = true → width = 0

theorem isBlank_bracket : ∀ bracket ∈ [ofChar '{', ofChar '(', ofChar '['],
    bracket.isBlank = false := by
  decide +kernel

/-- The blanks at the end of a line are behind all that is left when they are trimmed. -/
theorem endsOpen_iff {line : Text} : EndsOpen line ↔
    ∃ bracket ∈ [ofChar '{', ofChar '(', ofChar '['],
      (Text.trimEnd line).getLast? = some bracket := by
  have trimmed (line : Text) : Text.trimEnd line = line.rdropWhile CodePoint.isBlank := rfl
  constructor
  · rintro ⟨front, bracket, blanks, rfl, opens, blank⟩
    have reversed : ∀ c ∈ blanks.reverse, c.isBlank = true := by simpa using blank
    refine ⟨bracket, opens, ?_⟩
    rw [trimmed, List.rdropWhile, List.reverse_append, List.reverse_cons, List.append_assoc,
      List.dropWhile_append_of_pos reversed, List.singleton_append,
      List.dropWhile_cons_of_neg (by simp [isBlank_bracket bracket opens])]
    simp
  · rintro ⟨bracket, opens, last⟩
    obtain ⟨front, same⟩ := List.getLast?_eq_some_iff.1 last
    refine ⟨front, bracket, line.rtakeWhile CodePoint.isBlank, ?_, opens,
      fun c member => List.mem_rtakeWhile_imp member⟩
    rw [trimmed] at same
    rw [← List.singleton_append, ← List.append_assoc, ← same, List.rdropWhile_append_rtakeWhile]

/-- The blanks that a line starts with are those that trimming takes away. -/
theorem length_leading (line : Text) :
    line.length - (Text.trimStart line).length = (line.takeWhile CodePoint.isBlank).length := by
  have whole := congrArg List.length
    (List.takeWhile_append_dropWhile (p := CodePoint.isBlank) (l := line))
  rw [List.length_append] at whole
  rw [Text.trimStart]
  omega

/-- The next line is indented by the spaces that the last line asks for. -/
theorem nextIndentation_width (text : Text) : ∃ width,
    nextIndentation text = List.replicate width (ofChar ' ') ∧
      NextWidth (Text.lastLine text) width := by
  have opens : ((Text.trimEnd (Text.lastLine text)).getLast?.any fun c : CodePoint =>
      c = '{' || c = '(' || c = '[') = true ↔ EndsOpen (Text.lastLine text) := by
    simp only [endsOpen_iff, Option.any_eq_true, List.mem_cons, List.not_mem_nil, or_false,
      Bool.or_eq_true, decide_eq_true_eq, or_assoc]
    exact exists_congr fun _ => and_comm
  refine ⟨_, rfl, fun ends => ?_, fun ends some => ?_, fun blank => ?_⟩
  · rw [if_pos (opens.2 ends), length_leading]
  · rw [if_neg (fun seen => ends (opens.1 seen)), some, if_neg Bool.false_ne_true, length_leading]
  · rw [if_neg fun seen => ?_, if_pos blank]
    obtain ⟨front, bracket, blanks, same, bracketed, _⟩ := opens.1 seen
    have inside := List.all_eq_true.1 blank bracket (by simp [same])
    rw [isBlank_bracket bracket bracketed] at inside
    cases inside

/-- The indentation of a line consists of spaces. -/
theorem isSpacing_nextIndentation (text : Text) : (nextIndentation text).IsSpacing :=
  fun _ member => .inl (List.eq_of_mem_replicate member)

/-- Behind a text that asks for no more lines neither do blank lines. If it has several lines, is no
command and its last line is not blank, the enter key extends it by a line feed and as many spaces as
the last line asks for, and the next time submits it as it was. -/
theorem enter_twice (complete : needsContinuation? text = some false) :
    (∀ more : Text, more.IsSpacing →
      needsContinuation? (text ++ ofChar '\n' :: more) = some false) ∧
      (isCommand (Text.trimStart text) = false → 2 ≤ (Text.lines text).length →
        Text.isBlank (Text.lastLine text) = false →
        ∃ width, NextWidth (Text.lastLine text) width ∧
          withNewLine text = text ++ ofChar '\n' :: List.replicate width (ofChar ' ') ∧
          enter? text = some (.extend (withNewLine text)) ∧
          enter? (withNewLine text) = some (.submit text) ∧
          ∀ completions keys, typeKeys text completions (.enter :: .enter :: keys) =
            ([⟨withNewLine text, false, completions⟩, ⟨text, true, completions⟩],
              .submitted text)) := by
  refine ⟨fun more spacing => needsContinuation?_spaced complete spacing,
    fun program several last => ?_⟩
  have spacing := isSpacing_nextIndentation text
  have blank : Text.isBlank (nextIndentation text) = true :=
    List.all_eq_true.2 fun c member => by rw [List.eq_of_mem_replicate member]; decide
  have some : Text.isBlank text = false := by
    refine Bool.eq_false_iff.2 fun blank => ?_
    rw [Text.isBlank_lastLine blank] at last
    cases last
  have plain : ∀ c ∈ nextIndentation text, c ≠ ofChar '\n' := fun c member => by
    rw [List.eq_of_mem_replicate member]
    decide
  have split : Text.lines (withNewLine text) = Text.lines text ++ [nextIndentation text] := by
    rw [withNewLine, Text.lines_feed, Text.lines_plain plain]
  have extended := enter?_extend program complete several last
  have submitted : enter? (withNewLine text) = .some (.submit text) := by
    have again := enter?_blank ((isCommand_append some _).trans program)
      (needsContinuation?_spaced complete spacing) split (Text.lines_ne_nil text) blank
    rwa [Text.joinLines_lines] at again
  obtain ⟨width, spaces, asked⟩ := nextIndentation_width text
  refine ⟨width, asked, by rw [withNewLine, spaces], extended, submitted, fun completions keys => ?_⟩
  rw [typeKeys, extended]
  dsimp only
  rw [typeKeys, submitted]

/-- The spaces behind a line feed can be counted. -/
theorem eq_of_spaces {width width' : Nat}
    (same : text ++ ofChar '\n' :: List.replicate width (ofChar ' ') =
      text ++ ofChar '\n' :: List.replicate width' (ofChar ' ')) : width = width' := by
  have spaces := (List.cons.inj (List.append_cancel_left same)).2
  simpa using congrArg List.length spaces

/-- A text of two lines that ends in the middle of an escape. -/
def cutOff : Text := Text.ofString "f();\n  \\u4"

/-- A text of two lines that ends with an opening bracket, which stands in a comment. -/
def commentedBracket : Text := Text.ofString "f();\n  // ["

/-- A line feed and two spaces become part of the escape, a line feed and six spaces follow the
bracket, and both texts are submitted without them. -/
theorem enter_twice_indented :
    (needsContinuation? cutOff = some false ∧ NextWidth (Text.lastLine cutOff) 2 ∧
      typeKeys cutOff 0 [.enter, .enter] =
        ([⟨Text.ofString "f();\n  \\u4\n  ", false, 0⟩, ⟨cutOff, true, 0⟩], .submitted cutOff)) ∧
    needsContinuation? commentedBracket = some false ∧
      NextWidth (Text.lastLine commentedBracket) 6 ∧
      typeKeys commentedBracket 0 [.enter, .enter] =
        ([⟨Text.ofString "f();\n  // [\n      ", false, 0⟩, ⟨commentedBracket, true, 0⟩],
          .submitted commentedBracket) := by
  have complete : needsContinuation? cutOff = some false := by decide +kernel
  have complete' : needsContinuation? commentedBracket = some false := by decide +kernel
  have longer : withNewLine cutOff = Text.ofString "f();\n  \\u4\n  " := by decide +kernel
  have longer' : withNewLine commentedBracket = Text.ofString "f();\n  // [\n      " := by
    decide +kernel
  obtain ⟨width, asked, same, -, -, typed⟩ := (enter_twice complete).2 (by decide +kernel)
    (by decide +kernel) (by decide +kernel)
  obtain ⟨width', asked', same', -, -, typed'⟩ := (enter_twice complete').2 (by decide +kernel)
    (by decide +kernel) (by decide +kernel)
  have two : width = 2 := eq_of_spaces (same.symm.trans longer)
  have six : width' = 6 := eq_of_spaces (same'.symm.trans longer')
  refine ⟨⟨complete, two ▸ asked, ?_⟩, complete', six ▸ asked', ?_⟩
  · rw [typed 0 [], longer]
  · rw [typed' 0 [], longer']

end Console

end Uncurry
