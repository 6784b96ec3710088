import Uncurry.Proofs.Lexical.Comments
import Uncurry.Proofs.Lexical.Respacing

/-!
# Line terminators between tokens

A token knows whether a line terminator stands between it and the token before it, comments apart.
What is pending while a text is read is whether there was one since the last token, be it in plain
layout or in a comment (`Item.flagged_tokens`); `newlineBefore_iff` says it of a source.
-/
namespace Uncurry

open CodePoint

variable {comments : CommentPolicy} {context : LexContext} {here : Location} {items : List Item}
  {source before : Text} {read front later : List Token} {token : Token} {start stop : Nat}

/-- A character of some sort stands between two offsets of a text if the stretch between them has
one. -/
theorem Text.any_stretch (test : CodePoint → Bool) :
    ((source.take stop).drop start).any test = true ↔
      ∃ offset c, start ≤ offset ∧ offset < stop ∧ source[offset]? = some c ∧ test c = true := by
  simp only [List.any_eq_true, List.mem_iff_getElem?, List.getElem?_drop, List.getElem?_take]
  constructor
  · rintro ⟨c, ⟨i, found⟩, holds⟩
    split at found
    · exact ⟨start + i, c, Nat.le_add_right .., by assumption, found, holds⟩
    · cases found
  · rintro ⟨offset, c, behind, inside, found, holds⟩
    refine ⟨c, ⟨offset - start, ?_⟩, holds⟩
    rw [Nat.add_sub_cancel' behind, if_pos inside, found]

/-- What is no token has a line terminator in it if it is one or is a comment with one. -/
theorem Item.IsRead.breaks_eq {item : Item} (read : item.IsRead) (trivia : item.isTrivia = true) :
    item.breaks = item.written.any isLineTerminator := by
  obtain ⟨lexeme, written⟩ := item
  obtain ⟨_, _, c, rest, t, rfl, scanned⟩ := read
  cases lexeme with
  | comment => rfl
  | word => cases trivia
  | token => cases trivia
  | blank =>
    generalize length : rest.length = n at scanned
    cases Lexeme.scanned_of_scan scanned with
    | blank line =>
      obtain rfl := List.length_eq_zero_iff.1 length
      simp [breaks, line]
  | newline =>
    generalize length : rest.length = n at scanned
    cases Lexeme.scanned_of_scan scanned with
    | newline line =>
      obtain rfl := List.length_eq_zero_iff.1 length
      simp [breaks, line]

namespace Token

/-- Each of some tokens is flagged if a line terminator stands between it and the one before it, the
first one if there is one behind `start`. -/
def Flagged (source : Text) : Nat → List Token → Prop
  | _, [] => True
  | start, token :: later =>
    token.newlineBefore = ((source.take token.start.offset).drop start).any isLineTerminator ∧
      Flagged source token.stop.offset later

/-- Where the last of some tokens stops, which is at the start of the source if there are none. -/
def lastStop (tokens : List Token) : Nat := (tokens.getLast?.map (·.stop.offset)).getD 0

theorem Flagged.of_append (h : Flagged source start (front ++ token :: later)) :
    token.newlineBefore = ((source.take token.start.offset).drop
      ((front.getLast?.map (·.stop.offset)).getD start)).any isLineTerminator := by
  induction front generalizing start with
  | nil => exact h.1
  | cons first front ih =>
    rw [ih h.2]
    cases front with
    | nil => rfl
    | cons second front =>
      rw [List.getLast?_cons_cons, List.getLast?_eq_some_getLast (List.cons_ne_nil second front)]
      rfl

theorem Ordered.pairwise (h : Ordered stop start front) :
    front.Pairwise (·.stop.offset ≤ ·.start.offset) := by
  induction front generalizing start with
  | nil => exact .nil
  | cons token later ih =>
    exact List.pairwise_cons.2 ⟨fun other member => (h.2.2.mem member).1, ih h.2.2⟩

/-- Nothing in a sequence of tokens that stand in order is between two neighbours. -/
theorem apart (pairwise : (front ++ token :: later).Pairwise (·.stop.offset ≤ ·.start.offset))
    (ranged : ∀ own ∈ front ++ token :: later, own.start.offset ≤ own.stop.offset)
    {other : Token} (member : other ∈ front ++ token :: later) :
    other.stop.offset ≤ lastStop front ∨ token.start.offset ≤ other.start.offset := by
  rcases List.mem_append.1 member with before | behind
  · obtain ⟨init, last, rfl⟩ : ∃ init last, front = init ++ [last] :=
      ⟨_, _, (List.dropLast_concat_getLast (List.ne_nil_of_mem before)).symm⟩
    have stop : lastStop (init ++ [last]) = last.stop.offset := by simp [lastStop]
    rw [stop]
    rcases List.mem_append.1 before with earlier | own
    · have front := (List.pairwise_append.1 pairwise).1
      have ordered := (List.pairwise_append.1 front).2.2 other earlier last (by simp)
      exact .inl (Nat.le_trans ordered (ranged last (by simp)))
    · exact .inl (by rw [List.mem_singleton.1 own])
  · rcases List.mem_cons.1 behind with rfl | after
    · exact .inr (Nat.le_refl _)
    · have rest := (List.pairwise_append.1 pairwise).2.1
      exact .inr (Nat.le_trans (ranged token (by simp)) ((List.pairwise_cons.1 rest).1 other after))

end Token

/-- What is pending in front of some items is whether a line terminator stands behind `start`; so
their tokens are flagged as they should be. -/
theorem Item.flagged_tokens (place : here.offset = before.length)
    (read : ∀ item ∈ items, item.IsRead) (behind : start ≤ before.length)
    (pending : context.newline = (before.drop start).any isLineTerminator) :
    Token.Flagged (before ++ textOf items) start (tokens .skip context here items) := by
  induction items generalizing context here before start with
  | nil =>
    refine ⟨?_, trivial⟩
    rw [Token.start, place, textOf_nil, List.append_nil, List.take_length]
    exact pending
  | cons item items ih =>
    obtain ⟨own, read⟩ := List.forall_mem_cons.1 read
    have place' := place_append item items place
    rw [tokens, textOf_cons, ← List.append_assoc]
    rcases token?_skip context ⟨here, here.advance item.written (textOf items)⟩ item with
      ⟨trivia, none⟩ | ⟨_, settled, token, found, newline⟩
    · rw [none, Option.toList_none, List.nil_append]
      refine ih place' read (by rw [List.length_append]; omega) ?_
      rw [LexContext.behind_trivia trivia, own.breaks_eq trivia,
        List.drop_append_of_le_length behind, List.any_append, ← pending]
    · have span := token?_span found
      rw [found, Option.toList_some, List.singleton_append]
      refine ⟨?_, ih place' read ?_ ?_⟩
      · rw [newline, pending, Token.start, span, place, List.append_assoc, List.take_left]
      · rw [Token.stop, span, place']
      · rw [settled, Token.stop, span, place', List.drop_length]
        rfl

/-- The tokens of a source without the comments are those that it has if comments are skipped. -/
theorem tokenize_code (accepted : tokenize comments source = .ok read) :
    tokenize .skip source = .ok (read.filter (·.kind != .comment)) := by
  have skipped := Token.readFrom_skip .initial .origin source
  rw [tokenize] at accepted ⊢
  cases comments with
  | keep => rw [skipped, accepted]; rfl
  | skip =>
    rw [accepted] at skipped ⊢
    obtain ⟨all, _, rfl⟩ := Except.map_eq_ok skipped.symm
    simp

/-- What is read of a source if comments are skipped stands in order. -/
theorem tokenize_pairwise (accepted : tokenize .skip source = .ok read) :
    read.Pairwise (·.stop.offset ≤ ·.start.offset) ∧
      ∀ token ∈ read, token.start.offset ≤ token.stop.offset := by
  obtain ⟨items, _, rfl, reads, _, rfl⟩ := Token.exists_reads accepted
  obtain ⟨stop, newline, place, same⟩ := Item.tokens_eq .skip .initial .origin items
  have ordered : Token.Ordered _ _ (Item.code .skip .initial .origin items) :=
    Item.code_ordered reads.written_ne_nil
  rw [← place] at ordered
  rw [same]
  exact ⟨List.pairwise_append.2 ⟨ordered.pairwise, List.pairwise_singleton .., by
      simpa [Token.start] using fun token member => (ordered.mem member).2.2⟩,
    List.forall_mem_append.2 ⟨fun token member => Nat.le_of_lt (ordered.mem member).2.1, by
      simp [Token.start, Token.stop]⟩⟩

/-- The tokens of a source, comments apart, are flagged as they should be. -/
theorem tokenize_flagged (accepted : tokenize .skip source = .ok read) :
    Token.Flagged source 0 read := by
  obtain ⟨items, _, rfl, reads, _, rfl⟩ := Token.exists_reads accepted
  exact @Item.flagged_tokens .initial .origin items [] 0 rfl reads.isRead (Nat.le_refl 0) rfl

/-- A token that is no comment is flagged if and only if a line terminator stands in the source
between the end of the one before it, or the start of the source, and its own start. No other such
token reaches into what is between. -/
theorem newlineBefore_iff (accepted : tokenize comments source = .ok read)
    (split : read.filter (·.kind != .comment) = front ++ token :: later) :
    (token.newlineBefore = true ↔ ∃ offset c, Token.lastStop front ≤ offset ∧
        offset < token.start.offset ∧ source[offset]? = some c ∧ c.isLineTerminator = true) ∧
      ∀ other ∈ read, other.kind ≠ .comment → ∀ offset, other.Covers offset →
        offset < Token.lastStop front ∨ token.start.offset ≤ offset := by
  have code := tokenize_code accepted
  rw [split] at code
  refine ⟨?_, fun other member kind offset covers => ?_⟩
  · rw [(tokenize_flagged code).of_append, Text.any_stretch]
    rfl
  · obtain ⟨pairwise, ranged⟩ := tokenize_pairwise code
    have inside : other ∈ front ++ token :: later := split ▸ List.mem_filter.2 ⟨member, by simpa⟩
    rcases Token.apart pairwise ranged inside with before | behind
    · exact .inl (Nat.lt_of_lt_of_le covers.2 before)
    · exact .inr (Nat.le_trans behind covers.1)

/-- A source with line terminators in comments of both sorts, in a template and behind a string. -/
def scatteredBreaks : Text :=
  Text.ofString "/*\u2028*/ a `b\n$\x7bc\x7d\r` 'd\\\n' // e\n/* f */ g"

theorem newlineBefore_iff_scattered : ∃ read front token later,
    tokenize .keep scatteredBreaks = .ok read ∧
      read.filter (·.kind != .comment) = front ++ token :: later ∧
      (front ++ [token]).map (fun own => (own.text, own.newlineBefore)) =
        [("a", true), ("`b\n$\x7b", false), ("c", false), ("\x7d\r`", false), ("'d\\\n'", false),
          ("g", true)].map (fun own => (Text.ofString own.1, own.2)) ∧
      (token.newlineBefore = true ↔ ∃ offset c, Token.lastStop front ≤ offset ∧
        offset < token.start.offset ∧ scatteredBreaks[offset]? = some c ∧
          c.isLineTerminator = true) ∧
      ∀ other ∈ read, other.kind ≠ .comment → ∀ offset, other.Covers offset →
        offset < Token.lastStop front ∨ token.start.offset ≤ offset := by
  have evaluated : (tokenize .keep scatteredBreaks).toOption.any (fun read =>
      (read.filter (·.kind != .comment)).map (fun own => (own.text, own.newlineBefore)) =
        [("a", true), ("`b\n$\x7b", false), ("c", false), ("\x7d\r`", false), ("'d\\\n'", false),
          ("g", true), ("", false)].map (fun own => (Text.ofString own.1, own.2))) = true := by
    decide +kernel
  obtain ⟨read, found, faces⟩ := (Option.any_eq_true _ _).1 evaluated
  have accepted := eq_ok_of_toOption found
  obtain ⟨front, behind, split, five, two⟩ :=
    List.map_eq_append_iff.1 ((of_decide_eq_true faces).trans
      (List.take_append_drop 5 _).symm)
  obtain ⟨token, later, rfl, own, _⟩ := List.map_eq_cons_iff.1 two
  refine ⟨read, front, token, later, accepted, split, ?_, newlineBefore_iff accepted split⟩
  rw [List.map_append, five, List.map_singleton, own]
  rfl

end Uncurry
