import Uncurry.Proofs.Lexical.Places

/-!
# Nothing of a source is lost in its tokens

With its comments kept, a source has a token over every character that is no layout, and what the
tokens are written as is woven with the gaps between them into the source again.
-/
namespace Uncurry

/-- Blank characters, line terminators and byte order marks may stand between tokens. -/
def CodePoint.isLayout (c : CodePoint) : Bool := c.isBlank || c.isLineTerminator || c.val = 0xFEFF

namespace Token

/-- A token takes the character at an offset. -/
def Covers (token : Token) (offset : Nat) : Prop :=
  token.start.offset ≤ offset ∧ offset < token.stop.offset

/-- A token has the text it is written as, or is an identifier with an escape. -/
def Faithful (source : Text) (token : Token) : Prop :=
  token.text = token.writtenIn source ∨
    token.kind = .identifier ∧ CodePoint.ofChar '\\' ∈ token.writtenIn source

/-- What tokens are written as in a source, with all that stands between them and around them from
some offset on. -/
def woven (source : Text) : Nat → List Token → Text
  | start, [] => source.drop start
  | start, token :: later =>
    (source.take token.start.offset).drop start ++ token.writtenIn source ++
      woven source token.stop.offset later

end Token

variable {context context' : LexContext} {here : Location} {first : Bool} {items : List Item}
  {source before tail : Text} {tokens : List Token}

/-- A stretch of a text goes on with what is behind it. -/
theorem Text.stretch_append_drop (source : Text) {start stop : Nat} (le : start ≤ stop) :
    (source.take stop).drop start ++ source.drop stop = source.drop start := by
  obtain ⟨length, rfl⟩ := Nat.exists_eq_add_of_le le
  rw [List.drop_take, Nat.add_sub_cancel_left, ← List.drop_drop, List.take_append_drop]

/-- Tokens in order are woven into the text from where the first may start. -/
theorem Token.Ordered.woven_eq {start : Nat} (h : Token.Ordered source.length start tokens) :
    Token.woven source start tokens = source.drop start := by
  induction tokens generalizing start with
  | nil => rfl
  | cons token later ih =>
    obtain ⟨starts, ranged, rest⟩ := h
    rw [Token.woven, ih rest, Token.writtenIn, List.append_assoc,
      source.stretch_append_drop (Nat.le_of_lt ranged), source.stretch_append_drop starts]

namespace Lexeme

variable {c : CodePoint} {rest t : Text} {lexeme : Lexeme} {kind : TokenKind} {n : Nat}

/-- What is neither a comment nor a token is a single character of layout. -/
theorem scan_layout (h : scan context first c rest = .ok (lexeme, n))
    (plain : lexeme = .blank ∨ lexeme = .newline) : n = 0 ∧ c.isLayout = true := by
  cases scanned_of_scan h with
  | newline line => exact ⟨rfl, by simp [CodePoint.isLayout, line]⟩
  | blank _ blank =>
    simp only [Bool.or_eq_true, decide_eq_true_eq] at blank
    exact ⟨rfl, by simp [CodePoint.isLayout, or_right_comm, blank]⟩
  | _ => simp at plain

/-- A name is spelled as it is written, or written with an escape. -/
theorem name_written {found : Name} (h : name t = .ok found) :
    found.escaped = false ∧ found.spelling = t.take found.length ∨
      found.escaped = true ∧ CodePoint.ofChar '\\' ∈ t.take found.length := by
  fun_induction name t generalizing found
  case case4 rest d length escaped later read ih =>
    cases h
    exact .inr ⟨rfl, by simp⟩
  case case6 c rest bare part later read ih =>
    cases h
    refine (ih read).imp (And.imp_right fun same => ?_) (And.imp_right fun inside => ?_)
    · rw [List.take_succ_cons, ← same]
    · rw [List.take_succ_cons]
      exact List.mem_cons_of_mem c inside
  case case7 c rest bare part =>
    cases h
    exact .inl ⟨rfl, rfl⟩
  case case1 =>
    cases h
    exact .inl ⟨rfl, rfl⟩
  all_goals contradiction

/-- A word has the text it is written as, or is an identifier with an escape. -/
theorem scan_word_written {text written : Text}
    (h : scan context first c (written ++ t) = .ok (.word kind text, written.length)) :
    text = c :: written ∨ kind = .identifier ∧ CodePoint.ofChar '\\' ∈ c :: written := by
  obtain ⟨front, found, read, rfl, rfl, length⟩ := scan_eq_word h
  have positive := name_pos front read
  have taken : (c :: (written ++ t)).take found.length = c :: written := by
    rw [show found.length = (c :: written).length by rw [List.length_cons]; omega,
      ← List.cons_append, List.take_left]
  rcases name_written read with ⟨_, spelling⟩ | ⟨escaped, inside⟩
  · exact .inl (spelling.trans taken)
  · exact .inr ⟨by rw [Name.kind, if_pos escaped], taken ▸ inside⟩

theorem kinds_present : (∀ kind ∈ literalKinds, kind ≠ .endOfInput) ∧
    (∀ entry ∈ TokenKind.punctuators, entry.2 ≠ .endOfInput) ∧
      ∀ entry ∈ TokenKind.reservedWords, entry.2 ≠ .endOfInput := by
  decide

/-- No lexeme is the end of the text. -/
theorem scan_ne_endOfInput (h : scan context first c rest = .ok (lexeme, n)) :
    lexeme.kind? ≠ some .endOfInput := by
  obtain ⟨literals, punctuators, words⟩ := kinds_present
  cases lexeme with
  | word kind text =>
    obtain ⟨_, found, _, rfl, _⟩ := scan_eq_word h
    rcases name_kind found with same | ⟨_, entry, member, same, _⟩
    · simp [kind?, same]
    · simpa [kind?, same] using words entry member
  | token kind =>
    rcases scan_eq_token h with literal | found
    · simpa [kind?] using literals kind literal
    · obtain ⟨entry, member, rfl, _⟩ := punctuator?_mem found
      simpa [kind?] using punctuators entry member
  | _ => simp [kind?]

end Lexeme

/-- An item has a token, if comments are kept, or is a single character of layout. -/
theorem Item.IsRead.isLayout {item : Item} {span : Span} (read : item.IsRead)
    (none : item.token? .keep context span = none) :
    ∃ c, item.written = [c] ∧ c.isLayout = true := by
  obtain ⟨lexeme, written⟩ := item
  obtain ⟨_, _, c, rest, t, rfl, scanned⟩ := read
  have layout : lexeme = .blank ∨ lexeme = .newline := by
    cases lexeme <;> simp [token?] at none ⊢
  obtain ⟨length, layout⟩ := Lexeme.scan_layout scanned layout
  rw [List.length_eq_zero_iff.1 length]
  exact ⟨c, rfl, layout⟩

/-- The token of an item has the text of the item, or is an identifier with an escape. -/
theorem Item.IsRead.text {comments : CommentPolicy} {item : Item} {span : Span} {token : Token}
    (read : item.IsRead) (found : item.token? comments context span = some token) :
    token.text = item.written ∨
      token.kind = .identifier ∧ CodePoint.ofChar '\\' ∈ item.written := by
  obtain ⟨lexeme, written⟩ := item
  obtain ⟨_, _, c, rest, t, rfl, scanned⟩ := read
  cases lexeme with
  | blank => cases found
  | newline => cases found
  | comment =>
    cases comments <;> cases found
    exact .inl rfl
  | word kind text =>
    cases found
    exact Lexeme.scan_word_written scanned
  | token kind =>
    cases found
    exact .inl rfl

/-- The token of an item is not the end of the text. -/
theorem Item.IsRead.ne_endOfInput {comments : CommentPolicy} {item : Item} {span : Span}
    {token : Token} (read : item.IsRead) (found : item.token? comments context span = some token) :
    token.kind ≠ .endOfInput := by
  obtain ⟨lexeme, written⟩ := item
  obtain ⟨_, _, c, rest, t, rfl, scanned⟩ := read
  have kind := Lexeme.scan_ne_endOfInput scanned
  cases lexeme with
  | blank => cases found
  | newline => cases found
  | comment => cases comments <;> cases found; exact nofun
  | word => cases found; simpa [Lexeme.kind?] using kind
  | token => cases found; simpa [Lexeme.kind?] using kind

namespace Item

/-- The tokens in a text have the text they are written as, but for identifiers with escapes. -/
theorem code_faithful {comments : CommentPolicy} (place : here.offset = before.length)
    (read : ∀ item ∈ items, item.IsRead) :
    ∀ token ∈ code comments context here items, token.Faithful (before ++ textOf items) := by
  induction items generalizing context here before with
  | nil => simp [code]
  | cons item items ih =>
    obtain ⟨read, later⟩ := List.forall_mem_cons.1 read
    refine List.forall_mem_append.2 ⟨fun token member => ?_, ?_⟩
    · have found := Option.mem_toList.1 member
      rw [Token.Faithful, writtenIn_eq place (token?_span found)]
      exact read.text found
    · rw [textOf_cons, ← List.append_assoc]
      exact ih (place_append item items place) later

/-- Every character of a text is one of a token or layout. -/
theorem code_covers (place : here.offset = before.length) (read : ∀ item ∈ items, item.IsRead)
    {offset : Nat} {c : CodePoint} (inside : before.length ≤ offset)
    (found : (before ++ textOf items)[offset]? = some c) :
    (∃ token ∈ code .keep context here items, token.Covers offset) ∨ c.isLayout = true := by
  induction items generalizing context here before with
  | nil =>
    rw [textOf_nil, List.append_nil, List.getElem?_eq_none inside] at found
    cases found
  | cons item items ih =>
    obtain ⟨read, later⟩ := List.forall_mem_cons.1 read
    have place' := place_append item items place
    by_cases behind : (before ++ item.written).length ≤ offset
    · rw [textOf_cons, ← List.append_assoc] at found
      obtain ⟨token, member, covers⟩ | layout :=
        @ih (context.behind item) _ _ place' later behind found
      · exact .inl ⟨token, List.mem_append_right _ member, covers⟩
      · exact .inr layout
    · rw [not_le] at behind
      cases own : item.token? .keep context ⟨here, here.advance item.written (textOf items)⟩ with
      | some token =>
        refine .inl ⟨token, List.mem_append_left _ (by simp [own]), ?_⟩
        rw [Token.Covers, Token.start, Token.stop, token?_span own, place', place]
        exact ⟨inside, behind⟩
      | none =>
        obtain ⟨d, written, layout⟩ := read.isLayout own
        rw [written, List.length_append, List.length_singleton] at behind
        obtain rfl : offset = before.length := by omega
        simp only [textOf_cons, written, List.cons_append, List.nil_append,
          List.getElem?_append_right (Nat.le_refl _), Nat.sub_self, List.getElem?_cons_zero,
          Option.some.injEq] at found
        exact .inr (found ▸ layout)

/-- No token before the end of a text is the one at the end. -/
theorem code_ne_endOfInput {comments : CommentPolicy} (read : ∀ item ∈ items, item.IsRead) :
    ∀ token ∈ code comments context here items, token.kind ≠ .endOfInput := by
  intro token member
  obtain ⟨item, inside, _, _, found⟩ := exists_item member
  exact (read item inside).ne_endOfInput found

end Item

/-- A source that has tokens is its tokens, in order and as they are written, with layout around
them: the one at the end is empty, and the others have the text they are written as unless they are
identifiers with escapes. -/
theorem tokenize_keep_covers (accepted : tokenize .keep source = .ok tokens) :
    ∃ code stop newline, tokens = code ++ [⟨.endOfInput, [], ⟨stop, stop⟩, newline⟩] ∧
      stop.offset = source.length ∧
      Token.Ordered source.length 0 code ∧
      (∀ token ∈ code, token.kind ≠ .endOfInput ∧ token.Faithful source) ∧
      (∀ offset c, source[offset]? = some c →
        (∃ token ∈ code, token.Covers offset) ∨ c.isLayout = true) ∧
      Token.woven source 0 code = source := by
  obtain ⟨items, context', rfl, reads, _, rfl⟩ := Token.exists_reads accepted
  obtain ⟨stop, newline, place, same⟩ := Item.tokens_eq .keep .initial .origin items
  have origin : Location.origin.offset = ([] : Text).length := rfl
  have ordered : Token.Ordered (Item.textOf items).length 0
      (Item.code .keep .initial .origin items) := by
    have ordered : Token.Ordered (Location.origin.offset + _) _
        (Item.code .keep .initial .origin items) := Item.code_ordered reads.written_ne_nil
    exact Nat.zero_add (Item.textOf items).length ▸ ordered
  refine ⟨Item.code .keep .initial .origin items, stop, newline, same,
    place.trans (Nat.zero_add _), ordered, fun token member => ⟨?_, ?_⟩, fun offset c found => ?_,
    ordered.woven_eq⟩
  · exact Item.code_ne_endOfInput reads.isRead token member
  · exact Item.code_faithful origin reads.isRead token member
  · exact Item.code_covers origin reads.isRead (Nat.zero_le offset) found

/-- A source with a comment at its start, a byte order mark, an escape and a comment inside. -/
def annotated : Text := Text.ofString "#!x\n\uFEFF\\u0061 = /* b */ `c`;"

theorem tokenize_keep_covers_annotated : ∃ code stop newline,
    tokenize .keep annotated = .ok (code ++ [⟨.endOfInput, [], ⟨stop, stop⟩, newline⟩]) ∧
      stop.offset = 26 ∧
      code.map Token.text = ["#!x", "a", "=", "/* b */", "`c`", ";"].map Text.ofString ∧
      Token.woven annotated 0 code = annotated := by
  have read : (tokenize .keep annotated).toOption.any (fun tokens =>
      tokens.map Token.text = ["#!x", "a", "=", "/* b */", "`c`", ";", ""].map Text.ofString) =
        true := by
    decide +kernel
  obtain ⟨tokens, found, texts⟩ := (Option.any_eq_true _ _).1 read
  have accepted := eq_ok_of_toOption found
  obtain ⟨code, stop, newline, rfl, place, _, _, _, woven⟩ := tokenize_keep_covers accepted
  refine ⟨code, stop, newline, accepted, place, ?_, woven⟩
  simpa using congrArg List.dropLast (of_decide_eq_true texts)

end Uncurry
