import Mathlib.Data.List.Forall2
import Uncurry.Proofs.Lexical.Balance
import Uncurry.Proofs.Lexical.Endings
import Uncurry.Proofs.Lexical.Newlines

/-!
# Characters taken out of a source

If some characters are taken out of a source and none of them stands in a token, then what is left
is read as what is left of the items of the source (`Reads.sifted`), provided that each token and
each comment ends where it ended. Its tokens are the same, at the places that are left
(`Token.SiftedTo`). A line terminator in front of a token is known as long as one is left there.
-/
namespace Uncurry

open CodePoint

variable {keep : CodePoint → Bool} {comments : CommentPolicy}
  {context context' other : LexContext} {first first' : Bool} {here here' : Location}
  {items : List Item} {source before : Text} {token token' : Token}

/-- Whether a token or a comment ends where it does also in what is left of its source. -/
def Token.endsSifted (keep : CodePoint → Bool) (source : Text) (token : Token) : Bool :=
  Token.endsBefore token.kind ((token.writtenIn source).filter keep)
    ((source.drop token.stop.offset).filter keep)

/-- What becomes of a token: of a comment characters are taken out, of other tokens only the place
changes, by what was taken out in front of it. -/
structure Token.SiftedTo (keep : CodePoint → Bool) (source : Text) (token other : Token) : Prop where
  kind : other.kind = token.kind
  text : other.text = if token.kind = .comment then token.text.filter keep else token.text
  start : other.start.offset = ((source.take token.start.offset).filter keep).length
  stop : other.stop.offset = ((source.take token.stop.offset).filter keep).length

namespace Item

/-- What is left of an item, if anything is. -/
def sifted? (keep : CodePoint → Bool) (item : Item) : Option Item :=
  if item.written.any keep then some ⟨item.lexeme, item.written.filter keep⟩ else none

def sift (keep : CodePoint → Bool) (items : List Item) : List Item := items.filterMap (sifted? keep)

/-- Nothing is taken out of a token. -/
def Kept (keep : CodePoint → Bool) (item : Item) : Prop :=
  item.isTrivia = false → ∀ c ∈ item.written, keep c = true

theorem textOf_sift (keep : CodePoint → Bool) (items : List Item) :
    textOf (sift keep items) = (textOf items).filter keep := by
  induction items with
  | nil => rfl
  | cons item items ih =>
    rw [textOf_cons, List.filter_append, ← ih, sift, List.filterMap_cons, sifted?]
    cases left : item.written.any keep with
    | true => rfl
    | false =>
      have none : item.written.filter keep = [] :=
        List.filter_eq_nil_iff.2 (List.any_eq_false.1 left)
      rw [none]
      rfl

theorem sift_left {item : Item} {c : CodePoint} {w : Text} (written : item.written = c :: w)
    (front : keep c = true) (items : List Item) : sift keep (item :: items) =
      ⟨item.lexeme, item.written.filter keep⟩ :: sift keep items := by
  simp [sift, sifted?, written, front]

theorem sift_taken {item : Item} {c : CodePoint} (written : item.written = [c])
    (taken : keep c = false) (items : List Item) : sift keep (item :: items) = sift keep items := by
  simp [sift, sifted?, written, taken]

end Item

namespace Lexeme

variable {c : CodePoint} {w t t' : Text} {lexeme : Lexeme}

/-- What is no token is a comment, or it is a single character. -/
theorem scan_eq_trivia {n : Nat} (h : scan context first c t = .ok (lexeme, n))
    (trivia : lexeme.kind? = none) :
    lexeme = .comment ∧ c ∈ commentMarks ∨ lexeme ≠ .comment ∧ n = 0 := by
  cases scanned_of_scan h with
  | hashbang _ mark | lineComment mark | blockComment mark | markupComment mark =>
    exact .inl ⟨rfl, mark ▸ by decide⟩
  | newline | blank => exact .inr ⟨by decide, rfl⟩
  | _ => cases trivia

/-- What is left behind the first character of a lexeme is read with it if it ends where it did. -/
theorem scan_sifted (span : Span) (marks : ∀ d ∈ commentMarks, keep d = true)
    (h : scan context first c (w ++ t) = .ok (lexeme, w.length))
    (kept : Item.Kept keep ⟨lexeme, c :: w⟩)
    (ends : ∀ token, Item.token? .keep context span ⟨lexeme, c :: w⟩ = some token →
      Token.endsBefore token.kind (c :: w.filter keep) t' = true)
    (agrees : context.Agrees other) (start : first = true → first' = true)
    (last : t = [] → t' = []) :
    scan other first' c (w.filter keep ++ t') = .ok (lexeme, (w.filter keep).length) := by
  cases lexeme with
  | blank =>
    generalize length : w.length = n at h
    cases scanned_of_scan h with
    | blank line blank =>
      obtain rfl := List.length_eq_zero_iff.1 length
      exact scan_blank line blank
  | newline =>
    generalize length : w.length = n at h
    cases scanned_of_scan h with
    | newline line =>
      obtain rfl := List.length_eq_zero_iff.1 length
      exact scan_newline line
  | comment => exact scan_comment_ended marks h (ends _ rfl) start
  | word kind text =>
    have whole : w.filter keep = w :=
      List.filter_eq_self.2 fun d member => kept rfl d (List.mem_cons_of_mem _ member)
    rw [whole] at ends ⊢
    exact scan_word_ended h (ends _ rfl) last
  | token kind =>
    have whole : w.filter keep = w :=
      List.filter_eq_self.2 fun d member => kept rfl d (List.mem_cons_of_mem _ member)
    rw [whole] at ends ⊢
    exact scan_token_ended h (ends _ rfl) agrees.regexMayStart.symm agrees.closesSubstitution

end Lexeme

theorem Item.IsRead.kind_ne_comment {item : Item} (read : item.IsRead) :
    item.lexeme.kind? ≠ some .comment := by
  obtain ⟨_, _, c, w, _, _, scanned⟩ := read
  exact Lexeme.scan_kind scanned

/-- Of an item the first character is left, or it is nothing but a character that is taken out. -/
theorem Item.IsRead.left_or_taken {item : Item} (read : item.IsRead)
    (marks : ∀ d ∈ Lexeme.commentMarks, keep d = true) (kept : item.Kept keep) :
    ∃ c w, item.written = c :: w ∧ (keep c = true ∨ keep c = false ∧ w = [] ∧
      item.isTrivia = true ∧ ∀ comments context span, item.token? comments context span = none) := by
  obtain ⟨lexeme, written⟩ := item
  obtain ⟨context, first, c, w, t, rfl, scanned⟩ := read
  refine ⟨c, w, rfl, (Bool.eq_false_or_eq_true (keep c)).imp_right fun taken => ?_⟩
  have trivia : Item.isTrivia ⟨lexeme, c :: w⟩ = true :=
    Bool.not_eq_false _ ▸ fun counts =>
      Bool.false_ne_true (taken.symm.trans (kept counts c List.mem_cons_self))
  obtain ⟨plain, single⟩ :=
    (Lexeme.scan_eq_trivia scanned (Option.isNone_iff_eq_none.1 trivia)).resolve_left
      fun comment => Bool.false_ne_true (taken.symm.trans (marks c comment.2))
  refine ⟨taken, List.length_eq_zero_iff.1 single, trivia, fun comments context span => ?_⟩
  cases lexeme with
  | blank => rfl
  | newline => rfl
  | comment => exact absurd rfl plain
  | word => cases trivia
  | token => cases trivia

/-- Contexts agree behind an item and behind what is left of it. -/
theorem LexContext.Agrees.sifted {item : Item} (agrees : context.Agrees other)
    (kept : item.Kept keep) :
    (context.behind item).Agrees (other.behind ⟨item.lexeme, item.written.filter keep⟩) := by
  cases trivia : item.isTrivia with
  | true =>
    have left : Item.isTrivia ⟨item.lexeme, item.written.filter keep⟩ = true := trivia
    rw [behind_trivia trivia, behind_trivia left]
    exact agrees.newline ..
  | false =>
    rw [List.filter_eq_self.2 (kept trivia)]
    exact agrees.behind item

/-- Contexts that agree do so behind an item of which nothing is left. -/
theorem LexContext.Agrees.skipped {item : Item} (agrees : context.Agrees other)
    (trivia : item.isTrivia = true) : (context.behind item).Agrees other := by
  rw [behind_trivia trivia]
  exact agrees.newline _ other.newline

/-- What is left of the items of a source is read if every token ends where it did. -/
theorem Reads.sifted (marks : ∀ d ∈ Lexeme.commentMarks, keep d = true)
    (place : here.offset = before.length) (h : Reads context first items [] context')
    (kept : ∀ item ∈ items, item.Kept keep)
    (ends : ∀ token ∈ Item.tokens .keep context here items,
      token.endsSifted keep (before ++ Item.textOf items) = true)
    (agrees : context.Agrees other) (start : first = true → first' = true) :
    ∃ other', Reads other first' (Item.sift keep items) [] other' ∧ context'.Agrees other' := by
  induction items generalizing context other first first' before here with
  | nil =>
    cases h
    exact ⟨other, .nil .., agrees⟩
  | cons item items ih =>
    obtain ⟨own, others⟩ := List.forall_mem_cons.1 kept
    obtain ⟨now, later⟩ := List.forall_mem_append.1 ends
    have place' := item.place_append items place
    rw [Item.textOf_cons, ← List.append_assoc] at later
    cases h with
    | @cons _ _ _ lexeme c w _ _ scanned reads =>
    have read : Item.IsRead ⟨lexeme, c :: w⟩ := ⟨_, _, c, w, _, rfl, scanned⟩
    obtain ⟨_, _, ⟨⟩, front | ⟨taken, rfl, trivia, _⟩⟩ := read.left_or_taken marks own
    · obtain ⟨other', reads', agrees'⟩ := ih place' reads others later (agrees.sifted own)
        (Bool.noConfusion ·)
      rw [List.filter_cons_of_pos front] at reads'
      rw [Item.sift_left rfl front, List.filter_cons_of_pos front]
      refine ⟨other', .cons ?_ reads', agrees'⟩
      rw [List.append_nil, Item.textOf_sift]
      refine Lexeme.scan_sifted ⟨here, here.advance (c :: w) (Item.textOf items)⟩ marks scanned own
        (fun token found => ?_) agrees start ?_
      · have ends := now token (Option.mem_toList.2 found)
        have span := Item.token?_span found
        rw [Token.endsSifted, Item.writtenIn_eq place span, Token.stop, span, place', Item.textOf_cons,
          ← List.append_assoc, List.drop_left, List.filter_cons_of_pos front] at ends
        exact ends
      · rw [List.append_nil]
        rintro none
        rw [none]
        rfl
    · rw [Item.sift_taken rfl taken]
      exact ih place' reads others later (agrees.skipped trivia) (Bool.noConfusion ·)

namespace Item

/-- A token of an item becomes one of what is left of the item. -/
theorem siftedTo {item : Item} {kind : TokenKind} {text text' : Text} {newline newline' : Bool}
    (place : here.offset = before.length) (place' : here'.offset = (before.filter keep).length)
    (same : text' = if kind = .comment then text.filter keep else text) (t' : Text) :
    Token.SiftedTo keep (before ++ textOf (item :: items))
      ⟨kind, text, ⟨here, here.advance item.written (textOf items)⟩, newline⟩
      ⟨kind, text', ⟨here', here'.advance (item.written.filter keep) t'⟩, newline'⟩ where
  kind := rfl
  text := same
  start := by
    rw [Token.start, Token.start, place, place', List.take_left]
  stop := by
    rw [Token.stop, Token.stop, place_append item items place, Location.advance_offset, place',
      textOf_cons, ← List.append_assoc, List.take_left, List.filter_append, List.length_append]

/-- The token of an item becomes that of what is left of the item. -/
theorem token?_sifted {item : Item} (context other : LexContext)
    (place : here.offset = before.length) (place' : here'.offset = (before.filter keep).length)
    (read : item.IsRead) (kept : item.Kept keep) (t' : Text) :
    List.Forall₂ (Token.SiftedTo keep (before ++ textOf (item :: items)))
      (item.token? comments context ⟨here, here.advance item.written (textOf items)⟩).toList
      (token? comments other ⟨here', here'.advance (item.written.filter keep) t'⟩
        ⟨item.lexeme, item.written.filter keep⟩).toList := by
  have plain := read.kind_ne_comment
  obtain ⟨lexeme, written⟩ := item
  cases lexeme with
  | blank => exact .nil
  | newline => exact .nil
  | comment =>
    cases comments with
    | skip => exact .nil
    | keep => exact .cons (siftedTo place place' rfl t') .nil
  | word kind text =>
    have other : kind ≠ .comment := fun same => plain (congrArg some same)
    exact .cons (siftedTo place place' (if_neg other).symm t') .nil
  | token kind =>
    have other : kind ≠ .comment := fun same => plain (congrArg some same)
    refine .cons (siftedTo place place' ?_ t') .nil
    rw [if_neg other, List.filter_eq_self.2 (kept rfl)]

/-- The tokens of a source become those of what is left of it. -/
theorem tokens_sifted (marks : ∀ d ∈ Lexeme.commentMarks, keep d = true)
    (context other : LexContext) (place : here.offset = before.length)
    (place' : here'.offset = (before.filter keep).length)
    (read : ∀ item ∈ items, item.IsRead) (kept : ∀ item ∈ items, item.Kept keep) :
    List.Forall₂ (Token.SiftedTo keep (before ++ textOf items)) (tokens comments context here items)
      (tokens comments other here' (sift keep items)) := by
  induction items generalizing context other here here' before with
  | nil =>
    refine .cons ⟨rfl, rfl, ?_, ?_⟩ .nil
    all_goals simp [Token.start, Token.stop, place, place']
  | cons item items ih =>
    obtain ⟨own, read⟩ := List.forall_mem_cons.1 read
    obtain ⟨whole, kept⟩ := List.forall_mem_cons.1 kept
    have there := place_append item items place
    have later (context other : LexContext) {here' : Location}
        (place' : here'.offset = ((before ++ item.written).filter keep).length) :=
      ih context other there place' read kept
    rw [List.append_assoc, ← textOf_cons] at later
    rw [tokens]
    obtain ⟨c, w, written, front | ⟨taken, rfl, _, none⟩⟩ := own.left_or_taken marks whole
    · rw [sift_left written front, tokens]
      refine List.rel_append (token?_sifted context other place place' own whole _) (later _ _ ?_)
      rw [Location.advance_offset, place', List.filter_append, List.length_append]
    · rw [sift_taken written taken, none]
      refine later _ _ ?_
      rw [place', List.filter_append, written, List.filter_cons_of_neg (by simp [taken]),
        List.filter_nil, List.append_nil]

/-- Nothing is taken out of the tokens of some items if nothing is where these stand. -/
theorem kept_of_tokens (place : here.offset = before.length)
    (h : ∀ token ∈ tokens .keep context here items, token.kind ≠ .comment →
      ∀ c ∈ token.writtenIn (before ++ textOf items), keep c = true)
    (read : ∀ item ∈ items, item.IsRead) : ∀ item ∈ items, item.Kept keep := by
  induction items generalizing context here before with
  | nil => simp
  | cons item items ih =>
    obtain ⟨own, read⟩ := List.forall_mem_cons.1 read
    obtain ⟨now, later⟩ := List.forall_mem_append.1 h
    rw [textOf_cons, ← List.append_assoc] at later
    refine List.forall_mem_cons.2 ⟨fun counts => ?_, ih (place_append item items place) later read⟩
    have plain := own.kind_ne_comment
    obtain ⟨lexeme, written⟩ := item
    cases lexeme with
    | blank => cases counts
    | newline => cases counts
    | comment => cases counts
    | word kind text =>
      have clean := now _ (Option.mem_toList.2 rfl) fun same => plain (congrArg some same)
      rwa [writtenIn_eq place rfl] at clean
    | token kind =>
      have clean := now _ (Option.mem_toList.2 rfl) fun same => plain (congrArg some same)
      rwa [writtenIn_eq place rfl] at clean

end Item

namespace Text

theorem filter_split (keep : CodePoint → Bool) (source : Text) (n : Nat) :
    source.filter keep = (source.take n).filter keep ++ (source.drop n).filter keep := by
  rw [← List.filter_append, List.take_append_drop]

theorem take_sifted (source : Text) (n : Nat) :
    (source.filter keep).take ((source.take n).filter keep).length = (source.take n).filter keep := by
  rw [filter_split keep source n, List.take_left]

theorem drop_sifted (source : Text) (n : Nat) :
    (source.filter keep).drop ((source.take n).filter keep).length = (source.drop n).filter keep := by
  rw [filter_split keep source n, List.drop_left]

/-- What is left of a stretch of a text is the stretch between the places that are left. -/
theorem stretch_sifted (source : Text) (start stop : Nat) :
    ((source.filter keep).take ((source.take stop).filter keep).length).drop
        ((source.take start).filter keep).length =
      ((source.take stop).drop start).filter keep := by
  rw [take_sifted]
  rcases Nat.le_total start stop with le | le
  · rw [← drop_sifted, List.take_take, Nat.min_eq_left le]
  · have longer : (source.take stop).filter keep <+: (source.take start).filter keep :=
      (List.take_prefix_take_left le).filter keep
    rw [List.drop_of_length_le longer.length_le,
      List.drop_of_length_le (Nat.le_trans (List.length_take_le ..) le)]
    rfl

end Text

namespace Token

theorem SiftedTo.writtenIn (h : token.SiftedTo keep source token') :
    token'.writtenIn (source.filter keep) = (token.writtenIn source).filter keep := by
  rw [Token.writtenIn, h.start, h.stop, Text.stretch_sifted]
  rfl

/-- A token of a source ends before the text behind it. -/
theorem endsBefore_of_tokenize {read : List Token} (accepted : tokenize .keep source = .ok read) :
    ∀ token ∈ read, Token.endsBefore token.kind (token.writtenIn source)
      (source.drop token.stop.offset) = true := by
  intro token member
  by_cases final : token.kind = .endOfInput
  · rw [final]
    rfl
  · obtain ⟨c, written, lexeme, own, opening, text, scanned, found⟩ :=
      Token.exists_scan accepted member final
    rw [text]
    exact endsBefore_of_scan scanned found

theorem exists_sifted {read read' : List Token}
    (sifted : List.Forall₂ (SiftedTo keep source) read read') (member : token ∈ read) :
    ∃ token' ∈ read', token.SiftedTo keep source token' := by
  induction sifted with
  | nil => cases member
  | cons own _ ih =>
    rcases List.mem_cons.1 member with rfl | later
    · exact ⟨_, List.mem_cons_self, own⟩
    · obtain ⟨token', inside, found⟩ := ih later
      exact ⟨token', List.mem_cons_of_mem _ inside, found⟩

/-- The tokens of what is left of a source are what becomes of its tokens if and only if each of
these ends where it did. -/
theorem tokenize_sifted {read : List Token} (marks : ∀ d ∈ Lexeme.commentMarks, keep d = true)
    (accepted : tokenize .keep source = .ok read)
    (clean : ∀ token ∈ read, token.kind ≠ .comment →
      ∀ c ∈ token.writtenIn source, keep c = true) :
    (∃ read', tokenize .keep (source.filter keep) = .ok read' ∧
        List.Forall₂ (SiftedTo keep source) read read') ↔
      ∀ token ∈ read, token.endsSifted keep source = true := by
  constructor
  · rintro ⟨read', accepted', sifted⟩ token member
    obtain ⟨token', member', own⟩ := exists_sifted sifted member
    have ends := endsBefore_of_tokenize accepted' token' member'
    rwa [own.kind, own.writtenIn, own.stop, Text.drop_sifted] at ends
  · intro ends
    obtain ⟨items, context', rfl, reads, closed, rfl⟩ := Token.exists_reads accepted
    have place : Location.origin.offset = ([] : Text).length := rfl
    have kept := Item.kept_of_tokens place clean reads.isRead
    obtain ⟨other', reads', agrees⟩ := reads.sifted marks place kept ends (.refl _) id
    refine ⟨Item.tokens .keep .initial .origin (Item.sift keep items), ?_, ?_⟩
    · rw [← Item.textOf_sift]
      refine Token.readFrom_of_reads reads' ?_
      rwa [LexContext.insideTemplate, ← agrees.enclosures]
    · exact Item.tokens_sifted marks .initial .initial place rfl reads.isRead kept

/-- Where one of some tokens is flagged, a line terminator is left between it and the one before it,
the first one if one is left behind `start`. -/
def linesLeft (keep : CodePoint → Bool) (source : Text) : Nat → List Token → Bool
  | _, [] => true
  | start, token :: later =>
    (!token.newlineBefore ||
      (((source.take token.start.offset).drop start).filter keep).any isLineTerminator) &&
      linesLeft keep source token.stop.offset later

theorem any_of_filter {p : CodePoint → Bool} {t : Text} (h : (t.filter keep).any p = true) :
    t.any p = true := by
  obtain ⟨c, member, holds⟩ := List.any_eq_true.1 h
  exact List.any_eq_true.2 ⟨c, (List.mem_filter.1 member).1, holds⟩

theorem faces_sifted {tokens tokens' : List Token}
    (sifted : List.Forall₂ (SiftedTo keep source) tokens tokens')
    (code : ∀ token ∈ tokens, token.kind ≠ .comment) :
    tokens'.map face = tokens.map face := by
  induction sifted with
  | nil => rfl
  | cons own _ ih =>
    obtain ⟨plain, code⟩ := List.forall_mem_cons.1 code
    have text := own.text
    rw [if_neg plain] at text
    rw [List.map_cons, List.map_cons, ih code, face, own.kind, text]
    rfl

/-- What is known of tokens but their places stays if and only if each that is flagged is so for a
line terminator that is left. -/
theorem contents_sifted {tokens tokens' : List Token} {start start' : Nat}
    (sifted : List.Forall₂ (SiftedTo keep source) tokens tokens')
    (code : ∀ token ∈ tokens, token.kind ≠ .comment) (flagged : Flagged source start tokens)
    (flagged' : Flagged (source.filter keep) start' tokens')
    (place : start' = ((source.take start).filter keep).length) :
    tokens'.map content = tokens.map content ↔ linesLeft keep source start tokens = true := by
  induction sifted generalizing start start' with
  | nil => exact iff_of_true rfl rfl
  | @cons token token' later later' own _ ih =>
    obtain ⟨plain, code⟩ := List.forall_mem_cons.1 code
    obtain ⟨flag, flagged⟩ := flagged
    obtain ⟨flag', flagged'⟩ := flagged'
    have text := own.text
    rw [if_neg plain] at text
    rw [own.start, place, Text.stretch_sifted] at flag'
    have same : token'.newlineBefore = token.newlineBefore ↔ (!token.newlineBefore ||
        (((source.take token.start.offset).drop start).filter keep).any isLineTerminator) = true := by
      rw [flag', flag, Bool.eq_iff_iff, Bool.or_eq_true, Bool.not_eq_true', ← Bool.not_eq_true,
        ← imp_iff_not_or]
      exact ⟨Iff.mpr, fun left => ⟨any_of_filter, left⟩⟩
    rw [List.map_cons, List.map_cons, List.cons.injEq, content, content, own.kind, text,
      ih code flagged flagged' own.stop, linesLeft, Bool.and_eq_true, ← same]
    simp

/-- Among the tokens that are no comments none is changed, and flags are as they were if and only if
line terminators are left for them. -/
theorem code_sifted {read read' : List Token} (accepted : tokenize .keep source = .ok read)
    (accepted' : tokenize .keep (source.filter keep) = .ok read')
    (sifted : List.Forall₂ (SiftedTo keep source) read read') :
    (read'.filter (·.kind != .comment)).map face = (read.filter (·.kind != .comment)).map face ∧
      ((read'.filter (·.kind != .comment)).map content =
          (read.filter (·.kind != .comment)).map content ↔
        linesLeft keep source 0 (read.filter (·.kind != .comment)) = true) := by
  have code : List.Forall₂ (SiftedTo keep source) (read.filter (·.kind != .comment))
      (read'.filter (·.kind != .comment)) :=
    List.rel_filter (fun token other h => by simp [h.kind]) sifted
  have plain : ∀ token ∈ read.filter (·.kind != .comment), token.kind ≠ .comment :=
    fun token member => by simpa using (List.mem_filter.1 member).2
  exact ⟨faces_sifted code plain, contents_sifted code plain
    (tokenize_flagged (tokenize_code accepted)) (tokenize_flagged (tokenize_code accepted')) rfl⟩

end Token

end Uncurry