import Uncurry.Proofs.Lexical.Words

/-!
# Where the tokens of a text stand

The tokens of a text stand one behind the other, the last of them at its end.
-/
namespace Uncurry

variable {comments : CommentPolicy} {context context' : LexContext} {here : Location}
  {items : List Item} {first : Bool} {tail : Text} {taken : List Token}

/-- The kind of a lexeme that is a token. -/
def Lexeme.kind? : Lexeme → Option TokenKind
  | .word kind _ => some kind
  | .token kind => some kind
  | _ => none

namespace Lexeme

variable {c : CodePoint} {rest : Text} {lexeme : Lexeme} {kind : TokenKind} {n : Nat}

/-- The kinds of tokens with a lexeme that no table lists. -/
def literalKinds : List TokenKind :=
  [.number, .bigInt, .string, .regex, .template, .templateHead, .templateMiddle, .templateTail,
   .privateName]

theorem number_kind {t : Text} (h : number t = .ok (kind, n)) : kind = .number ∨ kind = .bigInt := by
  cases hm : magnitudeLength t with
  | error cause =>
    simp only [number, bind, Except.bind, hm] at h
    cases h
  | ok magnitude =>
    rw [number_eq hm rfl] at h
    split at h
    · cases h
    · cases h
      split
      · exact .inr rfl
      · exact .inl rfl

/-- What is no word is a literal or a punctuator. -/
theorem scan_eq_token (h : scan context first c rest = .ok (.token kind, n)) :
    kind ∈ literalKinds ∨ punctuator? (c :: rest) = some (kind, n + 1) := by
  cases scanned_of_scan h with
  | string | privateName | regex => exact .inl (by decide)
  | template | chunk => cases ‹ChunkEnd› <;> exact .inl (by decide)
  | number _ found => rcases number_kind found with rfl | rfl <;> exact .inl (by decide)
  | punctuator _ _ found =>
    rw [Nat.sub_add_cancel (punctuator?_le found).1]
    exact .inr found

theorem punctuator?_mem {t : Text} (h : punctuator? t = some (kind, n)) :
    ∃ entry ∈ TokenKind.punctuators, entry.2 = kind ∧ (Text.ofString entry.1).isPrefixOf t = true ∧
      (Text.ofString entry.1).length = n := by
  obtain ⟨entry, found, ⟨⟩⟩ := Option.map_eq_some_iff.1 h
  have fits := List.find?_some found
  simp only [Bool.and_eq_true] at fits
  exact ⟨entry, List.mem_of_find?_eq_some found, rfl, fits.1, rfl⟩

theorem punctuators_literal : ∀ entry ∈ TokenKind.punctuators, entry.2 ∉ literalKinds := by decide

theorem reservedWords_literal : ∀ entry ∈ TokenKind.reservedWords, entry.2 ∉ literalKinds := by
  decide

/-- A punctuator is no literal. -/
theorem punctuator?_literal {t : Text} (h : punctuator? t = some (kind, n)) :
    kind ∉ literalKinds := by
  obtain ⟨entry, member, rfl, _⟩ := punctuator?_mem h
  exact punctuators_literal entry member

theorem punctuators_kind : ∀ entry ∈ TokenKind.punctuators,
    entry.2 ≠ .comment ∧ entry.2 ≠ .identifier ∧ entry.2.isReservedWord = false := by
  decide

/-- Comments, identifiers and reserved words are no other tokens. -/
theorem scan_token_kind (h : scan context first c rest = .ok (.token kind, n)) :
    kind ≠ .comment ∧ kind ≠ .identifier ∧ kind.isReservedWord = false := by
  rcases scan_eq_token h with literal | found
  · have literals : ∀ kind ∈ literalKinds,
        kind ≠ .comment ∧ kind ≠ .identifier ∧ kind.isReservedWord = false := by
      decide
    exact literals kind literal
  · obtain ⟨entry, member, rfl, _⟩ := punctuator?_mem found
    exact punctuators_kind entry member

/-- A name that is no identifier is a reserved word, without escapes. -/
theorem name_kind (name : Name) : name.kind = .identifier ∨ name.escaped = false ∧
    ∃ entry ∈ TokenKind.reservedWords, name.kind = entry.2 ∧
      name.spelling = Text.ofString entry.1 := by
  rw [Name.kind]
  split
  · exact .inl rfl
  · rename_i plain
    split
    · rename_i entry found
      exact .inr ⟨by simpa using plain, entry, List.mem_of_find?_eq_some found, rfl,
        by simpa using List.find?_some found⟩
    · exact .inl rfl

theorem reservedWords_kind : ∀ entry ∈ TokenKind.reservedWords,
    entry.2 ≠ .comment ∧ entry.2 ≠ .leftParen ∧ entry.2 ≠ .leftBrace ∧ entry.2 ≠ .comma ∧
      Text.ofString entry.1 ≠ Text.ofString "await" := by
  decide

/-- Comments are no tokens. -/
theorem scan_kind (h : scan context first c rest = .ok (lexeme, n)) :
    lexeme.kind? ≠ some .comment := by
  cases lexeme with
  | word kind text =>
    obtain ⟨_, found, _, rfl, _⟩ := scan_eq_word h
    rcases name_kind found with same | ⟨_, entry, member, same, _⟩
    · simp [kind?, same]
    · simpa [kind?, same] using (reservedWords_kind entry member).1
  | token kind => simpa [kind?] using (scan_token_kind h).1
  | _ => simp [kind?]

end Lexeme

namespace Item

/-- The tokens of items that are not at the end of a text, or those before its end. -/
def code (comments : CommentPolicy) : LexContext → Location → List Item → List Token
  | _, _, [] => []
  | context, here, item :: items =>
    let there := here.advance item.written (textOf items)
    (item.token? comments context ⟨here, there⟩).toList ++
      code comments (context.behind item) there items

theorem tokens_eq (comments : CommentPolicy) (context : LexContext) (here : Location)
    (items : List Item) : ∃ stop newline, stop.offset = here.offset + (textOf items).length ∧
      tokens comments context here items =
        code comments context here items ++ [⟨.endOfInput, [], ⟨stop, stop⟩, newline⟩] := by
  induction items generalizing context here with
  | nil => exact ⟨here, context.newline, rfl, rfl⟩
  | cons item items ih =>
    obtain ⟨stop, newline, place, same⟩ :=
      ih (context.behind item) (here.advance item.written (textOf items))
    refine ⟨stop, newline, ?_, ?_⟩
    · rw [place, Location.advance_offset, textOf_cons, List.length_append]
      omega
    · rw [tokens, code, same, List.append_assoc]

end Item

/-- Tokens stand one behind the other between two offsets. -/
def Token.Ordered (stop : Nat) : Nat → List Token → Prop
  | start, [] => start ≤ stop
  | start, token :: later =>
    start ≤ token.start.offset ∧ token.start.offset < token.stop.offset ∧
      Ordered stop token.stop.offset later

namespace Token.Ordered

variable {start stop : Nat}

theorem mono {start' : Nat} (h : Ordered stop start taken) (le : start' ≤ start) :
    Ordered stop start' taken := by
  cases taken with
  | nil => exact Nat.le_trans le h
  | cons token later => exact ⟨Nat.le_trans le h.1, h.2⟩

theorem start_le (h : Ordered stop start taken) : start ≤ stop := by
  induction taken generalizing start with
  | nil => exact h
  | cons token later ih =>
    have := ih h.2.2
    have := h.1
    have := h.2.1
    omega

theorem mono_stop {stop' : Nat} (h : Token.Ordered stop start taken) (le : stop ≤ stop') :
    Token.Ordered stop' start taken := by
  induction taken generalizing start with
  | nil => exact Nat.le_trans h le
  | cons token later ih => exact ⟨h.1, h.2.1, ih h.2.2⟩

/-- Where some tokens stop others go on. -/
theorem of_append {second : List Token} (h : Token.Ordered stop start (taken ++ second)) :
    ∃ between, Token.Ordered between start taken ∧ Token.Ordered stop between second := by
  induction taken generalizing start with
  | nil => exact ⟨start, Nat.le_refl start, h⟩
  | cons token later ih =>
    obtain ⟨between, first, rest⟩ := ih h.2.2
    exact ⟨between, ⟨h.1, h.2.1, first⟩, rest⟩

/-- A stretch of tokens in order is in order. -/
theorem of_infix {own : List Token} (h : Token.Ordered stop start taken) (inside : own <:+: taken) :
    Token.Ordered stop start own := by
  obtain ⟨front, back, rfl⟩ := inside
  obtain ⟨between, first, later⟩ := h.of_append
  obtain ⟨start', before, own⟩ := first.of_append
  exact (own.mono_stop later.start_le).mono before.start_le

theorem mem {token : Token} (h : Token.Ordered stop start taken) (member : token ∈ taken) :
    start ≤ token.start.offset ∧ token.start.offset < token.stop.offset ∧
      token.stop.offset ≤ stop := by
  induction taken generalizing start with
  | nil => cases member
  | cons first later ih =>
    obtain ⟨starts, ranged, rest⟩ := h
    rcases List.mem_cons.1 member with rfl | member
    · exact ⟨starts, ranged, rest.start_le⟩
    · have := ih rest member
      omega

end Token.Ordered

namespace Item

theorem token?_span {span : Span} {item : Item} {token : Token}
    (h : item.token? comments context span = some token) : token.span = span := by
  unfold token? at h
  repeat' split at h
  all_goals first
    | cases h; done
    | (cases h; rfl)

theorem code_ordered (nonempty : ∀ item ∈ items, item.written ≠ []) :
    Token.Ordered (here.offset + (textOf items).length) here.offset
      (code comments context here items) := by
  induction items generalizing context here with
  | nil => exact Nat.le_refl _
  | cons item items ih =>
    have later : Token.Ordered _ _ (code comments (context.behind item)
        (here.advance item.written (textOf items)) items) :=
      ih fun item member => nonempty item (List.mem_cons_of_mem _ member)
    have length := List.length_pos_iff.2 (nonempty item List.mem_cons_self)
    rw [Location.advance_offset, Nat.add_assoc, ← List.length_append, ← textOf_cons] at later
    rw [code]
    cases found : item.token? comments context
        ⟨here, here.advance item.written (textOf items)⟩ with
    | none => exact later.mono (Nat.le_add_right ..)
    | some token =>
      have span := token?_span found
      refine ⟨?_, ?_, ?_⟩
      · rw [Token.start, span]
      · rw [Token.start, Token.stop, span]
        simpa using length
      · rw [Token.stop, span, Location.advance_offset]
        exact later

/-- The tokens of a text stand in it. -/
theorem code_within (nonempty : ∀ item ∈ items, item.written ≠ []) :
    Token.Ordered (textOf items).length 0 (code comments .initial .origin items) := by
  have ordered : Token.Ordered (Location.origin.offset + _) _
      (code comments .initial .origin items) := code_ordered nonempty
  exact Nat.zero_add (textOf items).length ▸ ordered

/-- No token is a comment where these are skipped. -/
theorem code_kind (reads : Reads context first items tail context') :
    ∀ token ∈ code .skip context here items, token.kind ≠ .comment := by
  induction items generalizing context here first with
  | nil => simp [code]
  | cons item items ih =>
    cases reads with
    | @cons _ _ _ lexeme c rest _ _ scanned reads =>
      intro token member
      rcases List.mem_append.1 member with member | member
      · have kind := Lexeme.scan_kind scanned
        cases lexeme <;> simp [token?] at member <;> subst member <;> simpa [Lexeme.kind?] using kind
      · exact ih reads token member

end Item

/-- What a token is written as in its source. -/
def Token.writtenIn (source : Text) (token : Token) : Text :=
  (source.take token.stop.offset).drop token.start.offset

/-- The identifiers of a source are written as they are spelled, without escapes. -/
def Text.Unescaped (source : Text) : Prop :=
  ∀ tokens, tokenize .skip source = .ok tokens →
    ∀ token ∈ tokens, token.kind = .identifier → token.text = token.writtenIn source

/-- The identifiers among some items are written as they are spelled. -/
def Item.Plain (items : List Item) : Prop :=
  ∀ item ∈ items, ∀ text, item.lexeme = .word .identifier text → item.written = text

/-- Where an item ends the text before the next one does. -/
theorem Item.place_append {before : Text} (item : Item) (items : List Item)
    (place : here.offset = before.length) :
    (here.advance item.written (textOf items)).offset = (before ++ item.written).length := by
  rw [Location.advance_offset, place, List.length_append]

/-- An item is written where its token stands. -/
theorem Item.writtenIn_eq {before : Text} {item : Item} {token : Token}
    (place : here.offset = before.length)
    (span : token.span = ⟨here, here.advance item.written (textOf items)⟩) :
    token.writtenIn (before ++ textOf (item :: items)) = item.written := by
  rw [Token.writtenIn, Token.start, Token.stop, span, Location.advance_offset, place, textOf_cons,
    List.take_append, List.drop_append_of_le_length (by simp)]
  simp

/-- A token before the end of a text is a lexeme in front of what is left of the text. -/
theorem Item.exists_scan {before : Text} (place : here.offset = before.length)
    (reads : Reads context first items [] context') :
    ∀ token ∈ code comments context here items, ∃ front c written tail lexeme own opening,
      before ++ textOf items = front ++ (c :: written ++ tail) ∧
        token.start.offset = front.length ∧ token.stop.offset = (front ++ c :: written).length ∧
        Lexeme.scan own opening c (written ++ tail) = .ok (lexeme, written.length) ∧
        token? comments own token.span ⟨lexeme, c :: written⟩ = some token := by
  induction items generalizing context here first before with
  | nil => simp [code]
  | cons item items ih =>
    have place' := place_append item items place
    cases reads with
    | @cons _ _ _ lexeme c w _ _ scanned later =>
    refine List.forall_mem_append.2 ⟨fun token member => ?_, ?_⟩
    · have found := Option.mem_toList.1 member
      have span := token?_span found
      rw [List.append_nil] at scanned
      refine ⟨before, c, w, textOf items, lexeme, context, first, rfl, ?_, ?_, scanned, span ▸ found⟩
      · rw [Token.start, span, place]
      · rw [Token.stop, span, place']
    · rw [textOf_cons, ← List.append_assoc]
      exact ih place' later

/-- A token of a source before its end is a lexeme in front of what follows it there. -/
theorem Token.exists_scan {source : Text} {read : List Token} {token : Token}
    (accepted : tokenize comments source = .ok read) (member : token ∈ read)
    (before : token.kind ≠ .endOfInput) : ∃ c written lexeme own opening,
      token.writtenIn source = c :: written ∧
        Lexeme.scan own opening c (written ++ source.drop token.stop.offset) =
          .ok (lexeme, written.length) ∧
        Item.token? comments own token.span ⟨lexeme, c :: written⟩ = some token := by
  obtain ⟨items, _, rfl, reads, _, rfl⟩ := Token.exists_reads accepted
  obtain ⟨stop, newline, _, same⟩ := Item.tokens_eq comments .initial .origin items
  have inside : token ∈ Item.code comments .initial .origin items := by
    rw [same] at member
    exact (List.mem_append.1 member).resolve_right fun last =>
      before (congrArg Token.kind (List.mem_singleton.1 last))
  have origin : Location.origin.offset = ([] : Text).length := rfl
  obtain ⟨front, c, written, tail, lexeme, own, opening, split, starts, stops, scanned, found⟩ :=
    Item.exists_scan origin reads token inside
  rw [List.nil_append] at split
  refine ⟨c, written, lexeme, own, opening, ?_, ?_, found⟩
  · rw [Token.writtenIn, split, starts, stops, ← List.append_assoc, List.take_left, List.drop_left]
  · rwa [split, stops, ← List.append_assoc, List.drop_left]

/-- Items are written as they are spelled if their tokens are. -/
theorem Item.plain_of_code {before : Text} (place : here.offset = before.length)
    (h : ∀ token ∈ code .skip context here items, token.kind = .identifier →
      token.text = token.writtenIn (before ++ textOf items)) : Item.Plain items := by
  induction items generalizing context here before with
  | nil => simp [Item.Plain]
  | cons item items ih =>
    refine List.forall_mem_cons.2 ⟨fun text word => ?_, ?_⟩
    · have member : ⟨.identifier, text, ⟨here, here.advance item.written (textOf items)⟩,
          context.newline⟩ ∈ code .skip context here (item :: items) := by
        simp [code, token?, word]
      exact (writtenIn_eq place rfl).symm.trans (h _ member rfl).symm
    · refine @ih (context.behind item) _ _ (place_append item items place) fun token member kind => ?_
      rw [List.append_assoc]
      exact h token (List.mem_append_right _ member) kind

/-- An item is a lexeme of some text. -/
def Item.IsRead (item : Item) : Prop :=
  ∃ context first c rest t, item.written = c :: rest ∧
    Lexeme.scan context first c (rest ++ t) = .ok (item.lexeme, rest.length)

theorem Reads.isRead (reads : Reads context first items tail context') :
    ∀ item ∈ items, item.IsRead := by
  induction reads with
  | nil => simp
  | cons scanned _ ih => exact List.forall_mem_cons.2 ⟨⟨_, _, _, _, _, rfl, scanned⟩, ih⟩

/-- Every token is that of an item. -/
theorem Item.exists_item {token : Token} (member : token ∈ code comments context here items) :
    ∃ item ∈ items, ∃ context span, item.token? comments context span = some token := by
  induction items generalizing context here with
  | nil => cases member
  | cons item items ih =>
    rcases List.mem_append.1 member with here | later
    · exact ⟨item, List.mem_cons_self, _, _, by simpa using here⟩
    · obtain ⟨other, inside, found⟩ := ih later
      exact ⟨other, List.mem_cons_of_mem _ inside, found⟩

/-- An identifier is a word. -/
theorem Item.IsRead.word {item : Item} {token : Token} {span : Span} (read : item.IsRead)
    (h : item.token? .skip context span = some token) (kind : token.kind = .identifier) :
    item.lexeme = .word .identifier token.text := by
  obtain ⟨lexeme, written⟩ := item
  obtain ⟨_, _, _, _, _, _, scanned⟩ := read
  cases lexeme with
  | word => cases h; rw [← kind]
  | token own => cases h; exact absurd kind (Lexeme.scan_token_kind scanned).2.1
  | _ => cases h

/-- A reserved word is a word without escapes. -/
theorem Item.IsRead.reserved {item : Item} {token : Token} {span : Span} (read : item.IsRead)
    (h : item.token? .skip context span = some token) (kind : token.kind.isReservedWord = true) :
    item.lexeme = .word token.kind token.text ∧ item.written.startsWord = true ∧
      token.text ≠ Text.ofString "await" := by
  obtain ⟨lexeme, written⟩ := item
  obtain ⟨_, _, c, rest, t, rfl, scanned⟩ := read
  cases lexeme with
  | word own text =>
    cases h
    obtain ⟨front, found, read, same, spelling, _⟩ := Lexeme.scan_eq_word scanned
    rcases Lexeme.name_kind found with other | ⟨unescaped, entry, member, _, spelled⟩
    · rw [← same, other] at kind
      cases kind
    · have bare : c ≠ '\\' := by
        rintro rfl
        rw [Lexeme.name_escaped read] at unescaped
        cases unescaped
      have start : c.isIdentifierStart = true := front.resolve_right bare
      refine ⟨rfl, by simp [Text.startsWord, start], ?_⟩
      rw [← spelling, spelled]
      exact (Lexeme.reservedWords_kind entry member).2.2.2.2
  | token own =>
    cases h
    rw [(Lexeme.scan_token_kind scanned).2.2] at kind
    cases kind
  | _ => cases h

/-- A parenthesis or a comma is no word. -/
theorem Item.IsRead.mark {item : Item} {token : Token} {span : Span} (read : item.IsRead)
    (h : item.token? .skip context span = some token)
    (kind : token.kind = .leftParen ∨ token.kind = .comma) : item.lexeme = .token token.kind := by
  obtain ⟨lexeme, written⟩ := item
  obtain ⟨_, _, c, rest, t, _, scanned⟩ := read
  cases lexeme with
  | word own text =>
    cases h
    obtain ⟨_, found, _, rfl, _⟩ := Lexeme.scan_eq_word scanned
    rcases Lexeme.name_kind found with other | ⟨_, entry, member, same, _⟩
    · simp [other] at kind
    · have plain := Lexeme.reservedWords_kind entry member
      simp only [same] at kind
      exact absurd kind (not_or.2 ⟨plain.2.1, plain.2.2.2.1⟩)
  | token own => cases h; rfl
  | _ => cases h

/-- An identifier that is written as it is spelled is a name. -/
theorem Item.IsRead.isName {item : Item} {text : Text} (read : item.IsRead)
    (word : item.lexeme = .word .identifier text) (plain : item.written = text) :
    text.IsName := by
  obtain ⟨lexeme, written⟩ := item
  obtain rfl : lexeme = .word .identifier text := word
  obtain ⟨_, _, c, rest, _, rfl, scanned⟩ := read
  obtain rfl : c :: rest = text := plain
  exact (Lexeme.isName_of_scan scanned).1

theorem Reads.written_ne_nil (reads : Reads context first items tail context') :
    ∀ item ∈ items, item.written ≠ [] := by
  induction reads with
  | nil => simp
  | cons _ _ ih => simpa using ih

end Uncurry
