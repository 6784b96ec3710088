import Uncurry.Proofs.Lexical.Endings

/-!
# The layout of a source does not matter

The tokens of a source can be written anew, each behind a line feed if a line terminator stood
before it and behind a space if not. The text has the same tokens then.
-/
namespace Uncurry

open CodePoint

/-- What is known of a token but its place. -/
def Token.content (token : Token) : TokenKind × Text × Bool :=
  (token.kind, token.text, token.newlineBefore)

/-- What is written in front of a token, behind another one or at the start of a text. -/
def Token.separator (started newline : Bool) : Text :=
  if newline then [ofChar '\n'] else if started then [ofChar ' '] else []

/-- The tokens of a source as they are written there, with a separator in front of each. -/
def Token.respaced (source : Text) (started : Bool) : List Token → Text
  | [] => []
  | token :: later =>
    separator started token.newlineBefore ++ (token.writtenIn source ++ respaced source true later)

namespace Item

/-- Whether a line terminator stands in what is no token. -/
def breaks (item : Item) : Bool :=
  match item.lexeme with
  | .newline => true
  | .comment => item.written.any isLineTerminator
  | _ => false

/-- The text of the tokens among some items, with a separator in front of each and at the end. -/
def respaced (started newline : Bool) : List Item → Text
  | [] => Token.separator started newline
  | item :: items =>
    if item.isTrivia then respaced started (newline || item.breaks) items
    else Token.separator started newline ++ (item.written ++ respaced true false items)

theorem spaced_separator (newline : Bool) (t : Text) :
    Text.Spaced (Token.separator true newline ++ t) := by
  cases newline with
  | true => exact ⟨_, t, rfl, .inr rfl⟩
  | false => exact ⟨_, t, rfl, .inl rfl⟩

/-- Behind a token there is a space in any case. -/
theorem spaced_respaced (newline : Bool) (items : List Item) :
    Text.Spaced (respaced true newline items) := by
  induction items generalizing newline with
  | nil => simpa [respaced] using spaced_separator newline []
  | cons item items ih =>
    rw [respaced]
    split
    · exact ih _
    · exact spaced_separator newline _

end Item

variable {context context' : LexContext} {first first' : Bool} {items : List Item}

theorem LexContext.behind_trivia {item : Item} (trivia : item.isTrivia = true) :
    context.behind item = { context with newline := context.newline || item.breaks } := by
  obtain ⟨lexeme, written⟩ := item
  cases lexeme with
  | blank => simp [behind, Item.breaks]
  | newline => simp [behind, Item.breaks, afterNewline]
  | comment =>
    cases breaks : written.any isLineTerminator <;>
      simp [behind, Item.breaks, breaks, afterNewline]
  | word => cases trivia
  | token => cases trivia

namespace Item

/-- An item is no token, or it is one that tells whether a line terminator was passed, and none is
passed behind it. -/
theorem token?_skip (context : LexContext) (span : Span) (item : Item) :
    item.isTrivia = true ∧ item.token? .skip context span = none ∨
      item.isTrivia = false ∧ (context.behind item).newline = false ∧
        ∃ token, item.token? .skip context span = some token ∧
          token.newlineBefore = context.newline := by
  obtain ⟨lexeme, written⟩ := item
  cases lexeme with
  | blank => exact .inl ⟨rfl, rfl⟩
  | newline => exact .inl ⟨rfl, rfl⟩
  | comment => exact .inl ⟨rfl, rfl⟩
  | word kind text => exact .inr ⟨rfl, rfl, _, rfl, rfl⟩
  | token kind => exact .inr ⟨rfl, rfl, _, rfl, rfl⟩

/-- What is known of the tokens of some items but their places. -/
def contents : LexContext → List Item → List (TokenKind × Text × Bool)
  | context, [] => [(.endOfInput, [], context.newline)]
  | context, item :: items =>
    ((item.token? .skip context default).map Token.content).toList ++
      contents (context.behind item) items

theorem content_tokens (context : LexContext) (here : Location) (items : List Item) :
    (tokens .skip context here items).map Token.content = contents context items := by
  induction items generalizing context here with
  | nil => rfl
  | cons item items ih =>
    obtain ⟨lexeme, written⟩ := item
    rw [tokens, contents, List.map_append, ih]
    cases lexeme <;> rfl

/-- Of what is no token only the line terminators in it are known. -/
theorem contents_trivia {item : Item} (trivia : item.isTrivia = true) :
    contents context (item :: items) =
      contents { context with newline := context.newline || item.breaks } items := by
  rcases token?_skip context default item with ⟨_, none⟩ | ⟨counts, _⟩
  · rw [contents, none, LexContext.behind_trivia trivia]
    rfl
  · exact absurd trivia (by simp [counts])

end Item

/-- A text is read as tokens that are given but for their places, up to a context with given
enclosures. -/
def Text.ReadsAs (text : Text) (context : LexContext) (first : Bool)
    (contents : List (TokenKind × Text × Bool)) (enclosures : List Enclosure) : Prop :=
  ∃ items context', Item.textOf items = text ∧ Reads context first items [] context' ∧
    Item.contents context items = contents ∧ context'.enclosures = enclosures

namespace Text.ReadsAs

variable {text : Text} {contents : List (TokenKind × Text × Bool)} {enclosures : List Enclosure}

/-- A character that is no token may stand in front. -/
theorem layout {lexeme : Lexeme} {c : CodePoint}
    (scanned : Lexeme.scan context first c text = .ok (lexeme, 0)) (trivia : lexeme.kind? = none)
    (h : text.ReadsAs (context.behind ⟨lexeme, [c]⟩) false contents enclosures) :
    ReadsAs (c :: text) context first contents enclosures := by
  obtain ⟨items, context', rfl, reads, known, same⟩ := h
  have isTrivia : Item.isTrivia ⟨lexeme, [c]⟩ = true := by rw [Item.isTrivia, trivia]; rfl
  refine ⟨⟨lexeme, [c]⟩ :: items, context', rfl, .cons ?_ reads, ?_, same⟩
  · simpa using scanned
  · rw [Item.contents_trivia isTrivia, ← LexContext.behind_trivia isTrivia, known]

/-- A separator leads from a context without line terminators to one with those it stands for. -/
theorem separator (started : Bool)
    (h : text.ReadsAs context (first && (Token.separator started context.newline).isEmpty) contents
      enclosures) :
    ReadsAs (Token.separator started context.newline ++ text) { context with newline := false }
      first contents enclosures := by
  obtain ⟨newline, last, lastText, beforeLast, statementMayStart, parens, braces⟩ := context
  cases newline with
  | true =>
    rw [show (Token.separator started true).isEmpty = false from rfl, Bool.and_false] at h
    exact layout (Lexeme.scan_newline (by decide)) rfl h
  | false =>
    cases started with
    | true =>
      rw [show (Token.separator true false).isEmpty = false from rfl, Bool.and_false] at h
      exact layout (Lexeme.scan_blank (by decide) (by decide)) rfl h
    | false =>
      rw [show (Token.separator false false).isEmpty = true from rfl, Bool.and_true] at h
      exact h

/-- A token behind which the layout changes is read as before, with a space perhaps that ends the
text. -/
theorem token {lexeme : Lexeme} {c : CodePoint} {rest : Text} (first' : Bool)
    (counts : lexeme.kind? ≠ none)
    (h : Reads context first (⟨lexeme, c :: rest⟩ :: items) [] context')
    (later : ReadsAs (Item.respaced true false items) (context.behind ⟨lexeme, c :: rest⟩) false
      (Item.contents (context.behind ⟨lexeme, c :: rest⟩) items) context'.enclosures) :
    ReadsAs (c :: rest ++ Item.respaced true false items) context first'
      (Item.contents context (⟨lexeme, c :: rest⟩ :: items)) context'.enclosures := by
  have spaced := Item.spaced_respaced false items
  have whole (scanned : Lexeme.scan context first' c (rest ++ Item.respaced true false items) =
        .ok (lexeme, rest.length)) :
      ReadsAs (c :: rest ++ Item.respaced true false items) context first'
        (Item.contents context (⟨lexeme, c :: rest⟩ :: items)) context'.enclosures := by
    obtain ⟨items', after, text, reads, known, same⟩ := later
    refine ⟨⟨lexeme, c :: rest⟩ :: items', after, by rw [Item.textOf_cons, text], .cons ?_ reads, ?_,
      same⟩
    · rwa [text, List.append_nil]
    · rw [Item.contents, known]
      rfl
  have nonempty := (List.forall_mem_cons.1 h.written_ne_nil).2
  cases h with
  | cons scanned reads =>
  cases lexeme with
  | blank => exact absurd rfl counts
  | newline => exact absurd rfl counts
  | comment => exact absurd rfl counts
  | token kind => exact whole (Lexeme.scan_token_spaced scanned spaced rfl rfl)
  | word kind spelling =>
    rcases Lexeme.scan_word_spaced scanned spaced with again | ⟨empty, cut⟩
    · exact whole again
    · obtain rfl : items = [] := by
        cases items with
        | nil => rfl
        | cons item items =>
          have none := List.append_eq_nil_iff.1 (List.append_eq_nil_iff.1 empty).1
          exact absurd none.1 (nonempty item List.mem_cons_self)
      cases reads
      refine ⟨[⟨.word kind spelling, c :: (rest ++ [ofChar ' '])⟩], _, ?_, .cons ?_ (.nil ..), rfl,
        rfl⟩
      · simp [Item.respaced, Token.separator]
      · simpa using cut

end Text.ReadsAs

/-- Items whose layout was changed are read as the same tokens. -/
theorem Reads.respaced (h : Reads context first items [] context') (started first' : Bool) :
    (Item.respaced started context.newline items).ReadsAs { context with newline := false } first'
      (Item.contents context items) context'.enclosures := by
  induction items generalizing context first started first' with
  | nil =>
    cases h
    simpa [Item.respaced] using Text.ReadsAs.separator started ⟨[], _, rfl, .nil .., rfl, rfl⟩
  | cons item items ih =>
    cases trivia : item.isTrivia with
    | true =>
      cases h with
      | cons scanned later =>
      rw [Item.respaced, if_pos trivia, Item.contents_trivia trivia]
      have again := ih later started first'
      rwa [LexContext.behind_trivia trivia] at again
    | false =>
      rw [Item.respaced, if_neg (by simp [trivia])]
      refine .separator started ?_
      have whole := h
      cases h with
      | @cons _ _ _ lexeme c rest _ _ scanned later =>
      have counts : lexeme.kind? ≠ none := by
        intro none
        rw [Item.isTrivia, none] at trivia
        cases trivia
      refine .token _ counts whole ?_
      have again := ih later true false
      cases lexeme with
      | blank => exact absurd rfl counts
      | newline => exact absurd rfl counts
      | comment => exact absurd rfl counts
      | token => exact again
      | word => exact again

/-- The tokens of some items are written anew as the items are. -/
theorem Item.respaced_tokens {before : Text} {here : Location} (place : here.offset = before.length)
    (context : LexContext) (started : Bool) (items : List Item) :
    Token.respaced (before ++ textOf items) started (tokens .skip context here items) =
      respaced started context.newline items := by
  induction items generalizing context here before started with
  | nil => simp [tokens, Token.respaced, respaced, Token.writtenIn, Token.start, Token.stop, place]
  | cons item items ih =>
    have later (context : LexContext) (started : Bool) :=
      ih (place_append item items place) context started
    rw [List.append_assoc, ← textOf_cons] at later
    rw [tokens, respaced]
    rcases token?_skip context ⟨here, here.advance item.written (textOf items)⟩ item with
      ⟨trivia, none⟩ | ⟨counts, settled, token, found, newline⟩
    · rw [none, if_pos trivia, Option.toList_none, List.nil_append, later,
        LexContext.behind_trivia trivia]
    · rw [found, if_neg (by simp [counts]), Option.toList_some, List.singleton_append,
        Token.respaced, later, settled, newline, writtenIn_eq place (token?_span found)]

/-- The tokens of a source written anew are read as the same tokens at other places. -/
theorem tokenize_respaced {source : Text} {tokens : List Token}
    (accepted : tokenize .skip source = .ok tokens) :
    ∃ tokens', tokenize .skip (Token.respaced source false tokens) = .ok tokens' ∧
      tokens'.map Token.content = tokens.map Token.content := by
  obtain ⟨items, context', rfl, reads, closed, rfl⟩ := Token.exists_reads accepted
  have text := @Item.respaced_tokens [] .origin rfl .initial false items
  rw [List.nil_append] at text
  obtain ⟨items', context'', written, reads', known, same⟩ := reads.respaced false true
  refine ⟨Item.tokens .skip .initial .origin items', ?_, ?_⟩
  · rw [text, tokenize]
    refine written ▸ Token.readFrom_of_reads reads' ?_
    rw [LexContext.insideTemplate, same]
    exact closed
  · rw [Item.content_tokens, Item.content_tokens]
    exact known

end Uncurry
