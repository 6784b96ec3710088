import Uncurry.Proofs.Lexical.Respacing

/-!
# Slashes behind the names of properties

What a slash is depends on the token before it, and behind a closing parenthesis on what stood
before the one that it closes. Neither asks whether a reserved word there is the name of a property.
`slash_behind_property` says behind which names a slash divides, and `regex_behind_property` that
behind the others it does not.
-/
namespace Uncurry

variable {context other : LexContext} {here : Location} {first : Bool} {items : List Item}
  {source before : Text} {token : Token} {front back tokens : List Token} {kind : TokenKind}

/-- The context behind some tokens. -/
def LexContext.behindTokens (context : LexContext) (tokens : List Token) : LexContext :=
  tokens.foldl (fun context token => context.after token.kind token.text) context

/-- A token is read off the front of what is left of a source where a context, as far as it has a
say in this, is the given one. -/
def Token.ReadIn (source : Text) (context : LexContext) (token : Token) : Prop :=
  ∃ same first c rest t lexeme, context.Agrees same ∧
    Lexeme.scan same first c (rest ++ t) = .ok (lexeme, rest.length) ∧
    lexeme.kind? = some token.kind ∧ token.writtenIn source = c :: rest

/-- Every token is read in the context behind the tokens before it. -/
theorem Item.readIn_code {context' : LexContext} (place : here.offset = before.length)
    (reads : Reads context first items [] context') (agrees : other.Agrees context)
    (split : code .skip context here items = front ++ token :: back) :
    token.ReadIn (before ++ textOf items) (other.behindTokens front) := by
  induction items generalizing context other here first front before with
  | nil => simp [code] at split
  | cons item items ih =>
    obtain ⟨c, rest, written, scanned, later⟩ := reads.of_cons
    have place' := place_append item items place
    rw [textOf_cons, ← List.append_assoc]
    rw [code] at split
    cases found : item.token? .skip context ⟨here, here.advance item.written (textOf items)⟩ with
    | none =>
      -- Only the line terminators that were passed make a difference behind layout.
      have trivia : item.isTrivia = true := by
        obtain ⟨lexeme, _⟩ := item
        cases lexeme <;> first | rfl | cases found
      rw [found] at split
      refine ih place' later ?_ split
      rw [LexContext.behind_trivia trivia]
      exact agrees.newline other.newline _
    | some own =>
      rw [found] at split
      have behind : context.behind item = context.after own.kind own.text ∧
          item.lexeme.kind? = some own.kind := by
        obtain ⟨lexeme, _⟩ := item
        cases lexeme <;> cases found <;> exact ⟨rfl, rfl⟩
      cases front with
      | nil =>
        obtain ⟨rfl, _⟩ := List.cons.inj split
        refine ⟨context, first, c, rest, _, item.lexeme, agrees, scanned, behind.2, ?_⟩
        rw [List.append_assoc, ← textOf_cons, writtenIn_eq place (token?_span found), written]
      | cons own' front =>
        obtain ⟨rfl, split'⟩ := List.cons.inj split
        refine @ih _ (other.after own.kind own.text) _ _ _ _ place' later ?_ split'
        rw [behind.1]
        exact agrees.after own.kind own.text

namespace Lexeme

variable {c : CodePoint} {rest : Text} {lexeme : Lexeme} {n : Nat}

/-- The kinds of tokens that start with a slash. -/
def slashKinds : List TokenKind := [.regex, .slash, .slashAssign]

theorem punctuators_slash : ∀ entry ∈ TokenKind.punctuators,
    (entry.2 = .slash ∨ entry.2 = .slashAssign ↔
      (Text.ofString entry.1).head? = some (CodePoint.ofChar '/')) ∧ entry.2 ≠ .regex := by
  decide

/-- A punctuator starts with a slash just if it is a division. -/
theorem punctuator?_slash (h : punctuator? (c :: rest) = some (kind, n)) :
    (kind = .slash ∨ kind = .slashAssign ↔ c = '/') ∧ kind ≠ .regex := by
  obtain ⟨entry, member, rfl, front, _⟩ := punctuator?_mem h
  obtain ⟨slash, other⟩ := punctuators_slash entry member
  refine ⟨slash.trans ?_, other⟩
  have nonempty := punctuators_nonempty entry member
  cases spelling : Text.ofString entry.1 with
  | nil => simp [spelling] at nonempty
  | cons d later =>
    rw [spelling] at front
    obtain ⟨rfl, _⟩ := List.cons_prefix_cons.1 (List.isPrefixOf_iff_prefix.1 front)
    simp

theorem reservedWords_slash : ∀ entry ∈ TokenKind.reservedWords, entry.2 ∉ slashKinds := by
  decide

/-- The tokens that start with a slash are regular expressions, where one may start, and
divisions elsewhere. -/
theorem scan_slash (h : scan context first c rest = .ok (lexeme, n))
    (token : lexeme.kind? = some kind) : (c = '/' ↔ kind ∈ slashKinds) ∧
      (kind = .regex → context.regexMayStart = true) ∧
      (kind = .slash ∨ kind = .slashAssign → context.regexMayStart = false) := by
  have plain (distinct : c ≠ '/') (other : kind ∉ slashKinds) : (c = '/' ↔ kind ∈ slashKinds) ∧
      (kind = .regex → context.regexMayStart = true) ∧
      (kind = .slash ∨ kind = .slashAssign → context.regexMayStart = false) := by
    refine ⟨iff_of_false distinct other, fun same => absurd ?_ other, fun same => absurd ?_ other⟩
    · simp [slashKinds, same]
    · rcases same with rfl | rfl <;> decide
  cases scanned_of_scan h with
  | hashbang | newline | blank | lineComment | blockComment | markupComment => cases token
  | string quote => cases token; exact plain (by rcases quote with rfl | rfl <;> decide) (by decide)
  | template opens | chunk opens =>
    subst opens
    cases token
    exact plain (by decide) (by cases ‹ChunkEnd› <;> decide)
  | number front found =>
    cases token
    refine plain ?_ (by rcases number_kind found with rfl | rfl <;> decide)
    have front := front.imp_right And.left
    rintro rfl
    revert front
    decide
  | word front =>
    cases token
    refine plain ?_ ?_
    · rintro rfl
      revert front
      decide
    · rename_i found _
      rcases name_kind found with same | ⟨_, entry, member, same, _⟩
      · rw [same]
        decide
      · rw [same]
        exact reservedWords_slash entry member
  | privateName hash => subst hash; cases token; exact plain (by decide) (by decide)
  | regex slash starts =>
    cases token
    exact ⟨iff_of_true slash (by decide), fun _ => starts, by simp⟩
  | punctuator divides _ found =>
    cases token
    obtain ⟨slash, other⟩ := punctuator?_slash found
    refine ⟨?_, fun same => absurd same other, fun same => ?_⟩
    · simp [← slash, slashKinds, other]
    · exact Bool.eq_false_iff.2 fun starts => divides ⟨slash.1 same, starts⟩

end Lexeme

/-- A token is no slash, or it is one that divides if it is said to, and else starts a regular
expression. -/
structure Token.SlashRead (source : Text) (divides : Bool) (token : Token) : Prop where
  slash : (token.writtenIn source).head? = some (CodePoint.ofChar '/') ↔
    token.kind ∈ Lexeme.slashKinds
  regex : token.kind = .regex → divides = false
  division : token.kind = .slash ∨ token.kind = .slashAssign → divides = true

theorem Token.ReadIn.slashRead (h : token.ReadIn source context) :
    token.SlashRead source (!context.regexMayStart) := by
  obtain ⟨same, first, c, rest, t, lexeme, agrees, scanned, kind, written⟩ := h
  obtain ⟨slash, regex, division⟩ := Lexeme.scan_slash scanned kind
  rw [← agrees.regexMayStart] at regex division
  refine ⟨?_, fun same => by simp [regex same], fun same => by simp [division same]⟩
  rw [written, List.head?_cons, Option.some.injEq]
  exact slash

/-- A slash is read as the tokens before it tell. -/
theorem tokenize_slashRead (accepted : tokenize .skip source = .ok (front ++ token :: back)) :
    token.SlashRead source (!(LexContext.initial.behindTokens front).regexMayStart) := by
  obtain ⟨items, context', rfl, reads, _, same⟩ := Token.exists_reads accepted
  obtain ⟨stop, newline, place, tokens⟩ := Item.tokens_eq .skip .initial .origin items
  rw [tokens] at same
  rcases List.eq_nil_or_concat back with rfl | ⟨back, final, rfl⟩
  · obtain ⟨_, last⟩ := List.append_inj' same rfl
    obtain rfl := (List.cons.inj last).1
    have empty :
        Token.writtenIn (Item.textOf items) ⟨.endOfInput, [], ⟨stop, stop⟩, newline⟩ = [] :=
      List.drop_eq_nil_of_le (by simp [Token.start, Token.stop])
    have plain : TokenKind.endOfInput ∉ Lexeme.slashKinds := by decide
    exact ⟨by simp [empty, plain], by simp, by simp⟩
  · have split : Item.code .skip .initial .origin items = front ++ token :: back := by
      rw [List.concat_eq_append, ← List.cons_append, ← List.append_assoc] at same
      exact (List.append_inj' same rfl).1.symm
    have origin : Location.origin.offset = ([] : Text).length := rfl
    exact (Item.readIn_code origin reads (.refl _) split).slashRead

/-- The names of properties behind which a slash divides: identifiers and the reserved words that
are operands themselves. -/
def operandNames : List TokenKind := [.identifier, .kwThis, .kwSuper, .kwTrue, .kwFalse, .kwNull]

/-- The names of properties whose argument list is taken for the head of a statement. -/
def headNames : List TokenKind := [.kwIf, .kwWhile, .kwFor, .kwWith]

/-- A token is the name of a property behind the token before it: an identifier or a reserved word
behind a point. -/
def Token.NamesProperty (point name : Token) : Prop :=
  (point.kind = .dot ∨ point.kind = .optionalChain) ∧
    (name.kind = .identifier ∨ name.kind.isReservedWord = true)

/-- Whether the parentheses among some tokens are all closed, and none besides them but those that
are open before. -/
def TokenKind.parensClosed : Nat → List TokenKind → Bool
  | opened, [] => opened = 0
  | opened, kind :: later =>
    match kind with
    | .leftParen => parensClosed (opened + 1) later
    | .rightParen => 0 < opened && parensClosed (opened - 1) later
    | _ => parensClosed opened later

namespace LexContext

theorem named_kind {kind : TokenKind} (named : kind = .identifier ∨ kind.isReservedWord = true) :
    endsOperand kind = operandNames.contains kind ∧ kind ≠ .rightParen ∧ kind ≠ .rightBrace ∧
      kind ≠ .leftParen := by
  cases kind <;> revert named <;> decide

/-- Behind the name of a property a slash divides if the name is an operand. -/
theorem regexMayStart_name {point name : Token} (h : point.NamesProperty name) :
    (context.behindTokens [point, name]).regexMayStart = !operandNames.contains name.kind := by
  obtain ⟨operand, paren, brace, _⟩ := named_kind h.2
  have closed : (context.behindTokens [point, name]).statementMayStart = false := by
    rw [behindTokens, List.foldl_cons, List.foldl_cons, List.foldl_nil, after_statementMayStart]
    split <;> first | contradiction | rfl
  rw [regexMayStart, closed, Bool.false_or, ← operand]
  rfl

/-- The argument list behind the name of a property is taken for the head of a statement if the
name is a word that such a head starts with. -/
theorem opensHead_name {point name : Token} (h : point.NamesProperty name) :
    (context.behindTokens [point, name]).opensHead = headNames.contains name.kind := by
  have await : decide ((context.after point.kind point.text).last = some .kwFor) = false := by
    rcases h.1 with same | same <;> rw [same] <;> rfl
  change ((context.after point.kind point.text).after name.kind name.text).opensHead = _
  rw [opensHead_after, await, Bool.false_and]
  cases name.kind <;> rfl

/-- Behind parentheses that are closed the same ones are open as before. -/
theorem parens_behindTokens {opened base : List Bool}
    (closed : TokenKind.parensClosed opened.length (tokens.map Token.kind) = true)
    (parens : context.parens = opened ++ base) : (context.behindTokens tokens).parens = base := by
  induction tokens generalizing context opened with
  | nil =>
    simp only [List.map_nil, TokenKind.parensClosed, decide_eq_true_eq,
      List.length_eq_zero_iff] at closed
    rw [behindTokens, List.foldl_nil, parens, closed, List.nil_append]
  | cons token tokens ih =>
    have after := context.after_parens token.kind token.text
    rw [List.map_cons] at closed
    unfold TokenKind.parensClosed at closed
    split at closed
    · rename_i kind
      exact @ih (context.after token.kind token.text) (context.opensHead :: opened) closed
        (by rw [after, kind, parens]; rfl)
    · rename_i kind
      rw [Bool.and_eq_true, decide_eq_true_eq] at closed
      obtain ⟨innermost, opened, rfl⟩ :=
        List.exists_cons_of_ne_nil (List.length_pos_iff.1 closed.1)
      exact @ih (context.after token.kind token.text) opened closed.2
        (by rw [after, kind, parens]; rfl)
    · refine @ih (context.after token.kind token.text) opened closed ?_
      rw [after, ← parens]
      split <;> first | contradiction | rfl

/-- Behind the argument list of a property a slash divides unless the list was taken for the head of
a statement. -/
theorem regexMayStart_close {opening close : Token} (opens : opening.kind = .leftParen)
    (inside : TokenKind.parensClosed 0 (tokens.map Token.kind) = true)
    (closes : close.kind = .rightParen) :
    (context.behindTokens (opening :: (tokens ++ [close]))).regexMayStart = context.opensHead := by
  have none : TokenKind.parensClosed ([] : List Bool).length (tokens.map Token.kind) = true :=
    inside
  have parens : ((context.after opening.kind opening.text).behindTokens tokens).parens =
      context.opensHead :: context.parens :=
    parens_behindTokens none (by rw [after_parens, opens]; rfl)
  have behind : context.behindTokens (opening :: (tokens ++ [close])) =
      ((context.after opening.kind opening.text).behindTokens tokens).after close.kind
        close.text := by
    simp only [behindTokens, List.foldl_cons, List.foldl_append, List.foldl_nil]
  rw [behind, closes, regexMayStart, after_statementMayStart, parens]
  exact Bool.or_false _

end LexContext

/-- Behind the name of a property a slash divides just if the name is an identifier or an operand;
behind the argument list of the property, just if the name is none of the words that the head of a
statement starts with. -/
theorem slash_behind_property {point name : Token} {after : List Token}
    (accepted : tokenize .skip source = .ok (front ++ point :: name :: after))
    (named : point.NamesProperty name) :
    (∀ next later, after = next :: later →
      next.SlashRead source (operandNames.contains name.kind)) ∧
    ∀ opening inside close next later, after = opening :: (inside ++ close :: next :: later) →
      opening.kind = .leftParen → TokenKind.parensClosed 0 (inside.map Token.kind) = true →
      close.kind = .rightParen →
      next.SlashRead source (!headNames.contains name.kind) := by
  have behind (tokens : List Token) :
      LexContext.initial.behindTokens (front ++ point :: name :: tokens) =
      ((LexContext.initial.behindTokens front).behindTokens [point, name]).behindTokens tokens := by
    simp only [LexContext.behindTokens, List.foldl_append, List.foldl_cons, List.foldl_nil]
  constructor
  · rintro next later rfl
    have split : tokenize .skip source = .ok ((front ++ [point, name]) ++ next :: later) := by
      simpa using accepted
    have read := tokenize_slashRead split
    rwa [behind [], LexContext.behindTokens, List.foldl_nil, LexContext.regexMayStart_name named,
      Bool.not_not] at read
  · rintro opening inside close next later rfl opens closed closes
    have split : tokenize .skip source =
        .ok ((front ++ point :: name :: opening :: (inside ++ [close])) ++ next :: later) := by
      simpa using accepted
    have read := tokenize_slashRead split
    rwa [behind, LexContext.regexMayStart_close opens closed closes,
      LexContext.opensHead_name named] at read

/-- A source in which a slash divides behind the argument list of a property whose name is a
reserved word. -/
def calledProperty : Text := Text.ofString "a?.catch((b), c) /d/ e"

theorem slash_behind_property_called : ∃ front point name opening inside close next after,
    tokenize .skip calledProperty =
        .ok (front ++ point :: name :: opening :: (inside ++ close :: next :: after)) ∧
      point.NamesProperty name ∧ name.kind = .kwCatch ∧ next.kind = .slash ∧
      next.SlashRead calledProperty true := by
  have read : (tokenize .skip calledProperty).toOption.any (fun tokens => tokens.map Token.kind =
      List.append [.identifier] (.optionalChain :: .kwCatch :: .leftParen ::
        List.append [.leftParen, .identifier, .rightParen, .comma, .identifier]
          [.rightParen, .slash, .identifier, .slash, .identifier, .endOfInput])) = true := by
    decide +kernel
  obtain ⟨tokens, found, kinds⟩ := (Option.any_eq_true _ _).1 read
  obtain ⟨front, tokens, rfl, _, kinds⟩ := List.map_eq_append_iff.1 (of_decide_eq_true kinds)
  obtain ⟨point, tokens, rfl, chain, kinds⟩ := List.map_eq_cons_iff.1 kinds
  obtain ⟨name, tokens, rfl, catching, kinds⟩ := List.map_eq_cons_iff.1 kinds
  obtain ⟨opening, tokens, rfl, opens, kinds⟩ := List.map_eq_cons_iff.1 kinds
  obtain ⟨inside, tokens, rfl, within, kinds⟩ := List.map_eq_append_iff.1 kinds
  obtain ⟨close, tokens, rfl, closes, kinds⟩ := List.map_eq_cons_iff.1 kinds
  obtain ⟨next, after, rfl, slash, _⟩ := List.map_eq_cons_iff.1 kinds
  have accepted := eq_ok_of_toOption found
  have named : point.NamesProperty name := ⟨.inr chain, .inr (by rw [catching]; decide)⟩
  have closed : TokenKind.parensClosed 0 (inside.map Token.kind) = true := by
    rw [within]
    decide
  have divides := (slash_behind_property accepted named).2 opening inside close next after rfl opens
    closed closes
  rw [catching] at divides
  exact ⟨front, point, name, opening, inside, close, next, after, accepted, named, catching, slash,
    divides⟩

/-- A source in which all slashes divide, the first two behind a property and the others behind the
argument list of one. -/
def reservedProperties : Text := Text.ofString "a.typeof /b/ c.if(d) /e/ f"

/-- Behind a property and behind the argument list of a property a regular expression is read. -/
theorem regex_behind_property :
    (∃ front point name next after,
      tokenize .skip reservedProperties = .ok (front ++ point :: name :: next :: after) ∧
        point.NamesProperty name ∧ next.kind = .regex) ∧
    ∃ front point name opening inside close next after,
      tokenize .skip reservedProperties =
          .ok (front ++ point :: name :: opening :: (inside ++ close :: next :: after)) ∧
        point.NamesProperty name ∧ opening.kind = .leftParen ∧
        TokenKind.parensClosed 0 (inside.map Token.kind) = true ∧ close.kind = .rightParen ∧
        next.kind = .regex := by
  have read : (tokenize .skip reservedProperties).toOption.any (fun tokens =>
      tokens.map Token.kind = List.append [.identifier] (.dot :: .kwTypeof :: .regex ::
        List.append [.identifier] (.dot :: .kwIf :: .leftParen ::
          List.append [.identifier] [.rightParen, .regex, .identifier, .endOfInput]))) = true := by
    decide +kernel
  obtain ⟨tokens, found, kinds⟩ := (Option.any_eq_true _ _).1 read
  obtain ⟨front, tokens, rfl, _, kinds⟩ := List.map_eq_append_iff.1 (of_decide_eq_true kinds)
  obtain ⟨point, tokens, rfl, dot, kinds⟩ := List.map_eq_cons_iff.1 kinds
  obtain ⟨name, tokens, rfl, typeof, kinds⟩ := List.map_eq_cons_iff.1 kinds
  obtain ⟨next, tokens, rfl, regex, kinds⟩ := List.map_eq_cons_iff.1 kinds
  obtain ⟨between, tokens, rfl, _, kinds⟩ := List.map_eq_append_iff.1 kinds
  obtain ⟨point', tokens, rfl, dot', kinds⟩ := List.map_eq_cons_iff.1 kinds
  obtain ⟨name', tokens, rfl, head, kinds⟩ := List.map_eq_cons_iff.1 kinds
  obtain ⟨opening, tokens, rfl, opens, kinds⟩ := List.map_eq_cons_iff.1 kinds
  obtain ⟨inside, tokens, rfl, within, kinds⟩ := List.map_eq_append_iff.1 kinds
  obtain ⟨close, tokens, rfl, closes, kinds⟩ := List.map_eq_cons_iff.1 kinds
  obtain ⟨next', after, rfl, regex', _⟩ := List.map_eq_cons_iff.1 kinds
  have accepted := eq_ok_of_toOption found
  refine ⟨⟨front, point, name, next, _, accepted, ⟨.inl dot, .inr (by rw [typeof]; decide)⟩, regex⟩,
    front ++ point :: name :: next :: between, point', name', opening, inside, close, next', after,
    by simpa using accepted, ⟨.inl dot', .inr (by rw [head]; decide)⟩, opens, ?_, closes, regex'⟩
  rw [within]
  decide

end Uncurry
