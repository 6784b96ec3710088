import Uncurry.Proofs.Lexical.Places

/-!
# Contexts in which the same is read

A context tells what slashes, braces and parentheses mean. Contexts that agree on this agree behind
every item again, and what is no token is read in front of every text that goes on in the same way.
-/
namespace Uncurry

namespace LexContext

/-- Two contexts give every character the same meaning, now and behind all tokens to come. -/
structure Agrees (context other : LexContext) : Prop where
  parens : context.parens = other.parens
  enclosures : context.enclosures = other.enclosures
  regexMayStart : context.regexMayStart = other.regexMayStart
  opensHead : context.opensHead = other.opensHead
  opensObject : context.opensObject = other.opensObject
  afterFor : context.last = some .kwFor ↔ other.last = some .kwFor

variable {context other : LexContext} {kind : TokenKind} {text text' : Text}

theorem Agrees.refl (context : LexContext) : context.Agrees context :=
  ⟨rfl, rfl, rfl, rfl, rfl, .rfl⟩

theorem Agrees.closesSubstitution (h : context.Agrees other) :
    other.closesSubstitution = context.closesSubstitution := by
  rw [LexContext.closesSubstitution, ← h.enclosures, LexContext.closesSubstitution]

/-- Line terminators do not matter. -/
theorem Agrees.newline (h : context.Agrees other) (newline newline' : Bool) :
    Agrees { context with newline := newline } { other with newline := newline' } :=
  ⟨h.parens, h.enclosures, h.regexMayStart, h.opensHead, h.opensObject, h.afterFor⟩

theorem after_parens (context : LexContext) (kind : TokenKind) (text : Text) :
    (context.after kind text).parens =
      match kind with
      | .leftParen => context.opensHead :: context.parens
      | .rightParen => context.parens.tail
      | _ => context.parens := rfl

theorem after_enclosures (context : LexContext) (kind : TokenKind) (text : Text) :
    (context.after kind text).enclosures =
      match kind with
      | .leftBrace => (if context.opensObject then .object else .block) :: context.enclosures
      | .rightBrace => context.enclosures.tail
      | .templateHead => .substitution :: context.enclosures
      | .templateMiddle => .substitution :: context.enclosures.tail
      | .templateTail => context.enclosures.tail
      | _ => context.enclosures := rfl

theorem after_statementMayStart (context : LexContext) (kind : TokenKind) (text : Text) :
    (context.after kind text).statementMayStart =
      match kind with
      | .rightParen => context.parens.headD false
      | .rightBrace => context.enclosures.head? != some .object
      | _ => false := rfl

theorem opensHead_after (context : LexContext) (kind : TokenKind) (text : Text) :
    (context.after kind text).opensHead =
      match some kind with
      | some TokenKind.kwIf | some TokenKind.kwWhile | some TokenKind.kwFor
      | some TokenKind.kwWith => true
      | _ => decide (context.last = some .kwFor) && decide (text = Text.ofString "await") := rfl

/-- Behind a token contexts agree if the same brackets are open and the token is not told apart. -/
theorem agrees_after (parens : context.parens = other.parens)
    (enclosures : context.enclosures = other.enclosures)
    (head : kind = .leftParen → context.opensHead = other.opensHead)
    (object : kind = .leftBrace → context.opensObject = other.opensObject)
    (loop : text = Text.ofString "await" →
      (context.last = some .kwFor ↔ other.last = some .kwFor)) :
    (context.after kind text).Agrees (other.after kind text) := by
  have parens' : (context.after kind text).parens = (other.after kind text).parens := by
    rw [after_parens, after_parens, parens]
    split
    · rw [head rfl]
    · rfl
    · rfl
  have enclosures' : (context.after kind text).enclosures = (other.after kind text).enclosures := by
    rw [after_enclosures, after_enclosures, enclosures]
    split
    · rw [object rfl]
    all_goals rfl
  have starts : (context.after kind text).statementMayStart =
      (other.after kind text).statementMayStart := by
    rw [after_statementMayStart, after_statementMayStart, parens, enclosures]
  have awaits : (decide (context.last = some .kwFor) && decide (text = Text.ofString "await")) =
      (decide (other.last = some .kwFor) && decide (text = Text.ofString "await")) := by
    by_cases await : text = Text.ofString "await"
    · simp [loop await]
    · simp [await]
  refine ⟨parens', enclosures', ?_, ?_, ?_, .rfl⟩
  · rw [LexContext.regexMayStart, starts]
    rfl
  · rw [opensHead_after, awaits]
    rfl
  · rw [LexContext.opensObject, LexContext.insideObject, enclosures']
    rfl

theorem Agrees.after (h : context.Agrees other) (kind : TokenKind) (text : Text) :
    (context.after kind text).Agrees (other.after kind text) :=
  agrees_after h.parens h.enclosures (fun _ => h.opensHead) (fun _ => h.opensObject)
    fun _ => h.afterFor

theorem Agrees.behind (h : context.Agrees other) (item : Item) :
    (context.behind item).Agrees (other.behind item) := by
  obtain ⟨lexeme, written⟩ := item
  cases lexeme with
  | blank => exact h
  | newline => exact h.newline true true
  | comment =>
    by_cases breaks : written.any CodePoint.isLineTerminator = true
    · simp only [LexContext.behind, breaks, if_true]
      exact h.newline true true
    · simp only [LexContext.behind, breaks, Bool.false_eq_true, if_false]
      exact h
  | word kind text => exact h.after kind text
  | token kind => exact h.after kind written

/-- The words that are operators in some contexts. -/
def operatorWords : List Text :=
  [Text.ofString "yield", Text.ofString "await", Text.ofString "of"]

/-- Behind an identifier that is no operator neither the head of a statement nor an object opens. -/
theorem after_identifier (plain : text ∉ operatorWords) :
    (context.after .identifier text).opensHead = false ∧
      (context.after .identifier text).opensObject = false := by
  constructor
  · change (decide (context.last = some .kwFor) && decide (text = Text.ofString "await")) = false
    have other : text ≠ Text.ofString "await" := fun same => plain (by simp [operatorWords, same])
    simp [other]
  · change (["yield", "await", "of"].any fun word => decide (text = Text.ofString word)) = false
    simpa [operatorWords] using plain

/-- Contexts behind any two identifiers agree if the same brackets are open and neither of the two
is an operator. -/
theorem agrees_identifier (parens : context.parens = other.parens)
    (enclosures : context.enclosures = other.enclosures) (plain : text ∉ operatorWords)
    (plain' : text' ∉ operatorWords) :
    (context.after .identifier text).Agrees (other.after .identifier text') := by
  refine ⟨parens, enclosures, rfl, ?_, ?_, .rfl⟩
  · rw [(after_identifier plain).1, (after_identifier plain').1]
  · rw [(after_identifier plain).2, (after_identifier plain').2]

/-- An operand follows a comma behind an identifier as it follows an opening parenthesis. -/
theorem agrees_operand {before : LexContext} {name word comma paren : Text}
    (parens : before.parens = ((other.after .identifier word).after .leftParen paren).parens)
    (enclosures : before.enclosures = other.enclosures) :
    ((before.after .identifier name).after .comma comma).Agrees
      ((other.after .identifier word).after .leftParen paren) :=
  ⟨parens, enclosures, rfl, rfl, rfl, iff_of_false nofun nofun⟩

end LexContext

variable {context context' mid : LexContext} {first : Bool} {items more : List Item}
  {tail tail' : Text}

theorem Reads.of_cons {item : Item} (h : Reads context first (item :: items) tail context') :
    ∃ c rest, item.written = c :: rest ∧
      Lexeme.scan context first c (rest ++ (Item.textOf items ++ tail)) =
        .ok (item.lexeme, rest.length) ∧
      Reads (context.behind item) false items tail context' := by
  cases h with
  | cons scanned later => exact ⟨_, _, rfl, scanned, later⟩

theorem Reads.to_cons {item : Item} {c : CodePoint} {rest : Text}
    (written : item.written = c :: rest)
    (scanned : Lexeme.scan context first c (rest ++ (Item.textOf items ++ tail)) =
      .ok (item.lexeme, rest.length))
    (later : Reads (context.behind item) false items tail context') :
    Reads context first (item :: items) tail context' := by
  obtain ⟨lexeme, _⟩ := item
  subst written
  exact .cons scanned later

/-- Items are read one after the other. -/
theorem Reads.append (h : Reads context first items (Item.textOf more ++ tail) mid)
    (h' : Reads mid (first && items.isEmpty) more tail context') :
    Reads context first (items ++ more) tail context' := by
  generalize ht : Item.textOf more ++ tail = behind at h
  induction h with
  | nil => simpa using h'
  | @cons _ _ _ lexeme c rest _ items scanned _ ih =>
    subst ht
    refine .cons ?_ (ih (by simpa using h') rfl)
    rwa [List.append_eq, Item.textOf_append, List.append_assoc]

theorem Reads.split (h : Reads context first (items ++ more) tail context') :
    Reads context first items (Item.textOf more ++ tail) (items.foldl LexContext.behind context) ∧
      Reads (items.foldl LexContext.behind context) (first && items.isEmpty) more tail context' := by
  induction items generalizing context first with
  | nil => exact ⟨.nil .., by simpa using h⟩
  | cons item items ih =>
    cases h with
    | @cons _ _ _ lexeme c rest _ _ scanned later =>
      obtain ⟨reads, reads'⟩ := ih later
      rw [List.append_eq, Item.textOf_append, List.append_assoc] at scanned
      exact ⟨.cons scanned reads, by simpa using reads'⟩

/-- Whether an item is no token. -/
def Item.isTrivia (item : Item) : Bool := item.lexeme.kind?.isNone

/-- Behind blanks and comments a context is the same but for the line terminators. -/
theorem LexContext.foldl_trivia (context : LexContext) (h : ∀ item ∈ items, item.isTrivia = true) :
    ∃ newline, items.foldl behind context = { context with newline := newline } := by
  induction items generalizing context with
  | nil => exact ⟨context.newline, rfl⟩
  | cons item items ih =>
    obtain ⟨trivia, later⟩ := List.forall_mem_cons.1 h
    obtain ⟨newline, same⟩ := ih (context.behind item) later
    rw [List.foldl_cons, same]
    obtain ⟨lexeme, written⟩ := item
    cases lexeme with
    | blank => exact ⟨newline, rfl⟩
    | newline => exact ⟨newline, rfl⟩
    | comment =>
      refine ⟨newline, ?_⟩
      by_cases breaks : written.any CodePoint.isLineTerminator = true
      · simp [behind, breaks, afterNewline]
      · simp [behind, breaks]
    | word => cases trivia
    | token => cases trivia

namespace Lexeme

variable {other : LexContext} {c : CodePoint} {written t t' : Text} {lexeme : Lexeme}

/-- A line comment ends at a line terminator. -/
theorem lineCommentLength_startsWord (h : lineCommentLength (written ++ t) = written.length) :
    t.startsWord = false := by
  induction written with
  | nil =>
    cases t with
    | nil => rfl
    | cons c t =>
      rw [List.nil_append, lineCommentLength] at h
      split at h
      · rename_i ends
        simp [Text.startsWord, CodePoint.isIdentifierStart_of_isLineTerminator ends]
      · cases h
  | cons c written ih =>
    rw [List.cons_append, lineCommentLength] at h
    split at h
    · cases h
    · exact ih (Nat.succ.inj h)

theorem lineCommentLength_prefix {opening : Text}
    (plain : ∀ c ∈ opening, c.isLineTerminator = false) (h : opening <+: t) :
    opening.length ≤ lineCommentLength t := by
  induction opening generalizing t with
  | nil => exact Nat.zero_le _
  | cons c opening ih =>
    obtain ⟨later, rfl⟩ := h
    obtain ⟨bare, plain⟩ := List.forall_mem_cons.1 plain
    rw [List.cons_append, lineCommentLength, if_neg (by simp [bare])]
    exact Nat.succ_le_succ (ih plain (List.prefix_append ..))

/-- What the written characters start with they start with in front of every text. -/
theorem prefix_written {opening : Text} (h : opening <+: written ++ t)
    (within : opening.length ≤ written.length) (t' : Text) : opening <+: written ++ t' :=
  (List.prefix_of_prefix_length_le h (List.prefix_append ..) within).trans (List.prefix_append ..)

theorem head?_eq_iff_starts {d : CodePoint} : t.head? = some d ↔ [d] <+: t := by
  cases t <;> simp [eq_comm]

/-- A line comment is read in front of every text that starts with the same character. -/
theorem lineComment_written {opening : Text} (heads : t.head? = t'.head? ∨ t.startsWord = true)
    (plain : ∀ c ∈ opening, c.isLineTerminator = false) (opens : opening <+: written ++ t)
    (length : lineCommentLength (written ++ t) = written.length) :
    opening <+: written ++ t' ∧ lineCommentLength (written ++ t') = written.length := by
  have heads := heads.resolve_right (by simp [lineCommentLength_startsWord length])
  have alike : Text.Alike written.length (written ++ t) (written ++ t') := by
    clear opens length
    induction written with
    | nil => exact .inl heads
    | cons c written ih => exact ⟨rfl, ih⟩
  refine ⟨prefix_written opens (length ▸ lineCommentLength_prefix plain opens) t', ?_⟩
  rw [lineCommentLength_alike (length ▸ alike), length]

theorem scan_newline (line : c.isLineTerminator = true) :
    scan context first c t = .ok (.newline, 0) := by
  have hash : c ≠ '#' := by
    rintro rfl
    revert line
    decide
  simp [scan, line, hash]

theorem scan_blank (line : c.isLineTerminator = false)
    (blank : (c.isBlank || c.val = 0xFEFF) = true) : scan context first c t = .ok (.blank, 0) := by
  have hash : c ≠ '#' := by
    rintro rfl
    revert blank
    decide
  simp only [scan, hash, decide_false, Bool.and_false, Bool.false_and, Bool.false_eq_true, if_false,
    line, blank, if_true]

theorem scan_lineComment (next : [CodePoint.ofChar '/'] <+: t) :
    scan context first '/' t = .ok (.comment, lineCommentLength t) := by
  have hash : (CodePoint.ofChar '/' = CodePoint.ofChar '#') = False := eq_false (by decide)
  have line : (CodePoint.ofChar '/').isLineTerminator = false := by decide
  have blank : ((CodePoint.ofChar '/').isBlank || (CodePoint.ofChar '/').val = 0xFEFF) = false := by
    decide
  rw [← head?_eq_iff_starts] at next
  simp only [scan, hash, decide_false, Bool.and_false, Bool.false_and, Bool.false_eq_true, if_false,
    line, blank, next, decide_true, Bool.true_and, if_true]

theorem scan_blockComment (next : [CodePoint.ofChar '*'] <+: t) :
    scan context first '/' t =
      match blockCommentLength? t.tail with
      | some length => .ok (.comment, length + 1)
      | none => .error (.malformed .unterminatedComment 0) := by
  have hash : (CodePoint.ofChar '/' = CodePoint.ofChar '#') = False := by
    simp only [eq_iff_iff, iff_false]
    decide
  have line : (CodePoint.ofChar '/').isLineTerminator = false := by decide
  have blank : ((CodePoint.ofChar '/').isBlank || (CodePoint.ofChar '/').val = 0xFEFF) = false := by
    decide
  have other : (some (CodePoint.ofChar '*') = some (CodePoint.ofChar '/')) = False := by
    simp only [Option.some.injEq, eq_iff_iff, iff_false]
    decide
  rw [← head?_eq_iff_starts] at next
  cases found : blockCommentLength? t.tail <;>
    simp only [scan, hash, Bool.false_and, Bool.false_eq_true, if_false, line, blank, next, other,
      decide_false, Bool.and_false, decide_true, Bool.true_and, if_true, found]

theorem scan_markupComment (next : Text.ofString "!--" <+: t) :
    scan context first '<' t = .ok (.comment, lineCommentLength t) := by
  have hash : (CodePoint.ofChar '<' = CodePoint.ofChar '#') = False := eq_false (by decide)
  have line : (CodePoint.ofChar '<').isLineTerminator = false := by decide
  have blank : ((CodePoint.ofChar '<').isBlank || (CodePoint.ofChar '<').val = 0xFEFF) = false := by
    decide
  have slash : (CodePoint.ofChar '<' = CodePoint.ofChar '/') = False := by
    simp only [eq_iff_iff, iff_false]
    decide
  simp only [scan, hash, decide_false, Bool.and_false, Bool.false_and, Bool.false_eq_true, if_false,
    line, blank, slash, decide_true, Bool.true_and, List.isPrefixOf_iff_prefix.2 next, if_true]

/-- What is no token is read in front of every text that starts with the same character, or if a
word follows in front of any text, in all contexts. -/
theorem scan_trivia (trivia : lexeme.kind? = none)
    (heads : t.head? = t'.head? ∨ t.startsWord = true)
    (h : scan context false c (written ++ t) = .ok (lexeme, written.length)) :
    scan other false c (written ++ t') = .ok (lexeme, written.length) := by
  generalize length : written.length = n at h ⊢
  cases scanned_of_scan h with
  | hashbang no => cases no
  | newline line => exact scan_newline line
  | blank line blank => exact scan_blank line blank
  | lineComment slash next =>
    subst slash
    obtain ⟨next, same⟩ :=
      lineComment_written heads (by decide) (head?_eq_iff_starts.1 next) length.symm
    rw [scan_lineComment next, same, length]
  | blockComment slash next found =>
    subst slash
    cases written with
    | nil => cases length
    | cons d written =>
      rw [List.cons_append, List.tail_cons] at found
      obtain rfl := Nat.succ.inj length
      have same : Text.Same written.length (written ++ t) (written ++ t') := by simp [Text.Same]
      rw [scan_blockComment (prefix_written (head?_eq_iff_starts.1 next) (by simp) t'),
        List.cons_append, List.tail_cons, blockCommentLength?_same found same]
  | markupComment opens next =>
    subst opens
    obtain ⟨next, same⟩ := lineComment_written heads (by decide) next length.symm
    rw [scan_markupComment next, same, length]
  | _ => cases trivia

end Lexeme

/-- Blanks and comments are read in front of every text that starts with the same character, or if
a word follows in front of any text, in all contexts. -/
theorem Reads.trivia {other : LexContext} (trivia : ∀ item ∈ items, item.isTrivia = true)
    (heads : tail.head? = tail'.head? ∨ tail.startsWord = true)
    (h : Reads context false items tail context') :
    Reads other false items tail' (items.foldl LexContext.behind other) := by
  generalize hf : false = first at h
  induction h generalizing other with
  | nil => exact .nil ..
  | @cons _ _ _ lexeme c rest tail items scanned later ih =>
    subst hf
    obtain ⟨here, after⟩ := List.forall_mem_cons.1 trivia
    refine .cons (Lexeme.scan_trivia (Option.isNone_iff_eq_none.1 here) ?_ scanned)
      (ih after heads rfl)
    cases later with
    | nil => exact heads
    | cons => exact .inl rfl

end Uncurry
