import Uncurry.Proofs.Lexical.Scanning
import Uncurry.Token.Sequence

/-!
# Texts as sequences of lexemes

A text that has tokens is a sequence of items, each a lexeme with the characters it is written
with. `Reads` says that the items are what is read in some context in front of some text, and
`readFrom_ok` that the tokens of a text are those of its items.
-/
namespace Uncurry

/-- A lexeme with the characters it is written with. -/
structure Item where
  lexeme : Lexeme
  written : Text

/-- The context behind an item. -/
def LexContext.behind (context : LexContext) (item : Item) : LexContext :=
  match item.lexeme with
  | .blank => context
  | .newline => context.afterNewline
  | .comment => if item.written.any CodePoint.isLineTerminator then context.afterNewline else context
  | .word kind text => context.after kind text
  | .token kind => context.after kind item.written

namespace Item

/-- The characters of some items. -/
def textOf (items : List Item) : Text := items.flatMap written

@[simp] theorem textOf_nil : textOf [] = [] := rfl

@[simp] theorem textOf_cons (item : Item) (items : List Item) :
    textOf (item :: items) = item.written ++ textOf items := rfl

@[simp] theorem textOf_append (items more : List Item) :
    textOf (items ++ more) = textOf items ++ textOf more := List.flatMap_append

/-- The token that an item is in some context, or that it is as a comment if these are kept. -/
def token? (comments : CommentPolicy) (context : LexContext) (span : Span) (item : Item) :
    Option Token :=
  match item.lexeme with
  | .blank | .newline => none
  | .comment =>
    match comments with
    | .skip => none
    | .keep => some ⟨.comment, item.written, span, (context.behind item).newline⟩
  | .word kind text => some ⟨kind, text, span, context.newline⟩
  | .token kind => some ⟨kind, item.written, span, context.newline⟩

/-- The tokens of all items of a text from some location on. -/
def tokens (comments : CommentPolicy) : LexContext → Location → List Item → List Token
  | context, here, [] => [⟨.endOfInput, [], ⟨here, here⟩, context.newline⟩]
  | context, here, item :: items =>
    let there := here.advance item.written (textOf items)
    (item.token? comments context ⟨here, there⟩).toList ++
      tokens comments (context.behind item) there items

end Item

/-- The items are read one after the other in front of some text, from one context to another. -/
inductive Reads : LexContext → Bool → List Item → Text → LexContext → Prop
  | nil (context : LexContext) (first : Bool) (tail : Text) : Reads context first [] tail context
  | cons {context context' : LexContext} {first : Bool} {lexeme : Lexeme} {c : CodePoint}
      {rest tail : Text} {items : List Item} :
      Lexeme.scan context first c (rest ++ (Item.textOf items ++ tail)) = .ok (lexeme, rest.length) →
      Reads (context.behind ⟨lexeme, c :: rest⟩) false items tail context' →
      Reads context first (⟨lexeme, c :: rest⟩ :: items) tail context'

variable {comments : CommentPolicy} {context context' : LexContext} {here : Location}
  {c : CodePoint} {rest t : Text} {tokens : List Token}

theorem Except.map_eq_ok {ε α β : Type} {f : α → β} {r : Except ε α} {b : β}
    (h : r.map f = .ok b) : ∃ a, r = .ok a ∧ f a = b := by
  cases r with
  | error e => cases h
  | ok a => exact ⟨a, rfl, Except.ok.inj h⟩

theorem exists_error {ε α : Type} {result : Except ε α} (h : result.toOption.isNone = true) :
    ∃ failure, result = .error failure := by
  cases result with
  | error failure => exact ⟨failure, rfl⟩
  | ok _ => cases h

theorem eq_ok_of_toOption {ε α : Type} {result : Except ε α} {a : α}
    (h : result.toOption = some a) : result = .ok a := by
  cases result with
  | error _ => cases h
  | ok _ => exact congrArg Except.ok (Option.some.inj h)

namespace Token

theorem readFrom_nil : readFrom comments context here [] = .ok tokens ↔
    context.insideTemplate = false ∧ tokens = Item.tokens comments context here [] := by
  rw [readFrom]
  cases context.insideTemplate <;> simp [Item.tokens, eq_comm]

/-- One lexeme is read off the front. -/
theorem readFrom_cons {lexeme : Lexeme} {n : Nat}
    (scanned : Lexeme.scan context (here.offset = 0) c rest = .ok (lexeme, n)) :
    readFrom comments context here (c :: rest) =
      (readFrom comments (context.behind ⟨lexeme, c :: rest.take n⟩)
        (here.advance (c :: rest.take n) (rest.drop n)) (rest.drop n)).map
        ((Item.token? comments context
          ⟨here, here.advance (c :: rest.take n) (rest.drop n)⟩
          ⟨lexeme, c :: rest.take n⟩).toList ++ ·) := by
  have unchanged {r : Except LexFailure (List Token)} : r.map (fun later => later) = r := by
    cases r <;> rfl
  rw [readFrom, scanned]
  cases lexeme with
  | comment =>
    cases comments with
    | skip => exact unchanged.symm
    | keep => rfl
  | blank => exact unchanged.symm
  | newline => exact unchanged.symm
  | word kind text => rfl
  | token kind => rfl

theorem exists_reads (h : readFrom comments context here t = .ok tokens) :
    ∃ items context', Item.textOf items = t ∧ Reads context (here.offset = 0) items [] context' ∧
      context'.insideTemplate = false ∧ tokens = Item.tokens comments context here items := by
  induction hn : t.length using Nat.strongRecOn generalizing t context here tokens with
  | ind length ih =>
  cases t with
  | nil =>
    obtain ⟨closed, rfl⟩ := readFrom_nil.1 h
    exact ⟨[], context, rfl, .nil .., closed, rfl⟩
  | cons c rest =>
    cases scanned : Lexeme.scan context (here.offset = 0) c rest with
    | error fault =>
      rw [readFrom, scanned] at h
      cases h
    | ok found =>
      obtain ⟨lexeme, n⟩ := found
      rw [readFrom_cons scanned] at h
      obtain ⟨later, read, rfl⟩ := Except.map_eq_ok h
      obtain ⟨items, context', text, reads, closed, rfl⟩ :=
        ih _ (by rw [← hn]; simp only [List.length_drop, List.length_cons]; omega) read rfl
      have within := Lexeme.scan_le scanned
      refine ⟨⟨lexeme, c :: rest.take n⟩ :: items, context', ?_, .cons ?_ ?_, closed, ?_⟩
      · simp [text]
      · simpa [text, Nat.min_eq_left within] using scanned
      · simpa using reads
      · rw [Item.tokens, text]

theorem readFrom_of_reads {items : List Item}
    (reads : Reads context (here.offset = 0) items [] context')
    (closed : context'.insideTemplate = false) :
    readFrom comments context here (Item.textOf items) =
      .ok (Item.tokens comments context here items) := by
  induction items generalizing context here with
  | nil =>
    cases reads
    exact readFrom_nil.2 ⟨closed, rfl⟩
  | cons item items ih =>
    cases reads with
    | @cons _ _ _ lexeme c rest _ _ scanned reads =>
      rw [List.append_nil] at scanned
      rw [Item.textOf_cons, List.cons_append, readFrom_cons scanned]
      simp only [List.take_left', List.drop_left']
      rw [ih (by simpa using reads)]
      rfl

end Token

end Uncurry
