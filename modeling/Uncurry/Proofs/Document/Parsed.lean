import Uncurry.Proofs.Lexical.Coverage
import Uncurry.Proofs.Syntax.Programs
import Uncurry.Source

/-!
# Sources that were parsed

A source that is accepted is read as items, and the tokens of these spell the statements of the
program.
-/
namespace Uncurry

variable {source : Text} {tree : SyntaxTree}

/-- What is known of the tokens and the tree of a source that was parsed. -/
structure Parsed (source : Text) (tree : SyntaxTree) where
  items : List Item
  context : LexContext
  text : Item.textOf items = source
  reads : Reads .initial true items [] context
  closed : context.insideTemplate = false
  trees : List SyntaxTree
  span : Span
  tree_eq : tree = .node .program trees span
  whole : span.start = .origin ∧ span.stop.offset = source.length
  pieces : List Piece
  spelling : Item.code .skip .initial .origin items = Piece.spelling pieces
  children : Piece.children pieces = trees
  plain : ∀ piece ∈ pieces, piece.isEcho = false
  parts : ∀ own sub, .child own sub ∈ pieces → Spelled own sub

/-- Parsing starts in front of all tokens but the one at the end. -/
theorem ofTokens_code {items : List Item} {context : LexContext}
    (reads : Reads .initial true items [] context) :
    (Cursor.ofTokens (Item.tokens .skip .initial .origin items)).rest =
        Item.code .skip .initial .origin items ∧
      (Cursor.ofTokens (Item.tokens .skip .initial .origin items)).final.kind = .endOfInput ∧
      (Cursor.ofTokens (Item.tokens .skip .initial .origin items)).final.start.offset =
        (Item.textOf items).length := by
  obtain ⟨stop, newline, place, tokens⟩ := Item.tokens_eq .skip .initial .origin items
  have plain : (Item.code .skip .initial .origin items).filter (·.kind != .comment) =
      Item.code .skip .initial .origin items :=
    List.filter_eq_self.2 fun token member => by simpa using Item.code_kind reads token member
  refine ⟨?_, ?_, ?_⟩
  · simp [Cursor.ofTokens, tokens, plain]
  · simp [Cursor.ofTokens, tokens]
  · have last : stop.offset = (Item.textOf items).length := place.trans (Nat.zero_add _)
    simp [Cursor.ofTokens, tokens, Token.start, last]

/-- No token is left where the current one is the end of the input. -/
theorem Cursor.rest_eq_nil {c : Cursor} (left : ∀ token ∈ c.rest, token.kind ≠ .endOfInput)
    (ends : c.current.kind = .endOfInput) : c.rest = [] := by
  cases rest : c.rest with
  | nil => rfl
  | cons token later =>
    rw [Cursor.current, rest] at ends
    exact absurd ends (left token (by simp [rest]))

theorem Parser.run_ok {α : Type} {parser : Parser α} {tokens : List Token} {a : α} :
    parser.run tokens = .ok a ↔
      ∃ c, parser .outermost (Cursor.ofTokens tokens) = .ok (a, c) := by
  rw [Parser.run]
  cases parser .outermost (Cursor.ofTokens tokens) with
  | error halt => exact ⟨nofun, nofun⟩
  | ok result => exact ⟨fun h => ⟨result.2, by cases h; rfl⟩, fun ⟨_, h⟩ => by cases h; rfl⟩

theorem Parser.run_error {α : Type} {parser : Parser α} {tokens : List Token}
    {error : ParseError} : parser.run tokens = .error error ↔
      ∃ halt, parser .outermost (Cursor.ofTokens tokens) = .error halt ∧ halt.error = error := by
  rw [Parser.run]
  cases parser .outermost (Cursor.ofTokens tokens) with
  | error halt => exact ⟨fun h => ⟨halt, rfl, by cases h; rfl⟩, fun ⟨_, h, h'⟩ => by
      cases h
      cases h'
      rfl⟩
  | ok result => exact ⟨nofun, fun ⟨_, h, _⟩ => nomatch h⟩

theorem parseWith_ok {parser : Parser SyntaxTree} : parseWith parser source = .ok tree ↔
    ∃ tokens, tokenize .skip source = .ok tokens ∧ parser.run tokens = .ok tree := by
  rw [parseWith]
  cases tokenize .skip source with
  | error failure => exact ⟨nofun, nofun⟩
  | ok tokens =>
    change (parser.run tokens).mapError SourceFailure.grammatical = _ ↔ _
    cases run : parser.run tokens with
    | error error => exact ⟨nofun, fun ⟨_, same, h⟩ => by cases same; rw [run] at h; cases h⟩
    | ok found => exact ⟨fun h => ⟨tokens, rfl, by cases h; exact run⟩, fun ⟨_, same, h⟩ => by
        cases same
        rw [run] at h
        cases h
        rfl⟩

/-- A parser that succeeds on a source ran in front of the tokens of its items. -/
theorem exists_run {parser : Parser SyntaxTree} (h : parseWith parser source = .ok tree) :
    ∃ items context cursor, Item.textOf items = source ∧
      Reads .initial true items [] context ∧ context.insideTemplate = false ∧
      parser .outermost (Cursor.ofTokens (Item.tokens .skip .initial .origin items)) =
        .ok (tree, cursor) := by
  obtain ⟨tokens, tokenized, run⟩ := parseWith_ok.1 h
  obtain ⟨items, context, text, reads, closed, rfl⟩ := Token.exists_reads tokenized
  obtain ⟨cursor, parsed⟩ := Parser.run_ok.1 run
  exact ⟨items, context, cursor, text, reads, closed, parsed⟩

theorem exists_parsed (h : parseProgram source = .ok tree) : Nonempty (Parsed source tree) := by
  obtain ⟨items, context, cursor, text, reads, closed, parsed⟩ := exists_run h
  obtain ⟨trees, same, laid, ends⟩ := Grammar.program_laid parsed
  obtain ⟨rest, kind, place⟩ := ofTokens_code reads
  obtain ⟨pieces, passes, children, plain, parts⟩ := laid kind
  have none_left : cursor.rest = [] := by
    refine Cursor.rest_eq_nil (fun token member => ?_) (ends kind)
    have inside := List.mem_append_right (Piece.spelling pieces) member
    rw [← passes.rest, rest] at inside
    exact Item.code_ne_endOfInput reads.isRead token inside
  have spelling : Item.code .skip .initial .origin items = _ := rest ▸ passes.rest
  rw [none_left, List.append_nil] at spelling
  have stops : cursor.current.start.offset = source.length := by
    rw [Cursor.current, none_left, List.headD_nil, passes.final, place, text]
  exact ⟨⟨items, context, text, reads, closed, trees, _, same, ⟨rfl, stops⟩, pieces, spelling,
    children, plain, parts⟩⟩

/-- A single expression is spelled by tokens. -/
theorem exists_spelled_fragment (h : parseFragment source = .ok tree) :
    ∃ own, Spelled own tree := by
  obtain ⟨items, context, cursor, _, reads, _, parsed⟩ := exists_run h
  obtain ⟨value, between, built, rest⟩ := Parser.bind_ok.1 parsed
  rw [Parser.current_bind] at rest
  obtain rfl : value = tree := by
    split at rest
    · exact (Parser.pure_ok.1 rest).1
    · exact (Parser.fail_ok.1 rest).elim
  obtain ⟨own, _, spelled⟩ := Rule.parser_builds .expression built (ofTokens_code reads).2.1
  exact ⟨own, spelled⟩

namespace Parsed

variable (parsed : Parsed source tree)

/-- The tokens of the program but for the one at the end. -/
def code : List Token := Item.code .skip .initial .origin parsed.items

theorem code_ordered : Token.Ordered source.length 0 parsed.code := by
  have ordered : Token.Ordered _ 0 parsed.code :=
    Item.code_within parsed.reads.written_ne_nil
  rwa [parsed.text] at ordered

end Parsed

end Uncurry
