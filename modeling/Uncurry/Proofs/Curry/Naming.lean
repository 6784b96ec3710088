import Uncurry.Proofs.Curry.Transformation
import Uncurry.Proofs.Syntax.Members

/-!
# When the new callees are expressions

A new callee is made of the spelling of an identifier, in which no escapes are left. It is an
expression whenever the identifier was written without escapes, and this alone decides whether a
program is transformed.
-/
namespace Uncurry

/-- The only token of a text is an identifier that is spelled as the text. -/
def Text.IsIdentifier (t : Text) : Prop :=
  ∃ token final, tokenize .skip t = .ok [token, final] ∧ token.kind = .identifier ∧ token.text = t

/-- No identifier is spelled with more characters than it is written with, and with as many only if
it is written as it is spelled. -/
theorem Item.IsRead.spelled {item : Item} {text : Text} (read : item.IsRead)
    (word : item.lexeme = .word .identifier text) : text.length ≤ item.written.length ∧
      (text.length = item.written.length → item.written = text) := by
  obtain ⟨lexeme, _⟩ := item
  obtain rfl : lexeme = .word .identifier text := word
  obtain ⟨_, _, c, rest, t, rfl, scanned⟩ := read
  obtain ⟨front, found, named, _, rfl, length⟩ := Lexeme.scan_eq_word scanned
  have positive := Lexeme.name_pos front named
  have length : found.length = (c :: rest).length := by
    rw [List.length_cons]
    omega
  obtain ⟨_, short, plain⟩ := Lexeme.name_spelled named
  rw [length] at short plain
  refine ⟨short, fun same => ?_⟩
  rw [(plain same).2.1, ← List.cons_append, List.take_left]

/-- A text is read as such an identifier just if it is one without escapes. -/
theorem Text.isIdentifier_iff {t : Text} : t.IsIdentifier ↔ t.IsName := by
  constructor
  · rintro ⟨token, final, read, kind, text⟩
    obtain ⟨items, context, written, reads, _, tokens⟩ := Token.exists_reads read
    obtain ⟨stop, newline, _, same⟩ := Item.tokens_eq .skip .initial .origin items
    have split : [token] ++ [final] = _ := tokens.trans same
    have code := (List.append_inj' split rfl).1
    obtain ⟨item, inside, _, _, found⟩ := Item.exists_item (code ▸ List.mem_singleton_self token)
    have read := reads.isRead item inside
    have word := read.word found kind
    obtain ⟨short, plain⟩ := read.spelled word
    have within : item.written.length ≤ token.text.length := by
      obtain ⟨front, later, rfl⟩ := List.append_of_mem inside
      rw [text, ← written, Item.textOf_append, Item.textOf_cons, List.length_append,
        List.length_append]
      omega
    have name := read.isName word (plain (Nat.le_antisymm short within))
    rwa [text] at name
  · intro name
    have reads : Reads .initial true [.ofName t] [] _ := .name name rfl (.nil _ _ _)
    have read : tokenize .skip (Item.textOf [.ofName t]) = _ := Token.readFrom_of_reads reads rfl
    rw [Item.textOf_cons, Item.textOf_nil, List.append_nil] at read
    exact ⟨_, _, read, rfl, rfl⟩

namespace Curry

variable {source name : Text} {program : SyntaxTree} {table : ArityTable}

/-- The items that the new callee for a name is made of. -/
def calleeItems (name : Text) : List Item :=
  [.ofName name, ⟨.token .dot, Text.ofString "."⟩, .ofName (Text.ofString "f")]

theorem isName_f : (Text.ofString "f").IsName := ⟨by decide, by decide, by decide⟩

/-- The new callee for a name is read as three tokens, in front of all that does not continue it. -/
theorem calleeItems_reads {context context' : LexContext} {first : Bool} {items : List Item}
    {tail : Text} (plain : name.IsName)
    (ends : Text.continuesWord (Item.textOf items ++ tail) = false)
    (later : Reads ((context.after .identifier name).after .dot (Text.ofString ".") |>.after
      .identifier (Text.ofString "f")) false items tail context') :
    Reads context first (calleeItems name ++ items) tail context' := by
  refine .name plain rfl (.cons ?_ (.name isName_f ends later))
  rfl

/-- The new callee for a name is an expression: the member `f` of the name. -/
theorem parseFragment_direct (plain : name.IsName) : ∃ object member own,
    parseFragment (direct name) = .ok (.node .member [.leaf (.token .identifier) name object,
      .leaf (.token .identifier) (Text.ofString "f") member] own) := by
  have reads : Reads .initial true (calleeItems name ++ []) [] _ :=
    calleeItems_reads plain rfl (.nil _ _ _)
  have text : Item.textOf (calleeItems name ++ []) = direct name := rfl
  have tokens : Token.readFrom .skip .initial .origin (Item.textOf (calleeItems name ++ [])) = _ :=
    Token.readFrom_of_reads reads rfl
  rw [text] at tokens
  have run {first point second final : Token} (kind : first.kind = .identifier)
      (kind' : point.kind = .dot) (kind'' : second.kind = .identifier)
      (ends : final.kind = .endOfInput) : (((Grammar.fragment .outermost
        ⟨[], [first, point, second], final⟩).map Prod.fst).mapError Halt.error).mapError
          SourceFailure.grammatical = .ok (.node .member [.leaf (.token .identifier) first.text
            first.span, .leaf (.token .identifier) second.text second.span]
              ⟨first.start, second.stop⟩) := by
    rw [Grammar.fragment_member kind kind' kind'' ends, Grammar.memberOf, Parser.leaf, kind]
    rfl
  rw [parseFragment, parseWith, tokenize, tokens]
  exact ⟨_, _, _, run rfl rfl rfl rfl⟩

/-- The name of a site is an identifier among the tokens. -/
theorem Sited.exists_name {tokens : List Token} {behind : Location} {changes : List Change}
    (h : Sited tokens behind changes) {site : Site Span} (member : .call site ∈ changes) :
    ∃ token ∈ tokens, token.kind = .identifier ∧ token.text = site.name := by
  induction h with
  | nil => cases member
  | skip token _ ih =>
    obtain ⟨name, inside, named⟩ := ih member
    exact ⟨name, List.mem_cons_of_mem _ inside, named⟩
  | stub _ _ ih =>
    obtain ⟨name, inside, named⟩ := ih (by simpa using member)
    exact ⟨name, List.mem_cons_of_mem _ inside, named⟩
  | call begins _ _ ih =>
    rcases List.mem_cons.1 member with same | member
    · cases same
      exact ⟨_, by simp, begins.name_kind, begins.name_text.symm⟩
    · obtain ⟨name, inside, named⟩ := ih member
      exact ⟨name, by simp [inside], named⟩

end Curry

namespace Parsed

open Curry

variable {source : Text} {program : SyntaxTree} {table : ArityTable}

/-- The identifiers of a source without escapes are written as they are spelled. -/
theorem items_plain (parsed : Parsed source program) (h : source.Unescaped) :
    Item.Plain parsed.items := by
  have read : Token.readFrom .skip .initial .origin _ = _ :=
    Token.readFrom_of_reads parsed.reads parsed.closed
  rw [parsed.text] at read
  obtain ⟨stop, newline, _, tokens⟩ := Item.tokens_eq .skip .initial .origin parsed.items
  refine @Item.plain_of_code .initial .origin _ [] rfl fun token member kind => ?_
  rw [List.nil_append, parsed.text]
  exact h _ read token (tokens ▸ List.mem_append_left _ member) kind

/-- In a source without escapes the names of all sites are names. -/
theorem isName_site (parsed : Parsed source program) (h : source.Unescaped) :
    ∀ site ∈ sites table program, site.name.IsName := by
  intro site member
  obtain ⟨token, inside, kind, text⟩ :=
    (parsed.sited .origin).exists_name (List.mem_map_of_mem member)
  obtain ⟨item, inside, _, _, found⟩ := Item.exists_item inside
  have read := parsed.reads.isRead item inside
  have word := read.word found kind
  exact text ▸ read.isName word (parsed.items_plain h item inside _ word)

end Parsed

namespace Curry

variable {source : Text} {program : SyntaxTree}

/-- No site is refused just if all new callees are expressions. -/
theorem refusal?_eq_none {α : Type} {sites : List (Site α)} : refusal? sites = none ↔
    ∀ site ∈ sites, ∃ tree, parseFragment (direct site.name) = .ok tree := by
  rw [refusal?, List.findSome?_eq_none_iff]
  refine forall₂_congr fun site _ => ?_
  cases parseFragment (direct site.name) <;> simp

/-- A program is transformed just if the new callees of all its sites are expressions, and so
whenever its identifiers are written without escapes. -/
theorem transform_succeeds (parsed : parseProgram source = .ok program) :
    ((∃ result, (transform source).1 = .ok result) ↔
      ∀ site ∈ sites (arities source program) program,
        ∃ tree, parseFragment (direct site.name) = .ok tree) ∧
    (source.Unescaped → ∃ result, (transform source).1 = .ok result) := by
  have exact : (∃ result, (transform source).1 = .ok result) ↔
      ∀ site ∈ sites (arities source program) program,
        ∃ tree, parseFragment (direct site.name) = .ok tree := by
    rw [← refusal?_eq_none, transform_eq parsed]
    cases refusal? (sites (arities source program) program) <;> simp
  refine ⟨exact, fun unescaped => exact.2 fun site member => ?_⟩
  obtain ⟨known⟩ := exists_parsed parsed
  obtain ⟨_, _, _, parses⟩ := parseFragment_direct (known.isName_site unescaped site member)
  exact ⟨_, parses⟩

/-- The program `nested` has no escapes. -/
theorem nested_unescaped : nested.Unescaped := by
  have plain : ((tokenize .skip nested).toOption.all fun tokens => tokens.all fun token =>
      token.kind != .identifier || token.text = token.writtenIn nested) = true := by
    decide +kernel
  intro tokens read token member kind
  rw [read] at plain
  simpa [kind] using List.all_eq_true.1 plain token member

theorem transform_succeeds_nested : ∃ program, parseProgram nested = .ok program ∧
    ∃ result, (transform nested).1 = .ok result := by
  obtain ⟨program, _, parsed, _⟩ := exists_nested
  exact ⟨program, parsed, (transform_succeeds parsed).2 nested_unescaped⟩

/-- A program with a reserved word for an identifier, written with an escape. -/
def escaped : Text := Text.ofString "for (var v\\u0061r = F1(g);;) A1(v\\u0061r, x);"

/-- What is wrong with the new callee of the one call in `escaped`: it starts with a reserved
word. -/
def escapedError : ParseError :=
  ⟨.unexpected .kwVar, ⟨.kwVar, Text.ofString "var", ⟨.origin, ⟨3, 1, 4⟩⟩, false⟩⟩

theorem transform_escaped : ∃ program, parseProgram escaped = .ok program ∧
    (transform escaped).1 = .error (.source (.grammatical escapedError)) := by
  have evaluated : (parseProgram escaped).toOption.bind (fun program =>
      refusal? (sites (arities escaped program) program)) = some (.grammatical escapedError) := by
    decide +kernel
  obtain ⟨program, accepted, refused⟩ := Option.bind_eq_some_iff.1 evaluated
  have parsed : parseProgram escaped = .ok program := eq_ok_of_toOption accepted
  refine ⟨program, parsed, ?_⟩
  rw [transform_eq parsed, refused]

end Curry

end Uncurry
