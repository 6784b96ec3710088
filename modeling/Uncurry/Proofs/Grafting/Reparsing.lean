import Uncurry.Proofs.Curry.Uncurrying
import Uncurry.Proofs.Grafting.Names
import Uncurry.Proofs.Grafting.Programs

/-!
# Texts with a new callee

Where a name is called, a dotted name may be put in its place: what is made of the source is read as
the tree of the document. Other expressions cannot, since nothing holds their parts together.
-/
namespace Uncurry

open Uncurry.Parser
open Uncurry.Tree (shape)

variable {g : Graft} {source : Text} {tree : SyntaxTree} {code tokens : List Token} {final : Token}

/-- The names behind points are names and points. -/
theorem Graft.mem_links {members : List Text} {token : Token} (member : token ∈ g.links members) :
    token.kind = .identifier ∨ token.kind = .dot := by
  obtain ⟨name, _, inside⟩ := List.mem_flatMap.1 member
  rcases List.mem_cons.1 inside with rfl | inside
  · exact .inr rfl
  · exact .inl (List.mem_singleton.1 inside ▸ rfl)

/-- The graft brings names and points alone among the tokens. -/
theorem Graft.mem_tokens {token : Token} (member : token ∈ g.tokens code) :
    token ∈ code ∨ token.kind = .identifier ∨ token.kind = .dot := by
  induction code with
  | nil => cases member
  | cons first code ih =>
    rw [tokens] at member
    split at member
    · rcases List.mem_cons.1 member with rfl | member
      · exact .inr (.inl rfl)
      rcases List.mem_append.1 member with link | member
      · exact .inr (mem_links link)
      · exact (ih member).imp_left (List.mem_cons_of_mem _)
    · rcases List.mem_cons.1 member with rfl | member
      · exact .inl List.mem_cons_self
      · exact (ih member).imp_left (List.mem_cons_of_mem _)

namespace Grammar

/-- What is parsed of tokens that are those of a program with the graft, at other places perhaps, is
the tree of the program with the graft. -/
theorem program_grafted (ends : final.kind = .endOfInput)
    (live : ∀ token ∈ code, token.kind ≠ .endOfInput ∧ token.kind ≠ .comment)
    (ordered : ∃ start stop, Token.Ordered stop start code)
    (accepted : program.run (code ++ [final]) = .ok tree) (apt : g.Apt tree)
    (same : tokens.map Token.content = (g.tokens code ++ [final]).map Token.content) :
    ∃ tree', program.run tokens = .ok tree' ∧ (g.tree tree).Same tree' := by
  obtain ⟨c, parsed⟩ := run_ok.1 accepted
  have starts (code : List Token) (plain : ∀ token ∈ code, token.kind ≠ .comment) :
      Cursor.ofTokens (code ++ [final]) = ⟨[], code, final⟩ := by
    rw [Cursor.ofTokens_append ends, List.filter_eq_self.2 fun token member => by
      simpa using plain token member]
  rw [starts code fun token member => (live token member).2] at parsed
  have beside : g.Beside ⟨[], code, final⟩ ⟨[], g.tokens code, final⟩ :=
    ⟨rfl, rfl, rfl, ends, ordered⟩
  obtain ⟨d, parsed', beside'⟩ := (program_grafts.ok parsed apt).2 beside
  have rest : d.rest = [] := by
    rw [beside'.rest, (program_passes ends (fun token member => (live token member).1) parsed).1]
    rfl
  rw [← starts (g.tokens code) fun token member => ?_] at parsed'
  · obtain ⟨tree', c', again, tree_same, _⟩ :=
      (program_tracks (n := 0)).run_alike ends parsed' rest same
    exact ⟨tree', run_ok.2 ⟨c', again⟩, tree_same⟩
  · rcases Graft.mem_tokens member with inside | kind | kind
    · exact (live token inside).2
    · rw [kind]; nofun
    · rw [kind]; nofun

/-- The tokens of a dotted name alone are an expression. -/
theorem fragment_grafted (ends : final.kind = .endOfInput) {newline : Bool}
    (same : tokens.map Token.content =
      (g.head newline :: g.links g.members ++ [final]).map Token.content) :
    ∃ tree', fragment.run tokens = .ok tree' ∧ g.value.Same tree' := by
  have starts : Cursor.ofTokens (g.head newline :: g.links g.members ++ [final]) =
      ⟨[], g.head newline :: g.links g.members, final⟩ := by
    rw [Cursor.ofTokens_append ends, List.filter_eq_self.2 fun token member => ?_]
    rcases List.mem_cons.1 member with rfl | link
    · rfl
    · rcases Graft.mem_links link with kind | kind <;> rw [kind] <;> rfl
  have alone : Cursor.rest ⟨[], g.head newline :: g.links g.members, final⟩ =
      g.head newline :: (g.links g.members ++ []) := by
    rw [List.append_nil]
  obtain ⟨d, dotted, rest, last, _⟩ := leftHand_dotted
    (Rule.parserFuel (g.head newline :: g.links g.members).length) .outermost alone
  have stops : d.current.kind = .endOfInput := by
    rw [Cursor.current, rest, List.headD_nil, last, ends]
  have parsed : Rule.expression.parser .outermost
      (Cursor.ofTokens (g.head newline :: g.links g.members ++ [final])) = .ok (g.value, d) := by
    rw [starts]
    refine parser_operand rfl ?_ stops (dotted.trans ?_)
    · cases g.members with
      | nil => exact .inr (by simp [Cursor.peek, Graft.links, ends])
      | cons => exact .inl (by simp [Cursor.peek, Graft.links])
    · rw [iterateFuel, bind_eq_ok (link_end stops)]
      rfl
  obtain ⟨tree', c', parsed', tree_same, stops'⟩ :=
    (Rule.parser_tracks (n := 0) .expression).run_alike ends parsed rest same
  refine ⟨tree', run_ok.2 ⟨c', ?_⟩, tree_same⟩
  rw [fragment, bind_eq_ok parsed', current_bind, if_pos stops']
  rfl

end Grammar

/-- A dotted name is an expression by itself. -/
theorem parseFragment_dotted (names : ∀ name ∈ g.first :: g.members, name.IsPlainName) :
    ∃ fragment, parseFragment (Text.dotted g.first g.members) = .ok fragment ∧
      g.value.Same fragment := by
  have reads : Reads .initial true (Item.dotted g.first g.members ++ []) [] _ :=
    .dotted names rfl (.nil _ _ _)
  have agrees : LexContext.Agrees (LexContext.initial.behind (.ofName g.first)) _ :=
    .dotted rfl rfl (names _ List.mem_cons_self) names
  have closed : ((Item.dotted g.first g.members).foldl LexContext.behind .initial).insideTemplate =
      false := by
    rw [LexContext.insideTemplate, ← agrees.enclosures]
    rfl
  obtain ⟨tokens, accepted, contents⟩ := reads.tokenize closed
  rw [Item.contents_dotted, Item.contents, Item.newline_dotted] at contents
  have same : tokens.map Token.content = (g.head false :: g.links g.members ++
      ([⟨.endOfInput, [], default, false⟩] : List Token)).map Token.content := by
    rw [contents, List.map_append, List.map_cons, Graft.links, List.map_flatMap]
    rfl
  obtain ⟨fragment, run, tree_same⟩ := Grammar.fragment_grafted rfl same
  rw [Item.textOf_append, Item.textOf_dotted, Item.textOf_nil, List.append_nil] at accepted
  exact ⟨fragment, parseWith_ok.2 ⟨tokens, accepted, run⟩, tree_same⟩

/-- A program in which a name is called is parsed with a dotted name in its place, and its tree is
that of the program with the graft. -/
theorem Parsed.parseProgram_grafted (parsed : Parsed source tree)
    (accepted : parseProgram source = .ok tree)
    {rest : List SyntaxTree} {span : Span}
    (inside : .node .call (g.leaf :: rest) span ∈ tree.parts)
    (written : (source.take g.span.stop.offset).drop g.span.start.offset = g.name)
    (names : ∀ name ∈ g.first :: g.members, name.IsPlainName) :
    ∃ tree', parseProgram (source.take g.span.start.offset ++
        (Text.dotted g.first g.members ++ source.drop g.span.stop.offset)) = .ok tree' ∧
      (g.tree tree).Same tree' := by
  obtain ⟨before, token, paren, back, code, named, opens⟩ := parsed.exists_called inside
  obtain ⟨final, read, ends, _⟩ := parsed.exists_tokens
  have spelled : token.writtenIn source = g.name := by
    rw [Graft.names_eq_true named]
    exact written
  obtain ⟨tokens, again, same⟩ := parsed.exists_grafted code named opens spelled names read
  obtain ⟨_, read', run⟩ := parseWith_ok.1 accepted
  obtain rfl := Except.ok.inj (read.symm.trans read')
  have live : ∀ token ∈ parsed.code, token.kind ≠ .endOfInput ∧ token.kind ≠ .comment :=
    fun token member => ⟨Item.code_ne_endOfInput parsed.reads.isRead token member,
      Item.code_kind parsed.reads token member⟩
  obtain ⟨tree', run', tree_same⟩ := Grammar.program_grafted ends live
    ⟨_, _, parsed.code_ordered⟩ run (parsed.once inside).apt same
  exact ⟨tree', parseWith_ok.2 ⟨tokens, again, run'⟩, tree_same⟩

namespace Document

variable {document : Document} {place : Place} {name head : Text} {members : List Text}
  {mark whole : Mark} {values : List DocumentTree}

/-- A call of a document without edits is one of the program, and its callee is no inserted one. -/
theorem exists_call {callee : DocumentTree} (inside : .node .call (callee :: values) whole ∈
      Tree.partsAmong (Document.ofTree source tree).forest) :
    .node .call (callee :: values) whole ∈ (Document.ofTree source tree).tree.parts ∧
      .node .call (callee.map Mark.span :: values.map (·.map Mark.span)) whole.span ∈ tree.parts ∧
      ∀ mark, callee.info? = some mark → mark.inserted = false := by
  have inside : .node .call (callee :: values) whole ∈ (tree.number false 0).1.parts := by
    simpa [forest, ofTree] using inside
  refine ⟨inside, ?_, fun mark marked => ?_⟩
  · have mapped := List.mem_map_of_mem (f := Tree.map Mark.span) inside
    rw [← Tree.parts_map, Tree.map_number, Tree.map, Tree.mapAll_eq] at mapped
    exact mapped
  · have known := Tree.number_inserted false 0 tree callee
      (Tree.parts_subset _ inside (List.mem_cons_of_mem _
        (List.mem_append_left _ (Tree.self_mem_parts marked))))
    rw [marked] at known
    exact Option.some.inj known

/-- A dotted name in the place of a name that is called is put into the tree of a document and into
its source alike: the source is read as the tree. -/
theorem replaceCallee_dotted (parsed : Document.parse source = .ok document)
    (found : document.treeAt place =
      .node .call (.leaf (.token .identifier) name mark :: values) whole)
    (written : (source.take mark.span.stop.offset).drop mark.span.start.offset = name)
    (named : name ∉ LexContext.operatorWords) (plain : head.isContextual = false)
    (names : ∀ name ∈ head :: members, name.IsPlainName) :
    ∃ edited program,
      document.replaceCallee place (Text.dotted head members) = .ok edited ∧
      edited.toSource = .ok (source.take mark.span.start.offset ++
        (Text.dotted head members ++ source.drop mark.span.stop.offset)) ∧
      parseProgram (source.take mark.span.start.offset ++
        (Text.dotted head members ++ source.drop mark.span.stop.offset)) = .ok program ∧
      edited.tree.shape = program.shape := by
  obtain ⟨tree, accepted, rfl⟩ := exists_ofTree parsed
  obtain ⟨known⟩ := exists_parsed accepted
  let g : Graft := ⟨name, mark.span, head, members, named, plain⟩
  obtain ⟨inside, called, original⟩ := exists_call (mem_of_treeAt found)
  have called : .node .call (g.leaf :: values.map (·.map Mark.span)) whole.span ∈ tree.parts :=
    called
  obtain ⟨program, read, same⟩ :=
    known.parseProgram_grafted accepted called written names
  obtain ⟨fragment, expression, value⟩ := parseFragment_dotted (g := g) names
  have made : (Document.ofTree source tree).replaceCallee place (Text.dotted head members) = _ :=
    Curry.replaceCallee_eq found rfl (original mark rfl) fun patch member => by cases member
  have expression : parseFragment (Text.dotted head members) = .ok fragment := expression
  rw [expression] at made
  refine ⟨_, program, made, ?_, read, ?_⟩
  · have callee : g.leaf ∈ tree.parts := Graft.mem_parts_of_call called
    have within : g.span.range.Within source.length := (known.placed _ callee).own _ rfl
    exact Patch.apply_single within.1 within.2
  · have whole_tree : (Document.ofTree source tree).tree.map Mark.span = tree :=
      Tree.map_number false 0 tree
    have unique : (Tree.idsAmong [(Document.ofTree source tree).tree]).Nodup :=
      (numbered_ofTree source tree).unique
    have new : (fragment.number true (Document.ofTree source tree).nextId).1.shape =
        g.value.shape := by
      rw [← Tree.shape_map Mark.span, Tree.map_number]
      exact value.symm
    have grafted := Graft.Once.shape_modifyChildren (g := g) (by
      rw [whole_tree]
      exact known.once called) unique inside rfl new
    rw [whole_tree] at grafted
    exact grafted.trans same

/-- A call of a name, which has number 2. -/
def applying : Text := Text.ofString "f(x);"

theorem applying_call : ∃ document mark values whole, Document.parse applying = .ok document ∧
    document.treeAt ⟨2, []⟩ =
      .node .call (.leaf (.token .identifier) (Text.ofString "f") mark :: values) whole ∧
    mark.span.start.offset = 0 ∧ mark.span.stop.offset = 1 := by
  have made : (Document.parse applying).toOption.any (fun document =>
      let callee := (document.treeAt ⟨2, []⟩).child 0
      decide ((document.treeAt ⟨2, []⟩).label? = some .call) &&
        decide (callee.identifier? = some (Text.ofString "f")) &&
        decide (callee.info?.map (·.span.range) = some ⟨0, 1⟩)) = true := by
    decide +kernel
  obtain ⟨document, parsed, made⟩ := Option.any_eq_true _ _ |>.1 made
  simp only [Bool.and_eq_true, decide_eq_true_eq] at made
  obtain ⟨⟨labelled, named⟩, ranged⟩ := made
  obtain ⟨mark, callee⟩ := Curry.eq_leaf named
  rw [callee] at ranged
  have range : mark.span.range = ⟨0, 1⟩ := Option.some.inj ranged
  cases call : document.treeAt ⟨2, []⟩ with
  | node label children whole =>
    rw [call] at labelled callee
    obtain rfl := Option.some.inj labelled
    cases children with
    | nil => cases callee
    | cons first values =>
      obtain rfl : first = _ := callee
      exact ⟨document, mark, values, whole, eq_ok_of_toOption parsed, call,
        congrArg Range.start range, congrArg Range.stop range⟩
  | missing => rw [call] at labelled; cases labelled
  | leaf _ _ _ => rw [call] at labelled; cases labelled

theorem replaceCallee_dotted_applying : ∃ document edited program,
    Document.parse applying = .ok document ∧
    document.replaceCallee ⟨2, []⟩ (Text.dotted (Text.ofString "g") [Text.ofString "h"]) =
      .ok edited ∧
    edited.toSource = .ok (Text.ofString "g.h(x);") ∧
    parseProgram (Text.ofString "g.h(x);") = .ok program ∧
    edited.tree.shape = program.shape := by
  obtain ⟨document, mark, values, whole, parsed, found, starts, stops⟩ := applying_call
  have names : ∀ name ∈ [Text.ofString "g", Text.ofString "h"], name.IsPlainName :=
    List.forall_mem_cons.2 ⟨⟨⟨by decide, by decide, by decide⟩, by decide⟩,
      List.forall_mem_singleton.2 ⟨⟨by decide, by decide, by decide⟩, by decide⟩⟩
  obtain ⟨edited, program, replaced, output, accepted, same⟩ :=
    replaceCallee_dotted parsed found (by rw [starts, stops]; decide) (by decide) (by decide) names
  have text : applying.take mark.span.start.offset ++ (Text.dotted (Text.ofString "g")
      [Text.ofString "h"] ++ applying.drop mark.span.stop.offset) = Text.ofString "g.h(x);" := by
    rw [starts, stops]
    decide
  rw [text] at output accepted
  exact ⟨document, edited, program, parsed, replaced, output, accepted, same⟩

/-- A sequence in the place of a callee is a call in the tree of the document, but it is read as a
sequence of a name and a call. -/
theorem replaceCallee_sequence : ∃ document edited program,
    Document.parse applying = .ok document ∧
    document.replaceCallee ⟨2, []⟩ (Text.ofString "a, b") = .ok edited ∧
    edited.toSource = .ok (Text.ofString "a, b(x);") ∧
    parseProgram (Text.ofString "a, b(x);") = .ok program ∧
    edited.tree.shape ≠ program.shape := by
  have made : (Document.parse applying).toOption.any (fun document =>
      (document.replaceCallee ⟨2, []⟩ (Text.ofString "a, b")).toOption.any fun edited =>
        decide (edited.toSource.toOption = some (Text.ofString "a, b(x);")) &&
        decide ((edited.tree.shape.descend [0, 0]).label? = some .call)) = true := by
    decide +kernel
  have read : (parseProgram (Text.ofString "a, b(x);")).toOption.any (fun program =>
      decide ((program.shape.descend [0, 0]).label? = some .sequence)) = true := by
    decide +kernel
  obtain ⟨document, parsed, made⟩ := Option.any_eq_true _ _ |>.1 made
  obtain ⟨edited, replaced, made⟩ := Option.any_eq_true _ _ |>.1 made
  obtain ⟨program, accepted, sequence⟩ := Option.any_eq_true _ _ |>.1 read
  simp only [Bool.and_eq_true, decide_eq_true_eq] at made sequence
  refine ⟨document, edited, program, eq_ok_of_toOption parsed, eq_ok_of_toOption replaced,
    eq_ok_of_toOption made.1, eq_ok_of_toOption accepted, fun same => ?_⟩
  rw [same, sequence] at made
  cases made.2

end Document

end Uncurry
