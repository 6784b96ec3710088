import Uncurry.Proofs.Document.Parsed
import Uncurry.Proofs.Document.Parts
import Uncurry.Proofs.Lexical.Lines

/-!
# Where the nodes of a program stand

A node spans the tokens that spell it, from the start of the first to the stop of the last. The
spans of its children lie within and apart, but for the leaf of a name that stands for its own
value, which is there twice.
-/
namespace Uncurry

namespace Span

/-- One span stops before another one starts. -/
def Before (a b : Span) : Prop := a.stop.offset ≤ b.start.offset

/-- One span neither starts nor stops behind another one. -/
def Precedes (a b : Span) : Prop :=
  a.start.offset ≤ b.start.offset ∧ a.stop.offset ≤ b.stop.offset

/-- One span lies within another one. -/
def Holds (outer inner : Span) : Prop :=
  outer.start.offset ≤ inner.start.offset ∧ inner.stop.offset ≤ outer.stop.offset

/-- A span has characters. -/
def Nonempty (span : Span) : Prop := span.start.offset < span.stop.offset

end Span

namespace Tree

/-- What trees carry, but for those that are missing. -/
def infos {α : Type} (trees : List (Tree α)) : List α := trees.filterMap info?

/-- Children that are one leaf twice: a name that is its own alias, or the name of a property that
is bound itself, perhaps with a default. -/
inductive Doubled : Label → List SyntaxTree → Prop
  | leaf {label : Label} (kind : LeafKind) (text : Text) (span : Span) : label.mayEcho = true →
      Doubled label [.leaf kind text span, .leaf kind text span]
  | pattern (kind : LeafKind) (text : Text) (span : Span) (initial : SyntaxTree) (whole : Span) :
      Doubled .patternProperty
        [.leaf kind text span, .node .assignPattern [.leaf kind text span, initial] whole]

/-- How the children of a node lie in its span. -/
structure Spread (label : Label) (children : List SyntaxTree) (span : Span) : Prop where
  nonempty : span.Nonempty
  within : ∀ inner ∈ infos children, span.Holds inner ∧ inner.Nonempty
  precede : (infos children).Pairwise Span.Precedes
  apart : (infos children).Pairwise Span.Before ∨ Doubled label children
  listing : label.isStatementList = true → label ≠ .program ∧
    ∀ inner ∈ infos children, span.start.offset < inner.start.offset

@[simp] theorem infos_nil {α : Type} : infos ([] : List (Tree α)) = [] := rfl

@[simp] theorem infos_append {α : Type} (trees more : List (Tree α)) :
    infos (trees ++ more) = infos trees ++ infos more := List.filterMap_append

end Tree

variable {taken : List Token} {tree part : SyntaxTree} {pieces : List Piece} {start stop : Nat}
  {label : Label} {children : List SyntaxTree} {span : Span}

open Uncurry.Tree (infos Spread Doubled nodesAmong partsAmong)

namespace Token.Ordered

theorem start_lt (ordered : Token.Ordered stop start taken) (nonempty : taken ≠ []) :
    start < stop := by
  cases taken with
  | nil => exact absurd rfl nonempty
  | cons first later =>
    have := ordered.1
    have := ordered.2.1
    have := ordered.2.2.start_le
    omega

/-- Tokens stand between the start of the first and the stop of the last. -/
theorem tight (ordered : Token.Ordered stop start taken) (nonempty : taken ≠ []) :
    Token.Ordered (Token.spanOf taken).stop.offset (Token.spanOf taken).start.offset taken := by
  induction taken generalizing start with
  | nil => exact absurd rfl nonempty
  | cons first later ih =>
    obtain ⟨_, ranged, rest⟩ := ordered
    cases later with
    | nil => exact ⟨Nat.le_refl _, ranged, Nat.le_refl _⟩
    | cons second later =>
      have same : (Token.spanOf (first :: second :: later)).stop =
          (Token.spanOf (second :: later)).stop := by
        simp [Token.spanOf, List.getLastD_eq_getLast?]
      rw [same]
      exact ⟨Nat.le_refl _, ranged, (ih rest (by simp)).mono rest.1⟩

/-- The span of tokens lies where they do. -/
theorem spanOf (ordered : Token.Ordered stop start taken) (nonempty : taken ≠ []) :
    start ≤ (Token.spanOf taken).start.offset ∧ (Token.spanOf taken).Nonempty ∧
      (Token.spanOf taken).stop.offset ≤ stop := by
  refine ⟨?_, (ordered.tight nonempty).start_lt nonempty, ?_⟩
  · obtain ⟨first, later, rfl⟩ := List.exists_cons_of_ne_nil nonempty
    exact ordered.1
  · rw [Token.spanOf, List.getLastD_eq_getLast?, List.getLast?_eq_some_getLast nonempty]
    exact (ordered.mem (List.getLast_mem nonempty)).2.2

end Token.Ordered

namespace Piece

/-- A piece that is no echo gives nothing with a span, or what its tokens span. -/
theorem infos_trees {piece : Piece} (plain : piece.isEcho = false)
    (parts : ∀ own sub, piece = .child own sub → Spelled own sub) :
    infos piece.trees = [] ∨ piece.tokens ≠ [] ∧
      infos piece.trees = [Token.spanOf piece.tokens] := by
  cases piece with
  | token => exact .inl rfl
  | absent => exact .inl rfl
  | word kind token => exact .inr ⟨by simp [tokens], rfl⟩
  | echo => cases plain
  | child own sub =>
    have spelled := parts own sub rfl
    exact .inr ⟨spelled.ne_nil, by simp [trees, infos, tokens, spelled.info?]⟩

/-- What plain pieces give stands one behind the other. -/
theorem infos_children (plain : ∀ piece ∈ pieces, piece.isEcho = false)
    (parts : ∀ own sub, .child own sub ∈ pieces → Spelled own sub)
    (ordered : Token.Ordered stop start (spelling pieces)) :
    (∀ inner ∈ infos (Piece.children pieces),
      start ≤ inner.start.offset ∧ inner.Nonempty ∧ inner.stop.offset ≤ stop) ∧
    (infos (Piece.children pieces)).Pairwise Span.Before := by
  induction pieces generalizing start with
  | nil => exact ⟨by simp, .nil⟩
  | cons piece pieces ih =>
    rw [spelling_cons] at ordered
    obtain ⟨between, first, later⟩ := ordered.of_append
    obtain ⟨within, pairwise⟩ := ih (fun piece member => plain piece (.tail _ member))
      (fun own sub member => parts own sub (List.mem_cons_of_mem _ member)) later
    have behind (inner : Span) (member : inner ∈ infos (Piece.children pieces)) :
        start ≤ inner.start.offset ∧ inner.Nonempty ∧ inner.stop.offset ≤ stop :=
      ⟨Nat.le_trans first.start_le (within inner member).1, (within inner member).2⟩
    rw [children_cons, Tree.infos_append]
    rcases infos_trees (plain piece List.mem_cons_self) fun own sub same =>
      parts own sub (same ▸ List.mem_cons_self) with none | ⟨nonempty, one⟩
    · rw [none, List.nil_append]
      exact ⟨behind, pairwise⟩
    · obtain ⟨front, ranged, back⟩ := first.spanOf nonempty
      rw [one, List.singleton_append, List.forall_mem_cons, List.pairwise_cons]
      refine ⟨⟨⟨front, ranged, Nat.le_trans back later.start_le⟩, behind⟩, fun inner member => ?_,
        pairwise⟩
      exact Nat.le_trans back (within inner member).1

end Piece

/-- Spans with characters that are apart follow each other. -/
theorem Span.Before.precedes {a b : Span} (h : a.Before b) (ha : a.Nonempty) (hb : b.Nonempty) :
    a.Precedes b := by
  rw [Span.Before] at h
  rw [Span.Nonempty] at ha hb
  constructor <;> omega

/-- The children of a node with an echo. -/
theorem Fits.spread_echo {kind : LeafKind} {token : Token} (fits : Fits label pieces)
    (parts : ∀ own sub, .child own sub ∈ pieces → Spelled own sub)
    (ordered : Token.Ordered stop start (Piece.spelling pieces))
    (echo : .echo kind token ∈ pieces) :
    Spread label (Piece.children pieces) (Token.spanOf (Piece.spelling pieces)) := by
  obtain ⟨echoes, next, rfl, head, again⟩ := fits.echo kind token echo
  have other : label.isStatementList = false := by
    cases label <;> first | rfl | cases echoes
  cases again with
  | word =>
    have spelling : Piece.spelling [.echo kind token, .word kind token] = [token] := rfl
    rw [spelling] at ordered ⊢
    have nonempty : token.span.Nonempty := ordered.2.1
    have both (inner : Span) (member : inner ∈ [token.span, token.span]) : inner = token.span := by
      simpa using member
    refine ⟨nonempty, fun inner member => ?_, ?_, .inr (.leaf _ _ _ echoes), by simp [other]⟩
    · rw [both inner member]
      exact ⟨⟨Nat.le_refl _, Nat.le_refl _⟩, nonempty⟩
    · exact List.pairwise_pair.2 ⟨Nat.le_refl _, Nat.le_refl _⟩
  | pattern own initial whole property =>
    have spelled := parts own _ (List.mem_cons_of_mem _ List.mem_cons_self)
    have spelling : Piece.spelling [.echo kind token,
        .child own (.node .assignPattern [.leaf kind token.text token.span, initial] whole)] =
          own := by simp [Piece.tokens]
    obtain rfl : Token.spanOf own = whole := (Option.some.inj spelled.info?).symm
    rw [spelling] at ordered ⊢
    subst property
    have ordered := ordered.tight spelled.ne_nil
    have first : (Token.spanOf own).start = token.start := by
      obtain ⟨later, rfl⟩ := List.head?_eq_some_iff.1 head
      rfl
    have inside := ordered.mem (List.mem_of_mem_head? head)
    have nonempty := ordered.start_lt spelled.ne_nil
    have infos_eq : infos (Piece.children [.echo kind token, .child own (.node .assignPattern
        [.leaf kind token.text token.span, initial] (Token.spanOf own))]) =
          [token.span, Token.spanOf own] := rfl
    refine ⟨nonempty, ?_, ?_, .inr (.pattern _ _ _ _ _), by simp [other]⟩
    · rw [infos_eq, List.forall_mem_cons, List.forall_mem_singleton]
      exact ⟨⟨⟨inside.1, inside.2.2⟩, inside.2.1⟩, ⟨Nat.le_refl _, Nat.le_refl _⟩, nonempty⟩
    · rw [infos_eq, List.pairwise_pair]
      exact ⟨Nat.le_of_eq (congrArg Location.offset first).symm, inside.2.2⟩

/-- What the label of a node says about its pieces spreads its children over its tokens. -/
theorem Fits.spread (fits : Fits label pieces)
    (parts : ∀ own sub, .child own sub ∈ pieces → Spelled own sub)
    (ordered : Token.Ordered stop start (Piece.spelling pieces))
    (nonempty : Piece.spelling pieces ≠ []) :
    Spread label (Piece.children pieces) (Token.spanOf (Piece.spelling pieces)) := by
  by_cases echoing : ∃ kind token, .echo kind token ∈ pieces
  · obtain ⟨kind, token, echo⟩ := echoing
    exact fits.spread_echo parts ordered echo
  · have plain (piece : Piece) (member : piece ∈ pieces) : piece.isEcho = false := by
      cases piece with
      | echo kind token => exact absurd ⟨kind, token, member⟩ echoing
      | _ => rfl
    have ordered := ordered.tight nonempty
    obtain ⟨within, apart⟩ := Piece.infos_children plain parts ordered
    refine ⟨ordered.start_lt nonempty, fun inner member => ?_, ?_, .inl apart, fun listed => ?_⟩
    · obtain ⟨starts, ranged, stops⟩ := within inner member
      exact ⟨⟨starts, stops⟩, ranged⟩
    · exact apart.imp_of_mem fun ha hb before =>
        before.precedes (within _ ha).2.1 (within _ hb).2.1
    · obtain ⟨inner, token, later, rfl⟩ := fits.listing listed
      refine ⟨inner, fun inner member => ?_⟩
      have behind := (Piece.infos_children (fun piece member => plain piece (.tail _ member))
        (fun own sub member => parts own sub (List.mem_cons_of_mem _ member)) ordered.2.2).1
      exact Nat.lt_of_lt_of_le ordered.2.1 (behind inner member).1

/-- The children of a tree that is spelled are spread over its tokens. -/
theorem Spelled.spread (h : Spelled taken (.node label children span))
    (ordered : Token.Ordered stop start taken) : Spread label children span := by
  obtain ⟨pieces, rfl, rfl, rfl, nonempty, fits, parts⟩ := h.of_node
  exact fits.spread parts ordered nonempty

/-- A part of what pieces give is a part of a child or the leaf of a token of its own. -/
theorem Piece.mem_partsAmong (inside : part ∈ Tree.partsAmong (Piece.children pieces)) :
    (∃ own sub, .child own sub ∈ pieces ∧ part ∈ sub.parts) ∨
      ∃ kind token, (.word kind token ∈ pieces ∨ .echo kind token ∈ pieces) ∧
        part = .leaf kind token.text token.span := by
  induction pieces with
  | nil => cases inside
  | cons piece pieces ih =>
    rw [Piece.children_cons, Tree.partsAmong_append, List.mem_append] at inside
    rcases inside with here | later
    · cases piece with
      | token => cases here
      | absent => cases here
      | word kind token =>
        exact .inr ⟨kind, token, .inl List.mem_cons_self, by simpa [Piece.trees] using here⟩
      | echo kind token =>
        exact .inr ⟨kind, token, .inr List.mem_cons_self, by simpa [Piece.trees] using here⟩
      | child own sub =>
        exact .inl ⟨own, sub, List.mem_cons_self, by simpa [Piece.trees] using here⟩
    · rcases ih later with ⟨own, sub, member, deeper⟩ | ⟨kind, token, member, same⟩
      · exact .inl ⟨own, sub, List.mem_cons_of_mem _ member, deeper⟩
      · refine .inr ⟨kind, token, ?_, same⟩
        exact member.imp (List.mem_cons_of_mem _) (List.mem_cons_of_mem _)

/-- The tokens of a piece stand together. -/
theorem Piece.infix_spelling {piece : Piece} (member : piece ∈ pieces) :
    piece.tokens <:+: Piece.spelling pieces := by
  obtain ⟨front, back, rfl⟩ := List.append_of_mem member
  rw [Piece.spelling_append, Piece.spelling_cons, ← List.append_assoc]
  exact List.infix_append _ _ _

/-- A part is spelled by a stretch of some tokens, or is the leaf of one of them. -/
def Tree.SpelledIn (code : List Token) (part : SyntaxTree) : Prop :=
  (∃ own, own <:+: code ∧ Spelled own part) ∨
    ∃ kind token, token ∈ code ∧ part = .leaf kind token.text token.span

theorem Tree.SpelledIn.mono {code : List Token} (h : part.SpelledIn taken)
    (inside : taken <:+: code) : part.SpelledIn code := by
  rcases h with ⟨own, within, spelled⟩ | ⟨kind, token, member, same⟩
  · exact .inl ⟨own, within.trans inside, spelled⟩
  · exact .inr ⟨kind, token, inside.subset member, same⟩

/-- The parts of what pieces give are spelled by their tokens if those of the children are. -/
theorem Piece.spelledIn
    (echo : ∀ kind token, .echo kind token ∈ pieces → token ∈ Piece.spelling pieces)
    (below : ∀ own sub, .child own sub ∈ pieces → ∀ part ∈ sub.parts, part.SpelledIn own) :
    ∀ part ∈ Tree.partsAmong (Piece.children pieces), part.SpelledIn (Piece.spelling pieces) := by
  intro part inside
  rcases Piece.mem_partsAmong inside with ⟨own, sub, member, deeper⟩ | ⟨kind, token, member, rfl⟩
  · exact (below own sub member part deeper).mono (Piece.infix_spelling member)
  · refine .inr ⟨kind, token, member.elim (fun word => ?_) (echo kind token), rfl⟩
    exact (Piece.infix_spelling word).subset List.mem_cons_self

/-- The parts of a tree are spelled by the tokens that spell it. -/
theorem Spelled.spelledIn (h : Spelled taken tree) : ∀ part ∈ tree.parts, part.SpelledIn taken := by
  induction h with
  | leaf token =>
    intro part inside
    obtain rfl := List.mem_singleton.1 inside
    exact .inl ⟨_, List.infix_refl _, .leaf token⟩
  | node label pieces nonempty fits parts ih =>
    intro part inside
    rcases List.mem_cons.1 inside with rfl | inside
    · exact .inl ⟨_, List.infix_refl _, .node label pieces nonempty fits parts⟩
    · refine Piece.spelledIn (fun kind token echoes => ?_) ih part inside
      obtain ⟨_, next, same, head, _⟩ := fits.echo kind token echoes
      rw [same, Piece.spelling_cons, Piece.spelling_cons]
      exact List.mem_append_right _ (List.mem_append_left _ (List.mem_of_mem_head? head))

/-- Tokens that spell a part in order span it. -/
theorem Tree.SpelledIn.ranged (h : part.SpelledIn taken) (ordered : Token.Ordered stop start taken) :
    ∃ span, part.info? = some span ∧ start ≤ span.start.offset ∧ span.Nonempty ∧
      span.stop.offset ≤ stop := by
  rcases h with ⟨own, inside, spelled⟩ | ⟨kind, token, member, rfl⟩
  · exact ⟨_, spelled.info?, (ordered.of_infix inside).spanOf spelled.ne_nil⟩
  · exact ⟨token.span, rfl, ordered.mem member⟩

/-- A node of what pieces give is a node of a child. -/
theorem Piece.mem_nodesAmong (inside : tree ∈ nodesAmong (Piece.children pieces)) :
    ∃ own sub, .child own sub ∈ pieces ∧ tree ∈ sub.nodes := by
  rw [Tree.nodesAmong_eq_parts, List.mem_filter] at inside
  obtain ⟨inside, labelled⟩ := inside
  rcases Piece.mem_partsAmong inside with ⟨own, sub, member, deeper⟩ | ⟨kind, token, _, rfl⟩
  · exact ⟨own, sub, member, Tree.nodes_eq_parts sub ▸ List.mem_filter.2 ⟨deeper, labelled⟩⟩
  · cases labelled

/-- A node that is spelled by tokens in order is ranged where they stand. -/
theorem Spelled.node_ranged (h : Spelled taken tree) {node : SyntaxTree} (inside : node ∈ tree.nodes)
    (ordered : Token.Ordered stop start taken) :
    ∃ span, node.info? = some span ∧ start ≤ span.start.offset ∧ span.Nonempty ∧
      span.stop.offset ≤ stop := by
  rw [Tree.nodes_eq_parts, List.mem_filter] at inside
  exact (h.spelledIn node inside.1).ranged ordered

/-- The nodes of what pieces give are apart, since the tokens of the pieces are. -/
theorem Piece.nodup_nodes (parts : ∀ own sub, .child own sub ∈ pieces → Spelled own sub)
    (below : ∀ own sub, .child own sub ∈ pieces → sub.nodes.Nodup)
    (ordered : Token.Ordered stop start (spelling pieces)) :
    (nodesAmong (Piece.children pieces)).Nodup := by
  induction pieces generalizing start with
  | nil => exact List.nodup_nil
  | cons piece pieces ih =>
    rw [spelling_cons] at ordered
    obtain ⟨between, first, later⟩ := ordered.of_append
    have behind := ih (fun own sub member => parts own sub (List.mem_cons_of_mem _ member))
      (fun own sub member => below own sub (List.mem_cons_of_mem _ member)) later
    rw [children_cons, Tree.nodesAmong_append]
    cases piece with
    | child own sub =>
      rw [trees, Tree.nodesAmong_cons, Tree.nodesAmong_nil, List.append_nil]
      refine List.nodup_append.2 ⟨below own sub List.mem_cons_self, behind, ?_⟩
      rintro node here _ there rfl
      obtain ⟨span, known, _, ranged, stops⟩ :=
        (parts own sub List.mem_cons_self).node_ranged here first
      obtain ⟨own', sub', member, deeper⟩ := mem_nodesAmong there
      obtain ⟨span', known', starts, _⟩ :=
        (parts own' sub' (List.mem_cons_of_mem _ member)).node_ranged deeper
          (later.of_infix (infix_spelling member))
      obtain rfl : span = span' := Option.some.inj (known.symm.trans known')
      rw [Span.Nonempty] at ranged
      omega
    | _ => simpa [trees] using behind

/-- A node is none of the nodes below it. -/
theorem Tree.node_notMem_nodesAmong {α : Type} (label : Label) (children : List (Tree α))
    (info : α) : Tree.node label children info ∉ nodesAmong children := by
  intro inside
  rw [nodesAmong_eq_parts, List.mem_filter] at inside
  have shorter := (parts_sublist_among children inside.1).length_le
  rw [parts_node, List.length_cons] at shorter
  omega

/-- The nodes of a tree that is spelled in a text are apart. -/
theorem Spelled.nodup_nodes (h : Spelled taken tree) (ordered : Token.Ordered stop start taken) :
    tree.nodes.Nodup := by
  induction h generalizing start stop with
  | leaf token => exact List.nodup_nil
  | node label pieces nonempty fits parts ih =>
    rw [Tree.nodes_node, List.nodup_cons]
    exact ⟨Tree.node_notMem_nodesAmong _ _ _, Piece.nodup_nodes parts (fun own sub member =>
      ih own sub member (ordered.of_infix (Piece.infix_spelling member))) ordered⟩

namespace Parsed

variable {source : Text} (parsed : Parsed source tree)

/-- The parts of a program are spelled by its tokens. -/
theorem spelledIn : ∀ part ∈ partsAmong parsed.trees, part.SpelledIn parsed.code := by
  rw [← parsed.children, code, parsed.spelling]
  refine Piece.spelledIn (fun kind token echo => ?_) fun own sub member =>
    (parsed.parts own sub member).spelledIn
  cases parsed.plain _ echo

/-- The statements of a program stand in the source, one behind the other. -/
theorem infos_trees : (∀ inner ∈ infos parsed.trees, inner.Nonempty ∧
      inner.stop.offset ≤ source.length) ∧ (infos parsed.trees).Pairwise Span.Before := by
  have ordered := parsed.code_ordered
  rw [code, parsed.spelling] at ordered
  rw [← parsed.children]
  obtain ⟨within, apart⟩ := Piece.infos_children parsed.plain parsed.parts ordered
  exact ⟨fun inner member => (within inner member).2, apart⟩

include parsed in
/-- No node of a program is there twice. -/
theorem nodup_nodes : tree.nodes.Nodup := by
  have ordered := parsed.code_ordered
  rw [code, parsed.spelling] at ordered
  rw [parsed.tree_eq, Tree.nodes_node, List.nodup_cons]
  refine ⟨Tree.node_notMem_nodesAmong _ _ _, ?_⟩
  rw [← parsed.children]
  exact Piece.nodup_nodes parsed.parts (fun own sub member =>
    (parsed.parts own sub member).nodup_nodes (ordered.of_infix (Piece.infix_spelling member)))
    ordered

/-- The tokens of a program are its code and the end of the input. -/
theorem exists_tokens : ∃ final, tokenize .skip source = .ok (parsed.code ++ [final]) ∧
    final.kind = .endOfInput ∧ final.start.offset = source.length := by
  obtain ⟨stop, newline, place, same⟩ := Item.tokens_eq .skip .initial .origin parsed.items
  refine ⟨⟨.endOfInput, [], ⟨stop, stop⟩, newline⟩, ?_, rfl, ?_⟩
  · rw [code, ← same]
    exact (congrArg (tokenize .skip) parsed.text.symm).trans
      (Token.readFrom_of_reads parsed.reads parsed.closed)
  · rw [Token.start, place, parsed.text]
    exact Nat.zero_add _

end Parsed

/-- A node of a program: the stretch of tokens that spells it spans it, line and column are those of
the offset it starts at, and its children are spread over its span. -/
structure Tree.Situated (source : Text) (code : List Token) (label : Label)
    (children : List SyntaxTree) (span : Span) : Prop where
  spelled : ∃ own, own <:+: code ∧ Spelled own (.node label children span) ∧
    span = Token.spanOf own
  counted : span.start.Counted source
  spread : Spread label children span

theorem Parsed.situated {source : Text} (parsed : Parsed source tree)
    (inside : .node label children span ∈ nodesAmong parsed.trees) :
    Tree.Situated source parsed.code label children span := by
  rw [Tree.nodesAmong_eq_parts, List.mem_filter] at inside
  rcases parsed.spelledIn _ inside.1 with ⟨own, within, spelled⟩ | ⟨_, _, _, other⟩
  · have spans : span = Token.spanOf own := Option.some.inj spelled.info?
    refine ⟨⟨own, within, spelled, spans⟩, ?_, spelled.spread (parsed.code_ordered.of_infix within)⟩
    obtain ⟨first, later, rfl⟩ := List.exists_cons_of_ne_nil spelled.ne_nil
    have start : Location.origin.StandsBefore source (Item.textOf parsed.items) := by
      rw [parsed.text]
      exact Location.standsBefore_origin source
    have counted := Item.code_counted start first (within.subset List.mem_cons_self)
    rw [spans]
    exact counted.1
  · cases other

/-- Where the nodes of a program stand. The node of the whole program spans the source, and its
children lie in it one behind the other. Every node below spans its own tokens from the first to the
last, and its children lie in it one behind the other too, but for a leaf that is there twice. No
node is there twice. -/
theorem parseProgram_situated {source : Text} {program : SyntaxTree}
    (accepted : parseProgram source = .ok program) :
    ∃ code final items span,
      tokenize .skip source = .ok (code ++ [final]) ∧
      final.kind = .endOfInput ∧ final.start.offset = source.length ∧
      program = .node .program items span ∧
      span.start = .origin ∧ span.stop.offset = source.length ∧
      (∀ inner ∈ infos items, span.Holds inner) ∧ (infos items).Pairwise Span.Before ∧
      (∀ label children inner, .node label children inner ∈ nodesAmong items →
        Tree.Situated source code label children inner) ∧
      program.nodes.Nodup := by
  obtain ⟨parsed⟩ := exists_parsed accepted
  obtain ⟨final, tokens, ends, place⟩ := parsed.exists_tokens
  obtain ⟨starts, stops⟩ := parsed.whole
  obtain ⟨within, apart⟩ := parsed.infos_trees
  refine ⟨parsed.code, final, parsed.trees, parsed.span, tokens, ends, place, parsed.tree_eq,
    starts, stops, fun inner member => ⟨?_, ?_⟩, apart, fun _ _ _ => parsed.situated,
    parsed.nodup_nodes⟩
  · rw [starts]
    exact Nat.zero_le _
  · rw [stops]
    exact (within inner member).2

/-- A program in which three names stand for their own values. -/
def shorthands : Text := Text.ofString "import \x7ba\x7d from 'm';\nvar \x7bb = 1, c\x7d = d;"

theorem parseProgram_situated_shorthands : ∃ program, parseProgram shorthands = .ok program ∧
    program.nodes.length = 9 ∧ program.nodes.Nodup ∧
      ∃ code children span, span.start = ⟨26, 2, 6⟩ ∧
        Tree.Situated shorthands code .patternProperty children span := by
  have read : (parseProgram shorthands).toOption.any (fun program =>
      program.nodes.length = 9 && program.nodes.any fun node =>
        node.hasLabel .patternProperty && node.info?.map Span.start = some ⟨26, 2, 6⟩) = true := by
    decide +kernel
  obtain ⟨program, found, known⟩ := (Option.any_eq_true _ _).1 read
  simp only [Bool.and_eq_true, decide_eq_true_eq, List.any_eq_true] at known
  obtain ⟨count, node, inside, labelled, place⟩ := known
  have accepted := eq_ok_of_toOption found
  obtain ⟨code, _, items, _, _, _, _, rfl, _, _, _, _, situated, nodup⟩ :=
    parseProgram_situated accepted
  refine ⟨_, accepted, count, nodup, code, ?_⟩
  rw [Tree.nodes_node] at inside
  cases node with
  | missing => cases labelled
  | leaf => cases labelled
  | node label children span =>
    obtain rfl : label = .patternProperty := by
      simpa [Tree.hasLabel, Tree.label?] using labelled
    have below := (List.mem_cons.1 inside).resolve_left (by simp)
    exact ⟨children, span, Option.some.inj place, situated _ _ _ below⟩

end Uncurry
