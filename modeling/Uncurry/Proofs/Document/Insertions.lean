import Mathlib.Logic.Relation
import Uncurry.Proofs.Document.Walking

/-!
# Insertions and the order of nodes

An insertion puts the nodes of its statements into the order in which nodes are visited, right
before the statement it is told, and moves no other node: `order_insertBefore`. So what is visited
before some insertions is visited behind them in the same order. `visited_inserted` puts this
together with what holds of a document without edits.
-/
namespace Uncurry

namespace Tree

variable {trees children : List DocumentTree} {label : Label} {mark : Mark}

/-- The nodes of a tree in the order in which they are visited. -/
def refs (tree : DocumentTree) : List NodeRef := tree.nodes.filterMap ref?

def refsAmong (trees : List DocumentTree) : List NodeRef := (nodesAmong trees).filterMap ref?

theorem refs_node (label : Label) (children : List DocumentTree) (mark : Mark) :
    (node label children mark).refs = ⟨label, mark⟩ :: refsAmong children := by
  rw [refs, nodes_node]
  rfl

theorem refsAmong_cons (tree : DocumentTree) (trees : List DocumentTree) :
    refsAmong (tree :: trees) = tree.refs ++ refsAmong trees := by
  rw [refsAmong, nodesAmong_cons, List.filterMap_append]
  rfl

theorem refsAmong_append (trees more : List DocumentTree) :
    refsAmong (trees ++ more) = refsAmong trees ++ refsAmong more := by
  rw [refsAmong, nodesAmong_append, List.filterMap_append]
  rfl

/-- What is visited before and behind the nodes below some node does not depend on them. -/
theorem refs_split {tree : DocumentTree} (unique : (tree.parts.filterMap id?).Nodup)
    (inside : node label children mark ∈ tree.parts) : ∃ front back,
    tree.refs = front ++ (refsAmong children ++ back) ∧ ∀ change,
      (tree.modifyChildren mark.id change).refs = front ++ (refsAmong (change children) ++ back) := by
  obtain ⟨context, rfl, changed⟩ := exists_context unique inside
  obtain ⟨front, back, seen⟩ := @Context.seen_plug NodeRef ref? (fun _ _ _ _ => rfl) context
  have split (below : List DocumentTree) : (context.plug (node label below mark)).refs =
      front ++ [⟨label, mark⟩] ++ (refsAmong below ++ back) := by
    rw [refs, filterMap_ref?, seen, ← filterMap_ref?, ← refs, refs_node, List.append_assoc]
    rfl
  refine ⟨front ++ [⟨label, mark⟩], back, split children, fun change => ?_⟩
  rw [changed, split]

end Tree

namespace Document

open Relation (ReflTransGen)

variable {source snippet : Text} {document after first later : Document} {path : NodePath}
  {insertion : Insertion}

/-- The nodes of a document in the order in which they are visited. -/
def order (document : Document) : List NodeRef := document.paths.map (·.node)

theorem order_eq (document : Document) : document.order = document.tree.refs :=
  Tree.paths_map_node document.tree

theorem Numbered.nodup_order (numbered : Numbered document) : document.order.Nodup := by
  refine List.Nodup.of_map (fun ref : NodeRef => document.node ref.mark.id) ?_
  rw [order, List.map_map]
  exact numbered.map_subtree ▸ numbered.nodup_nodes

/-- A document of which nothing was cut out. -/
structure Whole (document : Document) : Prop where
  numbered : Numbered document
  uncut : document.cut = []

theorem whole_parse (read : Document.parse source = .ok document) : Whole document := by
  obtain ⟨tree, _, rfl⟩ := exists_ofTree read
  exact ⟨numbered_ofTree source tree, rfl⟩

/-- The statement that an insertion is told stands in a list of statements of the tree. -/
theorem Whole.exists_siblings (whole : Whole document) (known : document.Knows path)
    (made : document.insertBefore path snippet = .ok insertion) :
    ∃ label children parent index below patch parsed,
      .node label children parent ∈ document.tree.parts ∧
      children.drop index =
        .node path.node.label below path.node.mark :: children.drop (index + 1) ∧
      parseProgram snippet = .ok parsed ∧
      insertion.document = document.inserted parent.id index parsed.children patch ∧
      insertion.statements = (Tree.numberAll true document.nextId parsed.children).1 := by
  obtain ⟨label, children, parent, index, range, text, parsed, _, inside, place, _, parses, _, done,
    statements⟩ := insertBefore_eq_ok whole.numbered known made
  obtain ⟨bound, found, _⟩ := List.findIdx?_eq_some_iff_getElem.1 place
  have same := Tree.hasId_iff.1 found
  obtain ⟨mark, marked, _⟩ := Option.map_eq_some_iff.1 same
  have within := Tree.parts_subset_among _ inside (List.mem_cons_of_mem _
    (Tree.mem_partsAmong (List.getElem_mem bound) marked))
  obtain ⟨statement, there, is⟩ := known path.node List.mem_cons_self
  obtain ⟨below, rfl⟩ := Tree.eq_node_of_ref? is
  have child := Tree.eq_of_id whole.numbered.unique within there same rfl
  refine ⟨label, children, parent, index, below, _, parsed, ?_, ?_, parses, done, statements⟩
  · rwa [forest, whole.uncut, Tree.partsAmong_cons, Tree.partsAmong_nil, List.append_nil] at inside
  · rw [← child, List.getElem_cons_drop]

/-- The nodes of the statements that are inserted come in right before the statement that the
insertion is told, and all other nodes stay in their order. -/
theorem Whole.order_insertBefore (whole : Whole document) (known : document.Knows path)
    (made : document.insertBefore path snippet = .ok insertion) :
    Whole insertion.document ∧ ∃ front back, document.order = front ++ path.node :: back ∧
      insertion.document.order =
        front ++ (Tree.refsAmong insertion.statements ++ path.node :: back) := by
  obtain ⟨label, children, parent, index, below, patch, parsed, inside, split, _, done, statements⟩ :=
    whole.exists_siblings known made
  have unique := (List.nodup_append'.1 (Tree.idsAmong_cons _ _ ▸ whole.numbered.unique)).1
  obtain ⟨front, back, here, changed⟩ := Tree.refs_split unique inside
  have inside : .node label children parent ∈ Tree.partsAmong document.forest :=
    List.mem_append_left _ inside
  have frame := whole.numbered.frame_insert inside index parsed.children patch
  have target : Tree.refsAmong (children.drop index) = path.node ::
      (Tree.refsAmong below ++ Tree.refsAmong (children.drop (index + 1))) := by
    rw [split, Tree.refsAmong_cons, Tree.refs_node]
    rfl
  have cut : Tree.refsAmong children =
      Tree.refsAmong (children.take index) ++ Tree.refsAmong (children.drop index) := by
    rw [← Tree.refsAmong_append, List.take_append_drop]
  refine ⟨⟨done ▸ frame.numbered, ?_⟩, front ++ Tree.refsAmong (children.take index),
    Tree.refsAmong below ++ Tree.refsAmong (children.drop (index + 1)) ++ back, ?_, ?_⟩
  · rw [done]
    change Tree.modifyChildrenAmong _ _ document.cut = []
    rw [whole.uncut]
    rfl
  · rw [order_eq, here, cut, target]
    simp only [List.append_assoc, List.cons_append]
  · have tree : insertion.document.tree = document.tree.modifyChildren parent.id fun children =>
        children.take index ++ insertion.statements ++ children.drop index := by
      rw [statements, done]
      rfl
    rw [order_eq, tree, changed, Tree.refsAmong_append, Tree.refsAmong_append, target]
    simp only [List.append_assoc, List.cons_append]

/-- One document comes from another one by an insertion before a statement of it. -/
def Grown (document after : Document) : Prop :=
  ∃ path snippet insertion, document.Knows path ∧
    document.insertBefore path snippet = .ok insertion ∧ insertion.document = after

/-- What is visited before some insertions is visited behind them in the same order. -/
theorem Whole.order_sublist (whole : Whole document) (grown : ReflTransGen Grown document later) :
    Whole later ∧ document.order.Sublist later.order := by
  induction grown with
  | refl => exact ⟨whole, List.Sublist.refl _⟩
  | tail _ last ih =>
    obtain ⟨path, snippet, insertion, known, made, rfl⟩ := last
    obtain ⟨whole', front, back, before, behind⟩ := ih.1.order_insertBefore known made
    refine ⟨whole', ih.2.trans ?_⟩
    rw [before, behind]
    exact (List.Sublist.refl front).append (List.sublist_append_right _ _)

/-- The nodes of a program are visited in the order of its source. Behind any insertions all nodes of
the tree are visited once, each in its place: those of a statement that was inserted before what it
was inserted before and behind everything that came before that, and all others in their order. -/
theorem visited_inserted (read : Document.parse source = .ok first) :
    first.paths.Pairwise (fun a b => Tree.InOrder Mark.span (first.subtree a) (first.subtree b)) ∧
    ∀ document, ReflTransGen Grown first document → Visited document ∧ document.order.Nodup ∧
      ∀ path snippet insertion, document.Knows path →
        document.insertBefore path snippet = .ok insertion →
        ∃ parsed front back, parseProgram snippet = .ok parsed ∧
          insertion.statements.map (Tree.map Mark.span) = parsed.children ∧
          document.order = front ++ path.node :: back ∧
          insertion.document.order =
            front ++ (Tree.refsAmong insertion.statements ++ path.node :: back) ∧
          ∀ later, ReflTransGen Grown insertion.document later →
            insertion.document.order.Sublist later.order ∧ later.order.Nodup := by
  constructor
  · obtain ⟨program, accepted, rfl⟩ := exists_ofTree read
    exact inOrder_ofTree accepted
  · intro document grown
    have whole := ((whole_parse read).order_sublist grown).1
    refine ⟨whole.numbered.visited, whole.numbered.nodup_order,
      fun path snippet insertion known made => ?_⟩
    obtain ⟨_, _, _, _, _, _, parsed, _, _, parses, _, statements⟩ :=
      whole.exists_siblings known made
    obtain ⟨whole', front, back, before, behind⟩ := whole.order_insertBefore known made
    refine ⟨parsed, front, back, parses, ?_, before, behind, fun later more => ?_⟩
    · rw [statements, ← Tree.mapAll_eq, Tree.mapAll_numberAll]
    · obtain ⟨last, kept⟩ := whole'.order_sublist more
      exact ⟨kept, last.numbered.nodup_order⟩

/-- A call in a call. -/
def nestedCall : Text := Text.ofString "f(g(x));"

/-- Two statements are inserted before the statement of the calls, and then one more. -/
theorem visited_inserted_nestedCall : ∃ first path insertion insertion' front back,
    Document.parse nestedCall = .ok first ∧
    first.insertBefore path (Text.ofString "a; b;") = .ok insertion ∧
    insertion.document.insertBefore path (Text.ofString "c;") = .ok insertion' ∧
    insertion.document.order = front ++ path.node :: back ∧
    insertion'.document.order =
      front ++ (Tree.refsAmong insertion'.statements ++ path.node :: back) ∧
    insertion.document.order.Sublist insertion'.document.order ∧
    insertion'.document.order.map (·.label) =
      [.program, .exprStmt, .exprStmt, .exprStmt, .exprStmt, .call, .args, .call, .args] := by
  have made : (Document.parse nestedCall).toOption.any (fun first =>
      (first.find [.exprStmt]).head?.any fun path =>
        (first.insertBefore path (Text.ofString "a; b;")).toOption.any fun insertion =>
          (insertion.document.insertBefore path (Text.ofString "c;")).toOption.any
            fun insertion' => decide (insertion'.document.order.map (·.label) =
              [.program, .exprStmt, .exprStmt, .exprStmt, .exprStmt, .call, .args, .call,
                .args])) = true := by
    decide +kernel
  obtain ⟨first, read, made⟩ := (Option.any_eq_true _ _).1 made
  obtain ⟨path, found, made⟩ := (Option.any_eq_true _ _).1 made
  obtain ⟨insertion, inserted, made⟩ := (Option.any_eq_true _ _).1 made
  obtain ⟨insertion', inserted', made⟩ := (Option.any_eq_true _ _).1 made
  have read := eq_ok_of_toOption read
  have inserted := eq_ok_of_toOption inserted
  have inserted' := eq_ok_of_toOption inserted'
  have known := knows_of_mem_paths (List.mem_filter.1 (List.mem_of_head? found)).1
  have told : ∀ path' ∈ (Edit.insertBefore path (Text.ofString "a; b;")).path?,
      first.Knows path' := by
    rintro _ ⟨⟩
    exact known
  have still := known.attempt (.parsed read) (.insertBefore path (Text.ofString "a; b;")) told
  rw [attempt, edit, inserted] at still
  obtain ⟨_, all⟩ := visited_inserted read
  obtain ⟨_, _, _, _, _, _, _, later⟩ := (all _ .refl).2.2 path _ insertion known inserted
  obtain ⟨_, front, back, _, _, before, behind, _⟩ :=
    (all _ (.single ⟨path, _, insertion, known, inserted, rfl⟩)).2.2 path _ insertion' still inserted'
  exact ⟨first, path, insertion, insertion', front, back, read, inserted, inserted', before, behind,
    (later _ (.single ⟨path, _, insertion', still, inserted', rfl⟩)).1, of_decide_eq_true made⟩

end Document

end Uncurry
