import Uncurry.Proofs.Document.Spans
import Uncurry.Proofs.Document.Steps

/-!
# The order in which nodes are visited

The nodes of a document are visited with a stack of those that are still to come, the first child on
top. `walk_eq` says that this is the order in which a recursion lists the paths of the tree, a node
before what it holds. In a parsed program it is the order of the source: `nodes_inOrder`.
-/
namespace Uncurry

/-- A tree that is still to be visited, with its parent, if it has one, and its place there. -/
structure Visit where
  tree : DocumentTree
  parent : Option NodeRef
  index : Nat

namespace Tree

/-- Puts the nodes among some children on a stack, the last one first. -/
def push (parent : NodeRef) (children : List (DocumentTree × Nat)) (stack : List Visit) :
    List Visit :=
  children.reverse.foldl
    (fun stack entry =>
      if entry.1.label?.isSome then ⟨entry.1, some parent, entry.2⟩ :: stack else stack)
    stack

theorem push_nil (parent : NodeRef) (stack : List Visit) : push parent [] stack = stack := rfl

theorem push_cons (parent : NodeRef) (entry : DocumentTree × Nat)
    (children : List (DocumentTree × Nat)) (stack : List Visit) :
    push parent (entry :: children) stack =
      if entry.1.label?.isSome then ⟨entry.1, some parent, entry.2⟩ :: push parent children stack
      else push parent children stack := by
  rw [push, List.reverse_cons, List.foldl_append]
  rfl

/-- How many parts are still to come. -/
def load (stack : List Visit) : Nat := (partsAmong (stack.map (·.tree))).length

theorem load_cons (visit : Visit) (stack : List Visit) :
    load (visit :: stack) = visit.tree.parts.length + load stack := by
  rw [load, List.map_cons, partsAmong_cons, List.length_append, load]

/-- No more is put on the stack than there is in the children. -/
theorem load_push_le (parent : NodeRef) (children : List DocumentTree) (index : Nat)
    (stack : List Visit) : load (push parent (children.zipIdx index) stack) ≤
      (partsAmong children).length + load stack := by
  induction children generalizing index with
  | nil =>
    rw [List.zipIdx_nil, push_nil]
    exact Nat.le_add_left _ _
  | cons child children ih =>
    have below := ih (index + 1)
    rw [List.zipIdx_cons, push_cons, partsAmong_cons, List.length_append]
    split
    · rw [load_cons]
      dsimp only
      omega
    · omega

/-- Visits what is on a stack, and all nodes below. The nodes among the children of a node are put on
the stack when the node is visited. -/
def walkFrom : List Visit → List NodePath
  | [] => []
  | ⟨node label children mark, parent, index⟩ :: stack =>
    ⟨⟨label, mark⟩, parent, index⟩ :: walkFrom (push ⟨label, mark⟩ children.zipIdx stack)
  | ⟨leaf _ _ _, _, _⟩ :: stack => walkFrom stack
  | ⟨missing, _, _⟩ :: stack => walkFrom stack
termination_by stack => (load stack, stack.length)
decreasing_by
  · have below := load_push_le ⟨label, mark⟩ children 0 stack
    refine Prod.Lex.left _ _ ?_
    rw [load_cons, parts_node, List.length_cons]
    omega
  · refine Prod.Lex.left _ _ ?_
    rw [load_cons]
    exact Nat.lt_add_of_pos_left Nat.one_pos
  · exact Prod.Lex.right _ (Nat.lt_succ_self _)

/-- Visits all nodes of a tree with a stack on which there is only the tree at first. -/
def walk (tree : DocumentTree) : List NodePath := walkFrom [⟨tree, none, 0⟩]

/-- What is put on the stack is visited in the order of the children. -/
theorem flatMap_push (parent : NodeRef) (children : List DocumentTree) (index : Nat)
    (stack : List Visit) :
    (push parent (children.zipIdx index) stack).flatMap
        (fun visit => visit.tree.pathsFrom visit.parent visit.index) =
      pathsAmong (some parent) index children ++
        stack.flatMap fun visit => visit.tree.pathsFrom visit.parent visit.index := by
  induction children generalizing index with
  | nil => rfl
  | cons child children ih =>
    rw [List.zipIdx_cons, push_cons, pathsAmong, List.append_assoc, ← ih (index + 1)]
    split
    · rfl
    · rename_i plain
      cases child with
      | node => exact absurd rfl plain
      | _ => rfl

/-- A stack is visited from its top, each tree with all that is in it before the next one. -/
theorem walkFrom_eq (stack : List Visit) :
    walkFrom stack = stack.flatMap fun visit => visit.tree.pathsFrom visit.parent visit.index := by
  fun_induction walkFrom stack with
  | case1 => rfl
  | case2 stack label children mark parent index ih =>
    rw [ih, flatMap_push]
    rfl
  | case3 stack _ _ _ _ _ ih => exact ih
  | case4 stack _ _ ih => exact ih

/-- The nodes of a tree are visited in the order in which a recursion lists their paths. -/
theorem walk_eq (tree : DocumentTree) : tree.walk = tree.paths := by
  rw [walk, walkFrom_eq, List.flatMap_singleton]
  rfl

end Tree

namespace Tree

variable {α : Type} {span : α → Span} {tree : Tree α} {trees children : List (Tree α)} {a b : Tree α}

/-- What the nodes among some trees carry. -/
def nodeInfos (trees : List (Tree α)) : List α :=
  trees.filterMap fun tree => if tree.label?.isSome then tree.info? else none

/-- A node has a span, and its child nodes lie in it, one behind the other. -/
structure Lined (span : α → Span) (children : List (Tree α)) (info : α) : Prop where
  ranged : (span info).start.offset ≤ (span info).stop.offset
  within : ∀ inner ∈ nodeInfos children, (span info).Holds (span inner)
  apart : (nodeInfos children).Pairwise fun a b => (span a).Before (span b)

/-- Two nodes in the order of the source: the second one starts no earlier and does not hold the
first, which holds it or stops before it. -/
structure InOrder (span : α → Span) (a b : Tree α) : Prop where
  outer : a ∉ b.nodes
  placed : ∃ info info', a.info? = some info ∧ b.info? = some info' ∧
    (span info).start.offset ≤ (span info').start.offset ∧
      (b ∈ a.nodes ∧ (span info).Holds (span info') ∨ (span info).Before (span info'))

/-- All nodes of some trees are lined. -/
def AllLined (span : α → Span) (nodes : List (Tree α)) : Prop :=
  ∀ label children info, node label children info ∈ nodes → Lined span children info

theorem mem_nodesAmong_iff : a ∈ nodesAmong trees ↔ ∃ tree ∈ trees, a ∈ tree.nodes := by
  induction trees with
  | nil => simp
  | cons tree trees ih => simp [ih]

theorem nodes_subset (inside : a ∈ tree.nodes) : a.nodes ⊆ tree.nodes := by
  rw [nodes_eq_parts] at inside ⊢
  rw [nodes_eq_parts]
  intro part member
  obtain ⟨deeper, labelled⟩ := List.mem_filter.1 member
  exact List.mem_filter.2 ⟨parts_subset tree (List.mem_filter.1 inside).1 deeper, labelled⟩

theorem nodes_subset_among (inside : a ∈ nodesAmong trees) : a.nodes ⊆ nodesAmong trees := by
  obtain ⟨tree, member, deeper⟩ := mem_nodesAmong_iff.1 inside
  exact fun part lower => mem_nodesAmong_iff.2 ⟨tree, member, nodes_subset deeper lower⟩

theorem eq_node_of_mem_nodes (inside : a ∈ tree.nodes) :
    ∃ label children info, a = node label children info := by
  rw [nodes_eq_parts] at inside
  have labelled := (List.mem_filter.1 inside).2
  cases a with
  | node label children info => exact ⟨label, children, info, rfl⟩
  | _ => cases labelled

theorem self_mem_nodes (label : Label) (children : List (Tree α)) (info : α) :
    node label children info ∈ (node label children info).nodes := by
  rw [nodes_node]
  exact List.mem_cons_self

theorem mem_nodeInfos {info : α} : info ∈ nodeInfos trees ↔
    ∃ label children, node label children info ∈ trees := by
  rw [nodeInfos, List.mem_filterMap]
  constructor
  · rintro ⟨tree, member, known⟩
    cases tree with
    | node label children own =>
      obtain rfl : own = info := by simpa [label?, info?] using known
      exact ⟨label, children, member⟩
    | _ => simp [label?] at known
  · rintro ⟨label, children, member⟩
    exact ⟨_, member, rfl⟩

theorem nodeInfos_cons (tree : Tree α) (trees : List (Tree α)) :
    nodeInfos (tree :: trees) = nodeInfos [tree] ++ nodeInfos trees := by
  rw [nodeInfos, ← List.singleton_append, List.filterMap_append]
  rfl

theorem AllLined.mono {nodes more : List (Tree α)} (lined : AllLined span more)
    (inside : nodes ⊆ more) : AllLined span nodes :=
  fun label children info member => lined label children info (inside member)

theorem nodesAmong_subset (label : Label) (children : List (Tree α)) (info : α) :
    nodesAmong children ⊆ (node label children info).nodes := by
  rw [nodes_node]
  exact List.subset_cons_self _ _

/-- A node lies in every node that holds it. -/
theorem holds_of_mem_nodes (label : Label) (children : List (Tree α)) (info : α)
    (lined : AllLined span (node label children info).nodes)
    (inside : a ∈ (node label children info).nodes) :
    ∃ info', a.info? = some info' ∧ (span info).Holds (span info') := by
  rw [nodes_node, List.mem_cons] at inside
  rcases inside with rfl | inside
  · exact ⟨info, rfl, Nat.le_refl _, Nat.le_refl _⟩
  · obtain ⟨child, member, deeper⟩ := mem_nodesAmong_iff.1 inside
    match child with
    | node label' children' own =>
      have below : AllLined span (node label' children' own).nodes :=
        lined.mono fun _ lower => nodesAmong_subset label children info
          (mem_nodesAmong_iff.2 ⟨_, member, lower⟩)
      obtain ⟨info', known, holds⟩ := holds_of_mem_nodes label' children' own below deeper
      have outer := (lined _ _ _ (self_mem_nodes label children info)).within own
        (mem_nodeInfos.2 ⟨_, _, member⟩)
      exact ⟨info', known, Nat.le_trans outer.1 holds.1, Nat.le_trans holds.2 outer.2⟩
termination_by sizeOf children
decreasing_by
  have := List.sizeOf_lt_of_mem member
  rw [node.sizeOf_spec] at this
  omega

/-- What lies in two spans of which one comes before the other is in this order too. -/
theorem inOrder_of_before {label label' : Label} {children' : List (Tree α)} {info info' : α}
    (lined : AllLined span (node label children info).nodes)
    (lined' : AllLined span (node label' children' info').nodes)
    (before : (span info).Before (span info')) (here : a ∈ (node label children info).nodes)
    (there : b ∈ (node label' children' info').nodes) (outer : a ∉ b.nodes) :
    InOrder span a b := by
  obtain ⟨own, known, holds⟩ := holds_of_mem_nodes label children info lined here
  obtain ⟨own', known', holds'⟩ := holds_of_mem_nodes label' children' info' lined' there
  obtain ⟨_, _, _, rfl⟩ := eq_node_of_mem_nodes here
  obtain rfl := Option.some.inj known
  have ranged := (lined _ _ _ here).ranged
  have apart := Nat.le_trans holds.2 (Nat.le_trans before holds'.1)
  exact ⟨outer, _, own', known, known', Nat.le_trans ranged apart, .inr apart⟩

mutual

/-- A node comes before everything in it, and what stands apart comes in the order of the spans. -/
theorem nodes_inOrder : (tree : Tree α) → AllLined span tree.nodes → tree.nodes.Nodup →
    tree.nodes.Pairwise (InOrder span)
  | missing, _, _ => .nil
  | leaf _ _ _, _, _ => .nil
  | node label children info, lined, unique => by
    have own := lined _ _ _ (self_mem_nodes label children info)
    rw [nodes_node, List.nodup_cons] at unique
    rw [nodes_node, List.pairwise_cons]
    refine ⟨fun b inside => ⟨fun back => ?_, ?_⟩, nodesAmong_inOrder children
      (lined.mono (nodesAmong_subset label children info)) own.apart unique.2⟩
    · exact unique.1 (nodes_subset_among inside back)
    · have deeper := nodesAmong_subset label children info inside
      obtain ⟨info', known, holds⟩ := holds_of_mem_nodes label children info lined deeper
      exact ⟨info, info', rfl, known, holds.1, .inl ⟨deeper, holds⟩⟩

theorem nodesAmong_inOrder : (trees : List (Tree α)) → AllLined span (nodesAmong trees) →
    (nodeInfos trees).Pairwise (fun a b => (span a).Before (span b)) →
    (nodesAmong trees).Nodup → (nodesAmong trees).Pairwise (InOrder span)
  | [], _, _, _ => .nil
  | tree :: trees, lined, apart, unique => by
    rw [nodesAmong_cons] at lined unique ⊢
    obtain ⟨uniqueFirst, uniqueLater, disjoint⟩ := List.nodup_append'.1 unique
    have first : AllLined span tree.nodes := lined.mono (List.subset_append_left _ _)
    have later : AllLined span (nodesAmong trees) := lined.mono (List.subset_append_right _ _)
    rw [nodeInfos_cons, List.pairwise_append] at apart
    obtain ⟨-, apartLater, before⟩ := apart
    refine List.pairwise_append.2 ⟨nodes_inOrder tree first uniqueFirst,
      nodesAmong_inOrder trees later apartLater uniqueLater, fun a here b there => ?_⟩
    obtain ⟨tree', member, deeper⟩ := mem_nodesAmong_iff.1 there
    have first' : AllLined span tree'.nodes :=
      later.mono fun _ lower => mem_nodesAmong_iff.2 ⟨tree', member, lower⟩
    cases tree with
    | missing => cases here
    | leaf => cases here
    | node label children info =>
      cases tree' with
      | missing => cases deeper
      | leaf => cases deeper
      | node label' children' info' =>
        have order := before info (mem_nodeInfos.2 ⟨_, _, List.mem_cons_self⟩) info'
          (mem_nodeInfos.2 ⟨_, _, member⟩)
        exact inOrder_of_before first first' order here deeper fun back =>
          disjoint here (nodes_subset_among there back)

end

theorem nodeInfos_sublist (trees : List (Tree α)) : (nodeInfos trees).Sublist (infos trees) := by
  have same : nodeInfos trees = infos (trees.filter (·.label?.isSome)) := by
    rw [nodeInfos, infos, List.filterMap_filter]
  rw [same]
  exact List.filter_sublist.filterMap _

theorem Spread.lined {label : Label} {children : List SyntaxTree} {own : Span}
    (spread : Spread label children own) : Lined id children own where
  ranged := Nat.le_of_lt spread.nonempty
  within inner member := (spread.within inner ((nodeInfos_sublist children).subset member)).1
  apart := by
    rcases spread.apart with apart | doubled
    · exact apart.sublist (nodeInfos_sublist children)
    · cases doubled with
      | leaf => exact .nil
      | pattern => exact List.pairwise_singleton _ _

/-- The nodes of a program are lined. -/
theorem lined_program {source : Text} {program : SyntaxTree}
    (accepted : parseProgram source = .ok program) : AllLined id program.nodes := by
  obtain ⟨_, _, items, own, _, _, _, rfl, starts, _, within, apart, situated, _⟩ :=
    parseProgram_situated accepted
  intro label children info inside
  rw [nodes_node, List.mem_cons] at inside
  rcases inside with same | inside
  · cases same
    refine ⟨?_, fun inner member => within inner ((nodeInfos_sublist _).subset member),
      apart.sublist (nodeInfos_sublist _)⟩
    rw [id, starts]
    exact Nat.zero_le _
  · exact (situated label children info inside).spread.lined

theorem nodeInfos_map {β : Type} (f : α → β) (trees : List (Tree α)) :
    nodeInfos (mapAll f trees) = (nodeInfos trees).map f := by
  rw [mapAll_eq, nodeInfos, nodeInfos, List.filterMap_map, List.map_filterMap]
  refine List.filterMap_congr fun tree _ => ?_
  cases tree <;> rfl

/-- Nodes are lined if they are so with what their information stands for. -/
theorem AllLined.of_map {β : Type} {f : α → β} {span : β → Span}
    (lined : AllLined span (tree.map f).nodes) : AllLined (fun info => span (f info)) tree.nodes := by
  intro label children info inside
  have mapped : (node label children info).map f ∈ (tree.map f).nodes := by
    rw [nodes_map]
    exact List.mem_map_of_mem inside
  obtain ⟨ranged, within, apart⟩ := lined _ _ _ mapped
  rw [nodeInfos_map] at within apart
  have apart := List.pairwise_map.1 apart
  exact ⟨ranged, fun inner member => within _ (List.mem_map_of_mem member), apart⟩

end Tree

namespace Document

variable {document : Document} {source : Text} {path : NodePath}

/-- What a path leads to, with all that is in it. -/
def subtree (document : Document) (path : NodePath) : DocumentTree :=
  document.node path.node.mark.id

/-- What the paths of a document are: visited with a stack, each node of the tree once, a node before
what it holds, and each in its place among the children of its parent. -/
structure Visited (document : Document) : Prop where
  stack : document.tree.walk = document.paths
  nodes : document.paths.map document.subtree = document.tree.nodes
  once : document.tree.nodes.Nodup
  all (way : List Nat) (label : Label) : (document.tree.descend way).hasLabel label = true →
    document.tree.descend way ∈ document.tree.nodes
  ref : ∀ path ∈ document.paths, (document.subtree path).ref? = some path.node
  slot : ∀ path ∈ document.paths,
    path.parent = none ∧ path.index = 0 ∧ document.subtree path = document.tree ∨
      ∃ above, path.parent = some above ∧
        (document.node above.mark.id).children[path.index]? = some (document.subtree path)
  found (labels : List Label) : (document.find labels).Sublist document.paths ∧
    ∀ path, path ∈ document.find labels ↔ path ∈ document.paths ∧ path.node.label ∈ labels

namespace Numbered

theorem node_of_mem {part : DocumentTree} {ref : NodeRef} (numbered : Numbered document)
    (inside : part ∈ document.tree.nodes) (known : part.ref? = some ref) :
    document.node ref.mark.id = part := by
  obtain ⟨children, rfl⟩ := Tree.eq_node_of_ref? known
  rw [Tree.nodes_eq_parts] at inside
  exact numbered.node_eq (List.mem_append_left _ (List.mem_filter.1 inside).1) rfl

/-- The paths lead to the nodes of the tree in their order. -/
theorem map_subtree (numbered : Numbered document) :
    document.paths.map document.subtree = document.tree.nodes := by
  have refs := congrArg (List.map fun ref : NodeRef => document.node ref.mark.id)
    (Tree.paths_map_node document.tree)
  rw [List.map_map, List.map_filterMap] at refs
  refine refs.trans ?_
  conv_rhs => rw [← List.filterMap_some (l := document.tree.nodes)]
  refine List.filterMap_congr fun part inside => ?_
  obtain ⟨label, children, mark, rfl⟩ := Tree.eq_node_of_mem_nodes inside
  exact congrArg some (numbered.node_of_mem inside rfl)

/-- No node is there twice. -/
theorem nodup_nodes (numbered : Numbered document) : document.tree.nodes.Nodup := by
  have unique := (List.nodup_append'.1 (Tree.idsAmong_cons _ _ ▸ numbered.unique)).1
  rw [List.Nodup, List.pairwise_filterMap] at unique
  have apart := unique.sublist (List.filter_sublist (p := (·.label?.isSome)))
  rw [← Tree.nodes_eq_parts] at apart
  refine apart.imp_of_mem fun here _ apart => ?_
  rintro rfl
  obtain ⟨label, children, mark, rfl⟩ := Tree.eq_node_of_mem_nodes here
  exact apart mark.id rfl mark.id rfl rfl

/-- The node of a path is what the path leads to. -/
theorem ref_subtree (numbered : Numbered document) (inside : path ∈ document.paths) :
    (document.subtree path).ref? = some path.node := by
  have member : path.node ∈ document.tree.nodes.filterMap Tree.ref? := by
    rw [← Tree.paths_map_node]
    exact List.mem_map_of_mem inside
  obtain ⟨part, there, same⟩ := List.mem_filterMap.1 member
  rw [subtree, numbered.node_of_mem there same, same]

/-- What is found by a label are the nodes that have it. -/
theorem map_find (numbered : Numbered document) (label : Label) :
    (document.find [label]).map document.subtree =
      document.tree.nodes.filter (·.hasLabel label) := by
  rw [← numbered.map_subtree, List.filter_map, find]
  refine congrArg (List.map _) (List.filter_congr fun path inside => ?_)
  obtain ⟨children, known⟩ := Tree.eq_node_of_ref? (numbered.ref_subtree inside)
  simp [known, Tree.hasLabel, Tree.label?]

/-- Whatever the edits, the paths of a document are what paths are meant to be. -/
theorem visited (numbered : Numbered document) : Visited document where
  stack := Tree.walk_eq document.tree
  nodes := numbered.map_subtree
  once := numbered.nodup_nodes
  all way label labelled := by
    have labelled := of_decide_eq_true labelled
    have start : document.tree ∈ Tree.partsAmong [document.tree] ∨ document.tree = .missing := by
      cases document.tree with
      | missing => exact .inr rfl
      | leaf => exact .inl (Tree.mem_partsAmong List.mem_cons_self rfl)
      | node => exact .inl (Tree.mem_partsAmong List.mem_cons_self rfl)
    rcases mem_of_descend way start with inside | missing
    · rw [Tree.partsAmong_cons, Tree.partsAmong_nil, List.append_nil] at inside
      rw [Tree.nodes_eq_parts]
      exact List.mem_filter.2 ⟨inside, by rw [labelled]; rfl⟩
    · rw [missing] at labelled
      cases labelled
  ref path inside := numbered.ref_subtree inside
  slot path inside := by
    rcases Tree.slot_of_pathsFrom document.tree inside with
      ⟨parent, index, same⟩ | ⟨above, children, child, parent, deeper, at_index, same⟩
    · refine .inl ⟨parent, index, numbered.node_of_mem ?_ same⟩
      obtain ⟨children, root⟩ := Tree.eq_node_of_ref? same
      rw [root]
      exact Tree.self_mem_nodes _ _ _
    · refine .inr ⟨above, parent, ?_⟩
      obtain ⟨below, rfl⟩ := Tree.eq_node_of_ref? same
      have lower := Tree.parts_subset _ deeper (List.mem_cons_of_mem _
        (Tree.mem_partsAmong (List.mem_of_getElem? at_index) rfl))
      rw [subtree, numbered.node_eq (List.mem_append_left _ deeper) rfl, Tree.children, at_index,
        numbered.node_eq (List.mem_append_left _ lower) rfl]
  found labels := by
    refine ⟨List.filter_sublist, fun path => ?_⟩
    rw [find, List.mem_filter, List.contains_iff_mem]

end Numbered

/-- The nodes of a program are visited in the order of its source. -/
theorem inOrder_ofTree {program : SyntaxTree} (accepted : parseProgram source = .ok program) :
    (ofTree source program).paths.Pairwise fun a b =>
      Tree.InOrder Mark.span ((ofTree source program).subtree a)
        ((ofTree source program).subtree b) := by
  have numbered := numbered_ofTree source program
  have same : (ofTree source program).tree.map Mark.span = program := Tree.map_number false 0 program
  have lined : Tree.AllLined id ((ofTree source program).tree.map Mark.span).nodes := by
    rw [same]
    exact Tree.lined_program accepted
  have order := Tree.nodes_inOrder _ lined.of_map numbered.nodup_nodes
  rw [← numbered.map_subtree] at order
  exact List.pairwise_map.1 order

end Document

end Uncurry
