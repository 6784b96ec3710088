import Uncurry.Proofs.Curry.Naming
import Uncurry.Proofs.Document.Walking
import Uncurry.Proofs.Progress.Tracking

/-!
# Uncurrying as a rewriting of trees

Calls are found before any of them is uncurried, and the tree changes under the paths to the others.
`rebuilt` is a recursion over the tree instead, from the leaves up. `uncurryCalls_rebuilds` says that
both come to the same tree, in which nothing is left to uncurry.
-/
namespace Uncurry

namespace Curry

variable {α β : Type} {table : ArityTable}

/-- The member of a curried function that takes all arguments at once. -/
def directMember (name : Text) : Tree Unit :=
  .node .member [.leaf (.token .identifier) name (),
    .leaf (.token .identifier) (Text.ofString "f") ()] ()

/-- The call of a site with this member for its callee and without its first argument. All else stays
as it is. -/
def uncurriedNode (table : ArityTable) (tree : Tree Unit) : Tree Unit :=
  match site? table tree with
  | some site => .node .call
      [directMember site.name, .node .args ((tree.child 1).children.drop 1) ()] ()
  | none => tree

mutual

/-- A tree without what is known of its nodes and with the calls of all sites uncurried, those in a
node before the node itself. -/
def rebuilt (table : ArityTable) : Tree α → Tree Unit
  | .missing => .missing
  | .leaf kind text _ => .leaf kind text ()
  | .node label children _ => uncurriedNode table (.node label (rebuiltAll table children) ())

def rebuiltAll (table : ArityTable) : List (Tree α) → List (Tree Unit)
  | [] => []
  | tree :: trees => rebuilt table tree :: rebuiltAll table trees

end

theorem rebuiltAll_eq (trees : List (Tree α)) :
    rebuiltAll table trees = trees.map (rebuilt table) := by
  induction trees with
  | nil => rfl
  | cons tree trees ih => rw [rebuiltAll, ih, List.map_cons]

theorem uncurriedNode_of_none {tree : Tree Unit} (plain : site? table tree = none) :
    uncurriedNode table tree = tree := by
  rw [uncurriedNode, plain]

theorem uncurriedNode_of_shape {applied name : Text} {second : Tree Unit}
    {later : List (Tree Unit)} (arity : applicationArity? applied = some (later.length + 1))
    (known : table.get? name = some ((later.length + 1 : Nat) : Int))
    (present : second.info? ≠ none) :
    uncurriedNode table (.node .call [.leaf (.token .identifier) applied (),
        .node .args (.leaf (.token .identifier) name () :: second :: later) ()] ()) =
      .node .call [directMember name, .node .args (second :: later) ()] () := by
  obtain ⟨behind, info⟩ := Option.ne_none_iff_exists'.1 present
  rw [uncurriedNode, site?_of_shape arity known info]
  rfl

theorem label?_uncurriedNode (tree : Tree Unit) :
    (uncurriedNode table tree).label? = tree.label? := by
  rw [uncurriedNode]
  split
  · rename_i site found
    obtain ⟨_, _, _, _, _, rfl, _⟩ := site?_eq_some found
    rfl
  · rfl

theorem label?_rebuilt (table : ArityTable) (tree : Tree α) :
    (rebuilt table tree).label? = tree.label? := by
  cases tree with
  | missing => rfl
  | leaf => rfl
  | node => rw [rebuilt, label?_uncurriedNode]; rfl

theorem info?_of_label? {tree : Tree Unit} {label : Label} (labelled : tree.label? = some label) :
    tree.info? = some () := by
  cases tree with
  | node => rfl
  | _ => cases labelled

theorem info?_rebuilt (tree : Tree α) :
    (rebuilt table tree).info? = tree.info?.map fun _ => () := by
  cases tree with
  | missing => rfl
  | leaf => rfl
  | node label children info =>
    exact info?_of_label? (label?_rebuilt table (.node label children info))

theorem rebuilt_node {label : Label} (other : label ≠ .call) (children : List (Tree α)) (info : α) :
    rebuilt table (.node label children info) = .node label (rebuiltAll table children) () :=
  uncurriedNode_of_none (site?_of_ne other _ _)

/-- What the children of a call are rebuilt as. -/
theorem rebuiltAll_call (callee : Tree α) (values : List (Tree α)) (list : α) :
    rebuiltAll table [callee, .node .args values list] =
      [rebuilt table callee, .node .args (rebuiltAll table values) ()] := by
  rw [rebuiltAll, rebuiltAll, rebuiltAll, rebuilt_node (by decide)]

theorem rebuilt_eq_leaf {tree : Tree α} {kind : LeafKind} {text : Text}
    (same : rebuilt table tree = .leaf kind text ()) : ∃ info, tree = .leaf kind text info := by
  cases tree with
  | missing => cases same
  | leaf kind' text' info =>
    cases same
    exact ⟨info, rfl⟩
  | node label children info =>
    have labelled := label?_rebuilt table (.node label children info)
    rw [same] at labelled
    cases labelled

theorem rebuilt_eq_args {tree : Tree α} {values : List (Tree Unit)}
    (same : rebuilt table tree = .node .args values ()) : ∃ children info,
    tree = .node .args children info ∧ rebuiltAll table children = values := by
  have labelled := label?_rebuilt table tree
  rw [same] at labelled
  obtain ⟨children, info, rfl⟩ : ∃ children info, tree = .node .args children info := by
    cases tree with
    | node label children info => exact ⟨children, info, by rw [← Option.some.inj labelled]⟩
    | _ => cases labelled
  rw [rebuilt_node (by decide)] at same
  cases same
  exact ⟨children, info, rfl, rfl⟩

/-- Whether a node is a site does not depend on what was uncurried below it. -/
theorem site?_rebuilt (label : Label) (children : List (Tree α)) (info : α) :
    (site? table (.node label (rebuiltAll table children) ())).isSome =
      (site? table (.node label children info)).isSome := by
  rw [Bool.eq_iff_iff, Option.isSome_iff_exists, Option.isSome_iff_exists]
  constructor
  · rintro ⟨site, found⟩
    obtain ⟨applied, second, later, list, whole, shape, arity, known, behind⟩ := site?_eq_some found
    obtain ⟨rfl, shape, _⟩ := Tree.node.inj shape
    rw [rebuiltAll_eq] at shape
    obtain ⟨callee, rest, rfl, callee_eq, rest_eq⟩ := List.map_eq_cons_iff.1 shape
    obtain ⟨args, rest, rfl, args_eq, none_eq⟩ := List.map_eq_cons_iff.1 rest_eq
    obtain rfl := List.map_eq_nil_iff.1 none_eq
    obtain ⟨_, rfl⟩ := rebuilt_eq_leaf callee_eq
    obtain ⟨values, _, rfl, values_eq⟩ := rebuilt_eq_args args_eq
    rw [rebuiltAll_eq] at values_eq
    obtain ⟨first, rest, rfl, first_eq, rest_eq⟩ := List.map_eq_cons_iff.1 values_eq
    obtain ⟨second, later, rfl, rfl, rfl⟩ := List.map_eq_cons_iff.1 rest_eq
    obtain ⟨_, rfl⟩ := rebuilt_eq_leaf first_eq
    rw [info?_rebuilt] at behind
    obtain ⟨_, behind, _⟩ := Option.map_eq_some_iff.1 behind
    rw [List.length_map] at arity known
    exact ⟨_, site?_of_shape arity known behind⟩
  · rintro ⟨site, found⟩
    obtain ⟨applied, second, later, list, whole, shape, arity, known, behind⟩ := site?_eq_some found
    obtain ⟨rfl, rfl, _⟩ := Tree.node.inj shape
    have present : (rebuilt table second).info? = some () := by
      rw [info?_rebuilt, behind]
      rfl
    rw [rebuiltAll_call, rebuiltAll, rebuiltAll, rebuiltAll_eq]
    exact ⟨_, site?_of_shape (by rwa [List.length_map]) (by rwa [List.length_map]) present⟩

/-- The sites of a node are one more than those in it if it is one itself, be it rebuilt or not. -/
theorem length_sites_node (label : Label) (children : List (Tree α)) (info : α) :
    (sites table (.node label children info)).length =
      (if (site? table (.node label (rebuiltAll table children) ())).isSome then 1 else 0) +
        (sitesAmong table children).length := by
  rw [sites_node, List.length_append, site?_rebuilt label children info]
  cases site? table (.node label children info) <;> rfl

mutual

/-- A tree without sites is rebuilt as it is. -/
theorem rebuilt_of_sites : (tree : Tree α) → sites table tree = [] →
    rebuilt table tree = tree.shape
  | .missing, _ => rfl
  | .leaf _ _ _, _ => rfl
  | .node label children info, free => by
    rw [sites_node, List.append_eq_nil_iff, Option.toList_eq_nil_iff] at free
    have plain : site? table (.node label (rebuiltAll table children) ()) = none := by
      rw [← Option.not_isSome_iff_eq_none, site?_rebuilt label children info, free.1]
      exact Bool.false_ne_true
    rw [rebuilt, uncurriedNode_of_none plain, rebuiltAll_of_sites children free.2, Tree.shape_node]

theorem rebuiltAll_of_sites : (trees : List (Tree α)) → sitesAmong table trees = [] →
    rebuiltAll table trees = trees.map Tree.shape
  | [], _ => rfl
  | tree :: trees, free => by
    rw [sitesAmong_cons, List.append_eq_nil_iff] at free
    rw [rebuiltAll, rebuilt_of_sites tree free.1, rebuiltAll_of_sites trees free.2, List.map_cons]

end

section

variable {applied name : Text} {member second : Tree α} {later : List (Tree α)}

/-- A call of a site is rebuilt as what it becomes if it is uncurried, and is a site less. -/
theorem rebuilt_site (arity : applicationArity? applied = some (later.length + 1))
    (known : table.get? name = some ((later.length + 1 : Nat) : Int))
    (present : second.info? ≠ none) (shape : rebuilt table member = directMember name)
    (free : sites table member = []) (callee first list whole : α) :
    let call : Tree α := .node .call [.leaf (.token .identifier) applied callee,
      .node .args (.leaf (.token .identifier) name first :: second :: later) list] whole
    let uncurried : Tree α := .node .call [member, .node .args (second :: later) list] whole
    rebuilt table uncurried = rebuilt table call ∧
      (sites table uncurried).length + 1 = (sites table call).length := by
  have behind : (rebuilt table second).info? ≠ none := by
    rwa [info?_rebuilt, Ne, Option.map_eq_none_iff]
  have plain : site? table (.node .call [directMember name,
      .node .args (rebuiltAll table (second :: later)) ()] ()) = none := rfl
  have length : (rebuiltAll table later).length = later.length := by
    rw [rebuiltAll_eq, List.length_map]
  obtain ⟨info, is⟩ := Option.ne_none_iff_exists'.1 present
  constructor
  · rw [rebuilt, rebuilt, rebuiltAll_call, rebuiltAll_call, shape, uncurriedNode_of_none plain]
    exact (uncurriedNode_of_shape (by rwa [length]) (by rwa [length]) behind).symm
  · rw [length_sites_node, rebuiltAll_call, shape, plain, sites_node, site?_of_shape arity known is]
    have list_sites (values : List (Tree α)) :
        sites table (.node .args values list) = sitesAmong table values := by
      rw [sites_node, site?_of_ne (by decide)]
      rfl
    simp only [sitesAmong_cons, sitesAmong_nil, free, list_sites, sites_leaf, List.nil_append,
      List.append_nil, Option.toList_some, List.singleton_append, List.length_cons]
    rw [Option.isSome_none, if_neg Bool.false_ne_true, Nat.zero_add]

end

/-- Calls keep their shape in what is rebuilt. -/
theorem shaped_uncurriedNode {tree : Tree Unit} (shaped : ∀ node ∈ tree.nodes, Shaped node) :
    ∀ node ∈ (uncurriedNode table tree).nodes, Shaped node := by
  cases found : site? table tree with
  | none => rwa [uncurriedNode_of_none found]
  | some site =>
    obtain ⟨applied, second, later, list, whole, rfl, arity, known, info⟩ := site?_eq_some found
    obtain ⟨_, _, _, _, shape, present⟩ := shaped _ (Tree.self_mem_nodes _ _ _) rfl
    cases shape
    rw [uncurriedNode_of_shape arity known (by simp [info])]
    intro node inside
    simp only [Tree.nodes_node, directMember, Tree.nodesAmong_cons, Tree.nodesAmong_nil,
      Tree.nodes_leaf, List.nil_append, List.append_nil, List.cons_append, List.mem_cons] at inside
    rcases inside with rfl | rfl | rfl | deeper
    · intro _
      exact ⟨_, _, _, _, rfl, fun value member => present value (List.mem_cons_of_mem _ member)⟩
    · intro labelled
      cases labelled
    · intro labelled
      cases labelled
    · refine shaped node ?_
      simp only [Tree.nodes_node, Tree.nodesAmong_cons, Tree.nodesAmong_nil, Tree.nodes_leaf,
        List.nil_append, List.append_nil, List.mem_cons]
      exact .inr (.inr deeper)

mutual

theorem shaped_rebuilt : (tree : Tree α) → (∀ node ∈ tree.nodes, Shaped node) →
    ∀ node ∈ (rebuilt table tree).nodes, Shaped node
  | .missing, _ => fun _ inside => by cases inside
  | .leaf _ _ _, _ => fun _ inside => by cases inside
  | .node label children info, shaped => by
    refine shaped_uncurriedNode fun node inside => ?_
    rw [Tree.nodes_node, List.mem_cons] at inside
    rcases inside with rfl | inside
    · intro labelled
      obtain rfl := Option.some.inj labelled
      obtain ⟨callee, values, _, _, shape, present⟩ := shaped _ (Tree.self_mem_nodes _ _ _) rfl
      cases shape
      refine ⟨rebuilt table callee, rebuiltAll table values, (), (), by rw [rebuiltAll_call],
        fun value member => ?_⟩
      rw [rebuiltAll_eq] at member
      obtain ⟨value, there, rfl⟩ := List.mem_map.1 member
      rw [info?_rebuilt, Ne, Option.map_eq_none_iff]
      exact present value there
    · refine shaped_rebuiltAll children (fun node deeper => ?_) node inside
      exact shaped node (Tree.nodesAmong_subset _ _ _ deeper)

theorem shaped_rebuiltAll : (trees : List (Tree α)) → (∀ node ∈ Tree.nodesAmong trees, Shaped node) →
    ∀ node ∈ Tree.nodesAmong (rebuiltAll table trees), Shaped node
  | [], _ => fun _ inside => by cases inside
  | tree :: trees, shaped => by
    intro node inside
    rw [Tree.nodesAmong_cons] at shaped
    rw [rebuiltAll, Tree.nodesAmong_cons] at inside
    rcases List.mem_append.1 inside with first | later
    · exact shaped_rebuilt tree (fun node here => shaped node (List.mem_append_left _ here)) node first
    · exact shaped_rebuiltAll trees (fun node here => shaped node (List.mem_append_right _ here)) node
        later

end

variable {children : List DocumentTree} {label : Label} {mark : Mark} {document after : Document}

/-- What a tree in a context is rebuilt as depends on what the tree itself is rebuilt as, and so do
the sites around it. -/
theorem rebuilt_plug {tree other : DocumentTree} (context : Tree.Context)
    (same : rebuilt table other = rebuilt table tree)
    (fewer : (sites table other).length + 1 = (sites table tree).length) :
    rebuilt table (context.plug other) = rebuilt table (context.plug tree) ∧
      (sites table (context.plug other)).length + 1 = (sites table (context.plug tree)).length := by
  induction context with
  | hole => exact ⟨same, fewer⟩
  | under label front context back mark ih =>
    have below : rebuiltAll table (front ++ context.plug other :: back) =
        rebuiltAll table (front ++ context.plug tree :: back) := by
      simp only [rebuiltAll_eq, List.map_append, List.map_cons, ih.1]
    rw [Tree.Context.plug, Tree.Context.plug, rebuilt, rebuilt, length_sites_node,
      length_sites_node, below]
    refine ⟨rfl, ?_⟩
    simp only [sitesAmong_append, sitesAmong_cons, List.length_append]
    omega

/-- Of a document no nodes were cut out. -/
structure Trimmed (document : Document) : Prop where
  numbered : document.Numbered
  leaves : ∀ tree ∈ document.cut, tree.label? = none

/-- A node of a document of which only leaves were cut out is one of its tree. -/
theorem Trimmed.mem_parts (trimmed : Trimmed document)
    (inside : .node label children mark ∈ Tree.partsAmong document.forest) :
    .node label children mark ∈ document.tree.parts := by
  rw [Document.forest, Tree.partsAmong_cons, List.mem_append] at inside
  refine inside.resolve_right fun lower => ?_
  obtain ⟨tree, member, deeper⟩ := Tree.mem_partsAmong_iff.1 lower
  have leaf := trimmed.leaves tree member
  cases tree with
  | missing => cases deeper
  | leaf => cases List.mem_singleton.1 deeper
  | node => cases leaf

/-- What is cut out beside nothing but leaves. -/
theorem label?_setAside {old : DocumentTree} {target : NodeId} {patch : Patch} {next : NodeId}
    (leaves : ∀ tree ∈ document.cut, tree.label? = none) (leaf : old.label? = none) :
    ∀ tree ∈ (document.changed target change old patch next).cut, tree.label? = none := by
  intro tree member
  rcases List.mem_cons.1 member with rfl | member
  · exact leaf
  · change tree ∈ Tree.modifyChildrenAmong target change document.cut at member
    rw [Tree.modifyChildrenAmong_eq] at member
    obtain ⟨tree, there, rfl⟩ := List.mem_map.1 member
    rw [Tree.label?_modifyChildren]
    exact leaves tree there

/-- The new callee of a call as it comes in, with numbers from some number on. -/
theorem number_direct (table : ArityTable) (name : Text) (object member own : Span)
    (next : NodeId) :
    let new := (Tree.number true next (.node .member [.leaf (.token .identifier) name object,
      .leaf (.token .identifier) (Text.ofString "f") member] own)).1
    rebuilt table new = directMember name ∧ sites table new = [] ∧
      ∀ id ∈ Tree.idsAmong [new], next ≤ id := by
  refine ⟨rebuilt_node (by decide) _ _, rfl, fun id known => ?_⟩
  obtain ⟨count, _, ids⟩ := Tree.number_ids true next (.node .member
    [.leaf (.token .identifier) name object, .leaf (.token .identifier) (Text.ofString "f") member] own)
  rw [Tree.idsAmong_cons, ids, Tree.idsAmong_nil, List.append_nil] at known
  exact (List.mem_range'_1.1 known).1

/-- Uncurrying a call gives it the member of its function for its callee and takes its first argument
away. -/
theorem Uncurried.exists_call (uncurried : Uncurried table document after)
    (plain : ∀ name arity, table.get? name = some arity → name.IsName)
    (trimmed : Trimmed document) : ∃ applied name callee first second later list whole member,
    .node .call [.leaf (.token .identifier) applied callee,
      .node .args (.leaf (.token .identifier) name first :: second :: later) list] whole ∈
        document.tree.parts ∧
    applicationArity? applied = some (later.length + 1) ∧
    table.get? name = some ((later.length + 1 : Nat) : Int) ∧ second.info? ≠ none ∧
    rebuilt table member = directMember name ∧ sites table member = [] ∧
    (∀ id ∈ Tree.idsAmong [member], document.nextId ≤ id) ∧
    after.tree = (document.tree.modifyChildren whole.id (·.set 0 member)).modifyChildren list.id
      (·.eraseIdx 0) ∧ Trimmed after := by
  obtain ⟨call, site, between, ready, found, replaced, removed⟩ := uncurried
  obtain ⟨callee, values, inside, looked, callee_eq, values_eq⟩ := ready.found
  obtain ⟨applied, second, later, rfl, rfl, info, arity, known⟩ :=
    site_faces found callee_eq values_eq
  have at_call : document.node call.whole.id = .node .call _ call.whole :=
    congrArg (·.getD .missing) looked
  obtain ⟨old, rest, whole, range, parsed, at_place, _, parses, _, rfl⟩ :=
    Document.replaceCallee_eq_ok replaced
  cases at_call.symm.trans at_place
  obtain ⟨object, member, own, reads⟩ := parseFragment_direct (plain _ _ known)
  obtain rfl := Except.ok.inj (parses.symm.trans reads)
  obtain ⟨shape, free, fresh⟩ :=
    number_direct table site.name object member own document.nextId
  have frame := trimmed.numbered.frame_set inside (.node .member
    [.leaf (.token .identifier) site.name object,
      .leaf (.token .identifier) (Text.ofString "f") member] own) ⟨range, direct site.name⟩
  generalize (Tree.number true document.nextId _).1 = new at frame shape free fresh removed ⊢
  have behind := frame.node call.whole.id (List.mem_filterMap.2 ⟨_, inside, rfl⟩)
  rw [at_call, Tree.modifyChildren, if_pos rfl] at behind
  obtain ⟨_, _, _, list, _, whole, range', at_place', bound, _, _, rfl⟩ :=
    Document.removeArgument_eq_ok removed
  cases behind.symm.trans at_place'
  have inside' := Document.mem_of_treeAt at_place'
  have below := Tree.parts_subset_among _ inside'
    (List.mem_cons_of_mem _ (Tree.mem_partsAmong (List.mem_cons_of_mem _ List.mem_cons_self) rfl))
  exact ⟨applied, site.name, site.callee, site.first, second, later, call.list, call.whole, new,
    trimmed.mem_parts inside, arity, known, by simp [info], shape, free, fresh, rfl,
    (frame.numbered.frame_eraseIdx below bound _).numbered,
    label?_setAside (label?_setAside trimmed.leaves rfl) rfl⟩

/-- Uncurrying a call leaves one site less, and does not change what the tree is rebuilt as. -/
theorem Uncurried.rebuilt_eq (uncurried : Uncurried table document after)
    (plain : ∀ name arity, table.get? name = some arity → name.IsName)
    (trimmed : Trimmed document) : Trimmed after ∧
      rebuilt table after.tree = rebuilt table document.tree ∧
      (sites table after.tree).length + 1 = (sites table document.tree).length := by
  obtain ⟨applied, name, callee, first, second, later, list, whole, member, inside, arity, known,
    present, shape, free, fresh, after_eq, trimmed'⟩ := uncurried.exists_call plain trimmed
  have unique := (List.nodup_append'.1 (Tree.idsAmong_cons _ _ ▸ trimmed.numbered.unique)).1
  have lower : list.id ∈ Tree.idsAmong [.leaf (.token .identifier) applied callee,
      .node .args (.leaf (.token .identifier) name first :: second :: later) list] :=
    List.mem_filterMap.2 ⟨_, Tree.mem_partsAmong (List.mem_cons_of_mem _ List.mem_cons_self) rfl,
      rfl⟩
  have unknown : list.id ∉ Tree.idsAmong [member] := by
    obtain ⟨part, there, same⟩ := List.mem_filterMap.1 lower
    have old := List.mem_append_left (Tree.partsAmong document.cut)
      (Tree.parts_subset _ inside (List.mem_cons_of_mem _ there))
    exact fun new => Nat.not_lt.2 (fresh _ new)
      (trimmed.numbered.fresh _ (List.mem_filterMap.2 ⟨part, old, same⟩))
  have change : Tree.modifyChildrenAmong list.id (·.eraseIdx 0) [member, .node .args
      (.leaf (.token .identifier) name first :: second :: later) list] =
        [member, .node .args (second :: later) list] := by
    have apart : list.id ∉ member.parts.filterMap Tree.id? := fun known =>
      unknown (Tree.idsAmong_cons _ _ ▸ List.mem_append_left _ known)
    rw [Tree.modifyChildrenAmong, Tree.modifyChildren_of_notMem member apart,
      Tree.modifyChildrenAmong, Tree.modifyChildren, if_pos rfl]
    rfl
  obtain ⟨same, fewer⟩ := rebuilt_site arity known present shape free callee first list whole
  rw [Tree.modifyChildren_below unique inside lower] at after_eq
  obtain ⟨context, around, changed⟩ := Tree.exists_context unique inside
  rw [after_eq, changed, List.set_cons_zero, change, ← around]
  exact ⟨trimmed', rebuilt_plug context same fewer⟩

/-- So it is with calls uncurried one after the other. -/
theorem UncurriedTimes.rebuilt_eq {count : Nat} (times : UncurriedTimes table count document after)
    (plain : ∀ name arity, table.get? name = some arity → name.IsName)
    (trimmed : Trimmed document) : Trimmed after ∧
      rebuilt table after.tree = rebuilt table document.tree ∧
      (sites table after.tree).length + count = (sites table document.tree).length := by
  induction times with
  | none document => exact ⟨trimmed, rfl, rfl⟩
  | call uncurried _ ih =>
    obtain ⟨trimmed', same, fewer⟩ := uncurried.rebuilt_eq plain trimmed
    obtain ⟨trimmed'', same', fewer'⟩ := ih trimmed'
    exact ⟨trimmed'', same'.trans same, by omega⟩

variable {workspace : Workspace}

theorem run_count_plain {paths : List NodePath} (plain : ∀ path ∈ paths, saturated? workspace.table
    (workspace.document.treeAt ⟨path.node.mark.id, []⟩) = none) :
    (Pass.count uncurryCall paths).run workspace = (.ok 0, workspace) := by
  induction paths with
  | nil => rfl
  | cons path paths ih =>
    have here := run_uncurryCall_plain rfl (plain path List.mem_cons_self)
    have later := ih fun path member => plain path (List.mem_cons_of_mem _ member)
    simp only [Pass.count, Pass.run_bind, here, later]
    rfl

/-- The pass does nothing where there are no sites. -/
theorem run_uncurryCalls_free (numbered : workspace.document.Numbered)
    (shaped : ∀ node ∈ workspace.document.tree.nodes, Shaped node)
    (free : sites workspace.table workspace.document.tree = []) :
    ∃ log, uncurryCalls.run workspace = (.ok 0, { workspace with log := log }) := by
  have plain : ∀ path ∈ workspace.document.find [.call], saturated? workspace.table
      (workspace.document.treeAt ⟨path.node.mark.id, []⟩) = none := by
    intro path found
    have seen := List.mem_map_of_mem (f := workspace.document.subtree) found
    rw [numbered.map_find] at seen
    obtain ⟨member, labelled⟩ := List.mem_filter.1 seen
    have labelled := of_decide_eq_true labelled
    obtain ⟨callee, values, list, whole, shape, present⟩ := shaped _ member labelled
    have full : saturated? workspace.table (Call.tree ⟨callee, values, list, whole⟩) = _ :=
      saturated?_tree present
    have same : workspace.document.treeAt ⟨path.node.mark.id, []⟩ =
        Call.tree ⟨callee, values, list, whole⟩ := shape
    rw [same, full, Option.map_eq_none_iff]
    rw [shape] at member
    exact List.filterMap_eq_nil_iff.1 free _ member
  have run := run_count_plain plain
  constructor
  simp only [uncurryCalls, Pass.run_bind, Pass.run_document, run, Pass.logCount, Pass.run_log,
    Pass.run_pure]
  rfl

variable {source : Text} {program : SyntaxTree}

/-- In a document without edits all calls of sites are uncurried if all names in the table are
identifiers. -/
theorem run_uncurryCalls_fresh (parsed : parseProgram source = .ok program)
    (plain : ∀ name arity, table.get? name = some arity → name.IsName) (log : List LogRecord) :
    ∃ after log', uncurryCalls.run ⟨.ofTree source program, table, log⟩ =
        (.ok (sites table program).length, ⟨after, table, log'⟩) ∧
      UncurriedTimes table (sites table program).length (.ofTree source program) after := by
  have accepted : refusal? (sites table program) = none := by
    refine refusal?_eq_none.2 fun site member => ?_
    obtain ⟨node, _, found⟩ := List.mem_filterMap.1 member
    obtain ⟨_, _, _, _, _, _, _, known, _⟩ := site?_eq_some found
    obtain ⟨_, _, _, parses⟩ := parseFragment_direct (plain _ _ known)
    exact ⟨_, parses⟩
  have disjoint : ((sites table program).flatMap Site.patches).Pairwise
      fun a b => a.range.overlaps b.range = false :=
    (edits_apart parsed table).sublist (List.sublist_append_right _ _)
  have run := @run_uncurryCalls program ⟨.ofTree source program, table, log⟩ (prepared_ofTree parsed)
    disjoint
  rw [accepted] at run
  obtain ⟨after, log', run, times, _⟩ := run
  exact ⟨after, log', run, times⟩

/-- Uncurrying the calls of a program succeeds if all names in the table are identifiers. It makes of
the tree what a recursion over it does, and counts the sites. If it is done again, it finds no more
and changes nothing. -/
theorem uncurryCalls_rebuilds {document : Document} (log : List LogRecord)
    (read : Document.parse source = .ok document)
    (plain : ∀ name arity, table.get? name = some arity → name.IsIdentifier) : ∃ after log' log'',
    uncurryCalls.run ⟨document, table, log⟩ =
      (.ok (sites table document.tree).length, ⟨after, table, log'⟩) ∧
    after.tree.shape = rebuilt table document.tree ∧
    uncurryCalls.run ⟨after, table, log'⟩ = (.ok 0, ⟨after, table, log''⟩) := by
  obtain ⟨program, parsed, rfl⟩ := Document.exists_ofTree read
  have plain := fun name arity known => Text.isIdentifier_iff.1 (plain name arity known)
  have prepared := prepared_ofTree parsed
  have count : (sites table (Document.ofTree source program).tree).length =
      (sites table program).length := by
    rw [← prepared.sites_eq table, List.length_map]
  obtain ⟨after, log', run, times⟩ := run_uncurryCalls_fresh parsed plain log
  obtain ⟨trimmed, same, fewer⟩ :=
    times.rebuilt_eq plain ⟨prepared.numbered, List.forall_mem_nil _⟩
  have free : sites table after.tree = [] := List.eq_nil_of_length_eq_zero (by omega)
  have shape : after.tree.shape = rebuilt table (Document.ofTree source program).tree :=
    (rebuilt_of_sites after.tree free).symm.trans same
  have shaped : ∀ node ∈ (rebuilt table (Document.ofTree source program).tree).nodes,
      Shaped node := by
    refine shaped_rebuilt _ fun node inside => prepared.shaped node ?_
    rw [Tree.nodes_eq_parts] at inside
    exact (List.mem_filter.1 inside).1
  obtain ⟨log'', again⟩ := @run_uncurryCalls_free ⟨after, table, log'⟩ trimmed.numbered
    (fun node inside => .of_map (f := fun _ => ()) (shaped _ (by
      rw [← shape, Tree.shape, Tree.nodes_map]
      exact List.mem_map_of_mem inside))) free
  exact ⟨after, log', log'', by rw [count, run], shape, again⟩

/-- A call of a site in an argument of another one. -/
def nestedCalls : Text := Text.ofString "A2(f, A2(f, a, b), c);"

/-- A table that says that `f` takes two arguments. -/
def binaryTable : ArityTable := .record .empty (Text.ofString "f") 2

theorem uncurryCalls_rebuilds_nestedCalls : ∃ document after log log',
    Document.parse nestedCalls = .ok document ∧
    uncurryCalls.run ⟨document, binaryTable, []⟩ = (.ok 2, ⟨after, binaryTable, log⟩) ∧
    after.tree.shape = rebuilt binaryTable document.tree ∧
    uncurryCalls.run ⟨after, binaryTable, log⟩ = (.ok 0, ⟨after, binaryTable, log'⟩) := by
  have made : (Document.parse nestedCalls).toOption.any (fun document =>
      (sites binaryTable document.tree).length = 2) = true := by
    decide +kernel
  have plain (name : Text) (arity : Int) (known : binaryTable.get? name = some arity) :
      name.IsIdentifier := by
    by_cases same : name = Text.ofString "f"
    · exact same ▸ Text.isIdentifier_iff.2 isName_f
    · rw [binaryTable, ArityTable.get?_record_of_ne _ _ same] at known
      cases known
  obtain ⟨document, read, made⟩ := (Option.any_eq_true _ _).1 made
  have read := eq_ok_of_toOption read
  obtain ⟨after, log, log', run, shape, again⟩ := uncurryCalls_rebuilds [] read plain
  rw [of_decide_eq_true made] at run
  exact ⟨document, after, log, log', read, run, shape, again⟩

end Curry

end Uncurry
