import Uncurry.Document.Basic
import Uncurry.Proofs.Document.Parts
import Mathlib.Data.List.Nodup
import Mathlib.Data.List.Pairwise

/-!
# Numbers of nodes and leaves

As long as no number occurs twice, a number leads to its part, and every part but the root is a
child of one part alone. Numbering gives each part a number of its own.
-/
namespace Uncurry.Tree

/-- The number of a node or leaf. -/
def id? (tree : DocumentTree) : Option NodeId := tree.info?.map (·.id)

/-- The numbers of all parts of some trees. -/
def idsAmong (trees : List DocumentTree) : List NodeId := (partsAmong trees).filterMap id?

variable {id : NodeId} {tree part other : DocumentTree} {trees children : List DocumentTree}
  {label : Label} {mark : Mark}

theorem hasId_iff : tree.hasId id = true ↔ tree.id? = some id := by
  cases tree <;> simp [hasId, id?, info?]

@[simp] theorem idsAmong_nil : idsAmong [] = [] := rfl

theorem idsAmong_cons (tree : DocumentTree) (trees : List DocumentTree) :
    idsAmong (tree :: trees) = tree.parts.filterMap id? ++ idsAmong trees := by
  simp [idsAmong]

@[simp] theorem idsAmong_append (trees more : List DocumentTree) :
    idsAmong (trees ++ more) = idsAmong trees ++ idsAmong more := by
  simp [idsAmong]

mutual

/-- A number is looked up among the parts, the first of which counts. -/
theorem withId?_eq (id : NodeId) :
    (tree : DocumentTree) → tree.withId? id = tree.parts.find? (·.hasId id)
  | missing => rfl
  | leaf _ _ mark => by
    by_cases h : mark.id = id <;> simp [withId?, hasId, info?, h]
  | node _ children mark => by
    rw [withId?, withIdAmong?_eq id children]
    by_cases h : mark.id = id <;> simp [hasId, info?, h]

theorem withIdAmong?_eq (id : NodeId) :
    (trees : List DocumentTree) → withIdAmong? id trees = (partsAmong trees).find? (·.hasId id)
  | [] => rfl
  | tree :: trees => by
    rw [withIdAmong?, withId?_eq id tree, withIdAmong?_eq id trees, partsAmong_cons,
      List.find?_append]
    cases tree.parts.find? (·.hasId id) <;> rfl

end

/-- Parts with the same number are the same if no number occurs twice. -/
theorem eq_of_id (unique : (idsAmong trees).Nodup) (here : part ∈ partsAmong trees)
    (there : other ∈ partsAmong trees) (h : part.id? = some id) (h' : other.id? = some id) :
    part = other := by
  have apart : (partsAmong trees).Pairwise fun a b => ¬(a.id? = some id ∧ b.id? = some id) := by
    rw [idsAmong, List.Nodup, List.pairwise_filterMap] at unique
    exact unique.imp fun distinct both => distinct id both.1 id both.2 rfl
  have : Std.Symm fun a b : DocumentTree => ¬(a.id? = some id ∧ b.id? = some id) :=
    ⟨fun _ _ apart both => apart both.symm⟩
  by_contra different
  exact apart.forall here there different ⟨h, h'⟩

/-- A node has another number than what it holds. -/
theorem notMem_idsAmong_children (unique : (idsAmong trees).Nodup)
    (inside : node label children mark ∈ partsAmong trees) : mark.id ∉ idsAmong children := by
  have own := unique.sublist ((parts_sublist_among trees inside).filterMap id?)
  exact (List.nodup_cons.1 own).1

/-- The numbers of the children of a part. -/
def childIds (part : DocumentTree) : List NodeId := part.children.filterMap id?

mutual

/-- Every part but the root is a child of a part. -/
theorem ids_perm : (tree : DocumentTree) →
    (tree.parts.filterMap id?).Perm (tree.id?.toList ++ tree.parts.flatMap childIds)
  | missing => .refl _
  | leaf _ _ _ => .refl _
  | node label children mark => by
    refine .cons mark.id ?_
    exact idsAmong_perm children

theorem idsAmong_perm : (trees : List DocumentTree) →
    (idsAmong trees).Perm (trees.filterMap id? ++ (partsAmong trees).flatMap childIds)
  | [] => .refl _
  | tree :: trees => by
    have first := ids_perm tree
    have later := idsAmong_perm trees
    have split : (tree :: trees).filterMap id? = tree.id?.toList ++ trees.filterMap id? := by
      cases h : tree.id? <;> simp [h]
    rw [idsAmong_cons, split, partsAmong_cons, List.flatMap_append]
    refine (first.append later).trans ?_
    rw [List.append_assoc, List.append_assoc]
    refine .append_left _ ?_
    rw [← List.append_assoc, ← List.append_assoc]
    exact .append_right _ List.perm_append_comm

end

/-- No two parts share a child. -/
theorem childIds_disjoint (unique : (idsAmong trees).Nodup) :
    (partsAmong trees).Pairwise (Function.onFun List.Disjoint childIds) := by
  have below := ((idsAmong_perm trees).nodup_iff.1 unique).of_append_right
  exact (List.nodup_flatMap.1 below).2

/-- Parts that share a child are the same. -/
theorem eq_of_childIds (unique : (idsAmong trees).Nodup) (here : part ∈ partsAmong trees)
    (there : other ∈ partsAmong trees) (h : id ∈ part.childIds) (h' : id ∈ other.childIds) :
    part = other := by
  have : Std.Symm (Function.onFun List.Disjoint childIds) :=
    ⟨fun _ _ apart _ here there => apart there here⟩
  by_contra different
  exact (childIds_disjoint unique).forall here there different h h'

mutual

/-- The parts of a tree take as many numbers as there are, one after the other. -/
theorem number_ids (inserted : Bool) (next : NodeId) : (tree : Tree Span) →
    ∃ count, (tree.number inserted next).2 = next + count ∧
      (tree.number inserted next).1.parts.filterMap id? = List.range' next count
  | missing => ⟨0, rfl, rfl⟩
  | leaf _ _ _ => ⟨1, rfl, rfl⟩
  | node _ children _ => by
    obtain ⟨count, after, ids⟩ := numberAll_ids inserted (next + 1) children
    refine ⟨count + 1, by rw [number, after]; exact Nat.add_right_comm next 1 count, ?_⟩
    rw [List.range'_succ, ← ids]
    rfl

theorem numberAll_ids (inserted : Bool) (next : NodeId) : (trees : List (Tree Span)) →
    ∃ count, (numberAll inserted next trees).2 = next + count ∧
      idsAmong (numberAll inserted next trees).1 = List.range' next count
  | [] => ⟨0, rfl, rfl⟩
  | tree :: trees => by
    obtain ⟨count, after, ids⟩ := number_ids inserted next tree
    obtain ⟨count', after', ids'⟩ := numberAll_ids inserted (tree.number inserted next).2 trees
    refine ⟨count + count', by rw [numberAll, after', after]; exact Nat.add_assoc .., ?_⟩
    rw [numberAll, idsAmong_cons, ids, ids', after, List.range'_append_1]

end

mutual

/-- Numbering keeps the tree. -/
theorem map_number (inserted : Bool) (next : NodeId) : (tree : Tree Span) →
    (tree.number inserted next).1.map Mark.span = tree
  | missing => rfl
  | leaf _ _ _ => rfl
  | node label children span => by
    rw [number, map, mapAll_numberAll inserted (next + 1) children]

theorem mapAll_numberAll (inserted : Bool) (next : NodeId) : (trees : List (Tree Span)) →
    mapAll Mark.span (numberAll inserted next trees).1 = trees
  | [] => rfl
  | tree :: trees => by
    rw [numberAll, mapAll, map_number inserted next tree, mapAll_numberAll inserted _ trees]

end

mutual

/-- The parts of a numbered tree know whether they are inserted. -/
theorem number_inserted (inserted : Bool) (next : NodeId) : (tree : Tree Span) →
    ∀ part ∈ (tree.number inserted next).1.parts, part.info?.map Mark.inserted = some inserted
  | missing => by simp [number]
  | leaf _ _ _ => by simp [number, info?]
  | node _ children _ => by
    intro part member
    rcases List.mem_cons.1 member with rfl | member
    · rfl
    · exact numberAll_inserted inserted (next + 1) children part member

theorem numberAll_inserted (inserted : Bool) (next : NodeId) : (trees : List (Tree Span)) →
    ∀ part ∈ partsAmong (numberAll inserted next trees).1,
      part.info?.map Mark.inserted = some inserted
  | [] => by simp [numberAll]
  | tree :: trees => by
    intro part member
    rcases List.mem_append.1 member with member | member
    · exact number_inserted inserted next tree part member
    · exact numberAll_inserted inserted _ trees part member

end

/-- What never changes about a node. -/
def ref? : DocumentTree → Option NodeRef
  | node label _ mark => some ⟨label, mark⟩
  | _ => none

theorem eq_node_of_ref? {ref : NodeRef} (h : tree.ref? = some ref) :
    ∃ children, tree = node ref.label children ref.mark := by
  cases tree with
  | node label children mark =>
    obtain rfl := Option.some.inj h
    exact ⟨children, rfl⟩
  | missing => cases h
  | leaf => cases h

mutual

/-- The paths of a tree lead to its nodes. -/
theorem pathsFrom_map (parent : Option NodeRef) (index : Nat) : (tree : DocumentTree) →
    (tree.pathsFrom parent index).map (fun path => (path.parent.map (·.label), path.node)) =
      (tree.visits (parent.map (·.label))).filterMap fun visit => visit.2.ref?.map (visit.1, ·)
  | missing => rfl
  | leaf _ _ _ => rfl
  | node label children mark => by
    rw [pathsFrom, List.map_cons, pathsAmong_map (some ⟨label, mark⟩) 0 children]
    rfl

theorem pathsAmong_map (parent : Option NodeRef) (index : Nat) : (trees : List DocumentTree) →
    (pathsAmong parent index trees).map (fun path => (path.parent.map (·.label), path.node)) =
      (visitsAmong (parent.map (·.label)) trees).filterMap
        fun visit => visit.2.ref?.map (visit.1, ·)
  | [] => rfl
  | tree :: trees => by
    rw [pathsAmong, List.map_append, pathsFrom_map parent index tree,
      pathsAmong_map parent (index + 1) trees, visitsAmong, List.filterMap_append]

end

theorem paths_map_node (tree : DocumentTree) :
    tree.paths.map (·.node) = tree.nodes.filterMap ref? := by
  have refs := congrArg (List.map (·.2)) (pathsFrom_map none 0 tree)
  rw [List.map_map, List.map_filterMap] at refs
  rw [paths, nodes, List.filterMap_map]
  refine refs.trans (congrArg (List.filterMap · _) (funext fun visit => ?_))
  simp [Function.comp_def]

theorem filterMap_ref? (tree : DocumentTree) :
    tree.nodes.filterMap ref? = tree.parts.filterMap ref? := by
  rw [nodes_eq_parts, List.filterMap_filter]
  refine congrArg (List.filterMap · _) (funext fun part => ?_)
  cases part <;> rfl

mutual

/-- A path says where its node stands among the children of its parent. -/
theorem slot_of_pathsFrom {path : NodePath} {parent : Option NodeRef} {index : Nat} :
    (tree : DocumentTree) → path ∈ tree.pathsFrom parent index →
    (path.parent = parent ∧ path.index = index ∧ tree.ref? = some path.node) ∨
      ∃ above children child, path.parent = some above ∧
        node above.label children above.mark ∈ tree.parts ∧
        children[path.index]? = some child ∧ child.ref? = some path.node
  | missing, inside => by cases inside
  | leaf _ _ _, inside => by cases inside
  | node label children mark, inside => by
    rcases List.mem_cons.1 inside with rfl | inside
    · exact .inl ⟨rfl, rfl, rfl⟩
    · right
      rcases slot_of_pathsAmong children inside with
        ⟨parent, i, child, place, at_index, same⟩ | ⟨above, below, child, parent, deeper, rest⟩
      · rw [Nat.zero_add] at place
        exact ⟨⟨label, mark⟩, children, child, parent, List.mem_cons_self, place ▸ at_index, same⟩
      · exact ⟨above, below, child, parent, List.mem_cons_of_mem _ deeper, rest⟩

theorem slot_of_pathsAmong {path : NodePath} {parent : Option NodeRef} {index : Nat} :
    (trees : List DocumentTree) → path ∈ pathsAmong parent index trees →
    (path.parent = parent ∧ ∃ i child, path.index = index + i ∧ trees[i]? = some child ∧
        child.ref? = some path.node) ∨
      ∃ above children child, path.parent = some above ∧
        node above.label children above.mark ∈ partsAmong trees ∧
        children[path.index]? = some child ∧ child.ref? = some path.node
  | tree :: trees, inside => by
    rcases List.mem_append.1 inside with inside | inside
    · rcases slot_of_pathsFrom tree inside with
        ⟨parent, place, same⟩ | ⟨above, below, child, parent, deeper, rest⟩
      · exact .inl ⟨parent, 0, tree, place, rfl, same⟩
      · exact .inr ⟨above, below, child, parent, List.mem_append_left _ deeper, rest⟩
    · rcases slot_of_pathsAmong trees inside with
        ⟨parent, i, child, place, at_index, same⟩ | ⟨above, below, child, parent, deeper, rest⟩
      · exact .inl ⟨parent, i + 1, child, by omega, at_index, same⟩
      · exact .inr ⟨above, below, child, parent, List.mem_append_right _ deeper, rest⟩

end

/-- A node of some trees has a node among its children. -/
def Holds (trees : List DocumentTree) (above below : NodeRef) : Prop :=
  ∃ children child, node above.label children above.mark ∈ partsAmong trees ∧ child ∈ children ∧
    child.ref? = some below

/-- The parent of a path has the node of the path among its children. -/
theorem holds_of_pathsFrom {path : NodePath} {parent : Option NodeRef} {index : Nat}
    (tree : DocumentTree) (inside : path ∈ tree.pathsFrom parent index) :
    (path.parent = parent ∧ tree.ref? = some path.node) ∨
      ∃ above, path.parent = some above ∧ Holds [tree] above path.node := by
  rcases slot_of_pathsFrom tree inside with
    ⟨parent, _, same⟩ | ⟨above, children, child, parent, deeper, at_index, same⟩
  · exact .inl ⟨parent, same⟩
  · exact .inr ⟨above, parent, children, child, by simp [deeper], List.mem_of_getElem? at_index,
      same⟩

variable {change : List DocumentTree → List DocumentTree}

/-- What is known of a part without looking inside: its label, the name it is, its mark. -/
abbrev Face := Option Label × Option Text × Option Mark

def face (tree : DocumentTree) : Face := (tree.label?, tree.identifier?, tree.info?)

@[simp] theorem face_modifyChildren (id : NodeId) (tree : DocumentTree) :
    (tree.modifyChildren id change).face = tree.face := by
  cases tree with
  | missing => rfl
  | leaf _ _ _ => rfl
  | node label children mark =>
    rw [modifyChildren]
    split <;> rfl

@[simp] theorem id?_modifyChildren (target : NodeId) (tree : DocumentTree) :
    (tree.modifyChildren target change).id? = tree.id? := by
  have same := congrArg (·.2.2) (@face_modifyChildren change target tree)
  exact congrArg (Option.map Mark.id) same

theorem label?_modifyChildren (target : NodeId) (tree : DocumentTree) :
    (tree.modifyChildren target change).label? = tree.label? :=
  congrArg (·.1) (face_modifyChildren target tree)

theorem ref?_modifyChildren (target : NodeId) (tree : DocumentTree) :
    (tree.modifyChildren target change).ref? = tree.ref? := by
  cases tree with
  | missing => rfl
  | leaf _ _ _ => rfl
  | node label children mark =>
    rw [modifyChildren]
    split <;> rfl

theorem modifyChildrenAmong_eq (id : NodeId) (trees : List DocumentTree) :
    modifyChildrenAmong id change trees = trees.map (modifyChildren id change) := by
  induction trees with
  | nil => rfl
  | cons tree trees ih => rw [modifyChildrenAmong, ih, List.map_cons]

/-- The faces of the children of a part that is not the one changed stay. -/
theorem children_modifyChildren {target : NodeId} (other : tree.id? ≠ some target) :
    (tree.modifyChildren target change).children.map face = tree.children.map face := by
  cases tree with
  | missing => rfl
  | leaf _ _ _ => rfl
  | node label children mark =>
    rw [modifyChildren, if_neg fun same => other (congrArg some same)]
    simp only [Tree.children, modifyChildrenAmong_eq, List.map_map]
    exact List.map_congr_left fun child _ => face_modifyChildren target child

mutual

/-- The parts after a change are parts from before, themselves changed, or among the new children
of the node that is changed. -/
theorem mem_parts_modifyChildren (id : NodeId) : (tree : DocumentTree) →
    ∀ part ∈ (tree.modifyChildren id change).parts,
      (∃ old ∈ tree.parts, part = old.modifyChildren id change) ∨
      ∃ label children mark, node label children mark ∈ tree.parts ∧ mark.id = id ∧
        part ∈ partsAmong (change children)
  | missing => by simp [modifyChildren]
  | leaf kind text mark => by simp [modifyChildren]
  | node label children mark => by
    intro part member
    by_cases here : mark.id = id
    · rw [modifyChildren, if_pos here, parts_node, List.mem_cons] at member
      rcases member with rfl | member
      · exact .inl ⟨_, List.mem_cons_self, by rw [modifyChildren, if_pos here]⟩
      · exact .inr ⟨label, children, mark, List.mem_cons_self, here, member⟩
    · rw [modifyChildren, if_neg here, parts_node, List.mem_cons] at member
      rcases member with rfl | member
      · exact .inl ⟨_, List.mem_cons_self, by rw [modifyChildren, if_neg here]⟩
      · rcases mem_partsAmong_modifyChildren id children part member with
          ⟨old, inside, same⟩ | ⟨label', children', mark', inside, rest⟩
        · exact .inl ⟨old, List.mem_cons_of_mem _ inside, same⟩
        · exact .inr ⟨label', children', mark', List.mem_cons_of_mem _ inside, rest⟩

theorem mem_partsAmong_modifyChildren (id : NodeId) : (trees : List DocumentTree) →
    ∀ part ∈ partsAmong (modifyChildrenAmong id change trees),
      (∃ old ∈ partsAmong trees, part = old.modifyChildren id change) ∨
      ∃ label children mark, node label children mark ∈ partsAmong trees ∧ mark.id = id ∧
        part ∈ partsAmong (change children)
  | [] => by simp [modifyChildrenAmong]
  | tree :: trees => by
    intro part member
    rcases List.mem_append.1 member with member | member
    · rcases mem_parts_modifyChildren id tree part member with
        ⟨old, inside, same⟩ | ⟨label, children, mark, inside, rest⟩
      · exact .inl ⟨old, List.mem_append_left _ inside, same⟩
      · exact .inr ⟨label, children, mark, List.mem_append_left _ inside, rest⟩
    · rcases mem_partsAmong_modifyChildren id trees part member with
        ⟨old, inside, same⟩ | ⟨label, children, mark, inside, rest⟩
      · exact .inl ⟨old, List.mem_append_right _ inside, same⟩
      · exact .inr ⟨label, children, mark, List.mem_append_right _ inside, rest⟩

end

mutual

/-- What is seen of a part by its face is still seen in the tree behind a change of the children of
a node, if it is still seen among these. -/
theorem mem_seen_modifyChildren {β : Type} {see : DocumentTree → Option β} {seen : β}
    {target : NodeId}
    (same : ∀ tree : DocumentTree, see (tree.modifyChildren target change) = see tree) :
    (tree : DocumentTree) →
    (∀ label children mark, node label children mark ∈ tree.parts → mark.id = target →
      seen ∈ (partsAmong children).filterMap see →
        seen ∈ (partsAmong (change children)).filterMap see) →
    seen ∈ tree.parts.filterMap see → seen ∈ (tree.modifyChildren target change).parts.filterMap see
  | missing, _, member => member
  | leaf _ _ _, _, member => member
  | node label children mark, kept, member => by
    obtain ⟨part, inside, is⟩ := List.mem_filterMap.1 member
    rw [parts_node, List.mem_cons] at inside
    rcases inside with rfl | inside
    · refine List.mem_filterMap.2 ⟨_, ?_, (same _).trans is⟩
      rw [modifyChildren]
      split <;> exact List.mem_cons_self
    · have below : seen ∈ (partsAmong children).filterMap see :=
        List.mem_filterMap.2 ⟨part, inside, is⟩
      by_cases here : mark.id = target
      · rw [modifyChildren, if_pos here, parts_node]
        exact ((List.sublist_cons_self _ _).filterMap see).subset
          (kept label children mark List.mem_cons_self here below)
      · rw [modifyChildren, if_neg here, parts_node]
        refine ((List.sublist_cons_self _ _).filterMap see).subset
          (mem_seenAmong_modifyChildren same children ?_ below)
        exact fun label children mark inside =>
          kept label children mark (List.mem_cons_of_mem _ inside)

theorem mem_seenAmong_modifyChildren {β : Type} {see : DocumentTree → Option β} {seen : β}
    {target : NodeId}
    (same : ∀ tree : DocumentTree, see (tree.modifyChildren target change) = see tree) :
    (trees : List DocumentTree) →
    (∀ label children mark, node label children mark ∈ partsAmong trees → mark.id = target →
      seen ∈ (partsAmong children).filterMap see →
        seen ∈ (partsAmong (change children)).filterMap see) →
    seen ∈ (partsAmong trees).filterMap see →
      seen ∈ (partsAmong (modifyChildrenAmong target change trees)).filterMap see
  | [], _, member => member
  | tree :: trees, kept, member => by
    rw [partsAmong_cons, List.filterMap_append, List.mem_append] at member
    rw [modifyChildrenAmong, partsAmong_cons, List.filterMap_append, List.mem_append]
    refine member.imp (mem_seen_modifyChildren same tree ?_)
      (mem_seenAmong_modifyChildren same trees ?_)
    · exact fun label children mark inside =>
        kept label children mark (List.mem_append_left _ inside)
    · exact fun label children mark inside =>
        kept label children mark (List.mem_append_right _ inside)

end

/-- A number that the change of the children keeps is kept by the trees. -/
theorem mem_idsAmong_modifyChildren {target : NodeId} (trees : List DocumentTree)
    (kept : ∀ label children mark, node label children mark ∈ partsAmong trees → mark.id = target →
      id ∈ idsAmong children → id ∈ idsAmong (change children))
    (member : id ∈ idsAmong trees) : id ∈ idsAmong (modifyChildrenAmong target change trees) :=
  mem_seenAmong_modifyChildren (id?_modifyChildren target) trees kept member

mutual

/-- Where its number does not occur nothing is changed. -/
theorem modifyChildren_of_notMem {target : NodeId} : (tree : DocumentTree) →
    target ∉ tree.parts.filterMap id? → tree.modifyChildren target change = tree
  | missing, _ => rfl
  | leaf _ _ _, _ => rfl
  | node label children mark, unknown => by
    have unknown' : target ∉ mark.id :: idsAmong children := unknown
    rw [List.mem_cons, not_or] at unknown'
    rw [modifyChildren, if_neg (Ne.symm unknown'.1),
      modifyChildrenAmong_of_notMem children unknown'.2]

theorem modifyChildrenAmong_of_notMem {target : NodeId} : (trees : List DocumentTree) →
    target ∉ idsAmong trees → modifyChildrenAmong target change trees = trees
  | [], _ => rfl
  | tree :: trees, unknown => by
    rw [idsAmong_cons, List.mem_append, not_or] at unknown
    rw [modifyChildrenAmong, modifyChildren_of_notMem tree unknown.1,
      modifyChildrenAmong_of_notMem trees unknown.2]

end

/-- The numbers among some trees with others put between them. -/
theorem idsAmong_inserted {statements : List DocumentTree} {brought : List NodeId} (index : Nat)
    (children : List DocumentTree) (ids : idsAmong statements = brought) :
    (idsAmong (children.take index ++ statements ++ children.drop index)).Perm
      (idsAmong children ++ brought) := by
  rw [idsAmong_append, idsAmong_append, ids, List.append_assoc]
  refine (List.Perm.append_left _ List.perm_append_comm).trans (.of_eq ?_)
  rw [← List.append_assoc, ← idsAmong_append, List.take_append_drop]

/-- The numbers among some trees without one of them. -/
theorem idsAmong_eraseIdx (index : Nat) (children : List DocumentTree) :
    (idsAmong (children.eraseIdx index) ++ idsAmong [children.getD index missing]).Perm
      (idsAmong children) := by
  induction children generalizing index with
  | nil => exact .refl _
  | cons child children ih =>
    rw [List.perm_iff_count]
    intro id
    cases index with
    | zero =>
      simp only [List.eraseIdx_cons_zero, List.getD_cons_zero, idsAmong_cons, idsAmong_nil,
        List.count_append, List.append_nil]
      omega
    | succ index =>
      have later := (ih index).count_eq id
      simp only [List.eraseIdx_cons_succ, List.getD_cons_succ, idsAmong_cons child,
        List.count_append] at later ⊢
      omega

/-- A node with other children. -/
def withChildren (change : List DocumentTree → List DocumentTree) : DocumentTree → DocumentTree
  | node label children mark => node label (change children) mark
  | other => other

mutual

/-- The node whose children are changed is found with its new children. -/
theorem withId?_modifyChildren (target : NodeId) : (tree : DocumentTree) →
    (tree.modifyChildren target change).withId? target =
      (tree.withId? target).map (withChildren change)
  | missing => rfl
  | leaf _ _ mark => by
    by_cases h : mark.id = target <;> simp [modifyChildren, withId?, withChildren, h]
  | node label children mark => by
    by_cases h : mark.id = target
    · simp [modifyChildren, withId?, withChildren, h]
    · rw [modifyChildren, if_neg h, withId?, if_neg h, withId?, if_neg h,
        withIdAmong?_modifyChildren target children]

theorem withIdAmong?_modifyChildren (target : NodeId) : (trees : List DocumentTree) →
    withIdAmong? target (modifyChildrenAmong target change trees) =
      (withIdAmong? target trees).map (withChildren change)
  | [] => rfl
  | tree :: trees => by
    rw [modifyChildrenAmong, withIdAmong?, withId?_modifyChildren target tree,
      withIdAmong?_modifyChildren target trees, withIdAmong?]
    cases tree.withId? target <;> rfl

end

/-- All parts of some trees with the number of a part look like it, to the faces of its children,
and there is one. -/
structure Keeps (trees : List DocumentTree) (id : NodeId) (model : DocumentTree) : Prop where
  present : id ∈ idsAmong trees
  alike : ∀ part ∈ partsAmong trees, part.id? = some id →
    part.face = model.face ∧ part.children.map face = model.children.map face

namespace Keeps

variable {model : DocumentTree}

/-- A part with a number of its own is kept. -/
theorem of_unique (unique : (idsAmong trees).Nodup) (inside : part ∈ partsAmong trees)
    (numbered : part.id? = some id) : Keeps trees id part := by
  refine ⟨List.mem_filterMap.2 ⟨part, inside, numbered⟩, fun other there same => ?_⟩
  obtain rfl := eq_of_id unique there inside same numbered
  exact ⟨rfl, rfl⟩

/-- What a number leads to looks like the part that is kept. -/
theorem lookup (keeps : Keeps trees id model) : ∃ part ∈ partsAmong trees,
    withIdAmong? id trees = some part ∧ part.id? = some id ∧ part.face = model.face ∧
      part.children.map face = model.children.map face := by
  obtain ⟨part, inside, numbered⟩ := List.mem_filterMap.1 keeps.present
  rw [withIdAmong?_eq]
  cases found : (partsAmong trees).find? (·.hasId id) with
  | none => exact absurd (hasId_iff.2 numbered) (List.find?_eq_none.1 found part inside)
  | some other =>
    have there := List.mem_of_find?_eq_some found
    have same : other.id? = some id := hasId_iff.1 (List.find?_some found :)
    exact ⟨other, there, rfl, same, keeps.alike other there same⟩

/-- A change of the children of another part keeps a part if it neither brings in parts of its
number nor takes them all away. -/
theorem modifyChildren {target : NodeId} (keeps : Keeps trees id model) (other : id ≠ target)
    (brings : ∀ label children mark, node label children mark ∈ partsAmong trees →
      mark.id = target → ∀ part ∈ partsAmong (change children), part.id? = some id →
        part ∈ partsAmong children)
    (leaves : ∀ label children mark, node label children mark ∈ partsAmong trees →
      mark.id = target → id ∈ idsAmong children → id ∈ idsAmong (change children)) :
    Keeps (modifyChildrenAmong target change trees) id model := by
  refine ⟨mem_idsAmong_modifyChildren trees leaves keeps.present, fun part inside same => ?_⟩
  rcases mem_partsAmong_modifyChildren target trees part inside with
    ⟨old, there, rfl⟩ | ⟨label, children, mark, there, here, below⟩
  · rw [id?_modifyChildren] at same
    obtain ⟨face_eq, children_eq⟩ := keeps.alike old there same
    have apart : old.id? ≠ some target := fun h => other (Option.some.inj (same.symm.trans h))
    exact ⟨(face_modifyChildren target old).trans face_eq,
      (children_modifyChildren apart).trans children_eq⟩
  · have inside := brings label children mark there here part below same
    exact keeps.alike part (parts_subset_among trees there (List.mem_cons_of_mem _ inside)) same

end Keeps

end Uncurry.Tree
