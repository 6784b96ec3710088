import Uncurry.Tree.Basic

/-!
# The parts of a tree

The parts of a tree are its nodes and leaves.
-/
namespace Uncurry.Tree

variable {α β : Type}

mutual

/-- The nodes of a tree, a node before what it holds, each with the label of its parent. -/
def visits (parent : Option Label) : Tree α → List (Option Label × Tree α)
  | .node label children info =>
    (parent, .node label children info) :: visitsAmong (some label) children
  | _ => []

def visitsAmong (parent : Option Label) : List (Tree α) → List (Option Label × Tree α)
  | [] => []
  | tree :: trees => tree.visits parent ++ visitsAmong parent trees

end

/-- The nodes of a tree, a node before what it holds. -/
def nodes (tree : Tree α) : List (Tree α) := (tree.visits none).map (·.2)

def nodesAmong (trees : List (Tree α)) : List (Tree α) := (visitsAmong none trees).map (·.2)

mutual

theorem visits_map_snd (parent : Option Label) :
    (tree : Tree α) → (tree.visits parent).map (·.2) = tree.nodes
  | .missing => rfl
  | .leaf _ _ _ => rfl
  | .node _ _ _ => rfl

theorem visitsAmong_map_snd (parent : Option Label) :
    (trees : List (Tree α)) → (visitsAmong parent trees).map (·.2) = nodesAmong trees
  | [] => rfl
  | tree :: trees => by
    rw [visitsAmong, List.map_append, visits_map_snd, visitsAmong_map_snd, nodesAmong, nodesAmong,
      visitsAmong, List.map_append]
    rfl

end

@[simp] theorem nodes_missing : (missing : Tree α).nodes = [] := rfl

@[simp] theorem nodes_leaf (kind : LeafKind) (text : Text) (info : α) :
    (leaf kind text info).nodes = [] := rfl

@[simp] theorem nodes_node (label : Label) (children : List (Tree α)) (info : α) :
    (node label children info).nodes = node label children info :: nodesAmong children := by
  rw [nodes, visits, List.map_cons, visitsAmong_map_snd]

@[simp] theorem nodesAmong_nil : nodesAmong ([] : List (Tree α)) = [] := rfl

@[simp] theorem nodesAmong_cons (tree : Tree α) (trees : List (Tree α)) :
    nodesAmong (tree :: trees) = tree.nodes ++ nodesAmong trees := by
  rw [nodesAmong, visitsAmong, List.map_append]
  rfl

@[simp] theorem nodesAmong_append (trees more : List (Tree α)) :
    nodesAmong (trees ++ more) = nodesAmong trees ++ nodesAmong more := by
  induction trees with
  | nil => rfl
  | cons tree trees ih => simp [ih]

theorem sizeOf_child [SizeOf α] {tree : Tree α} {label : Label} {children : List (Tree α)}
    {info : α} (h : tree ∈ children) : sizeOf tree < sizeOf (node label children info) := by
  have := List.sizeOf_lt_of_mem h
  rw [node.sizeOf_spec]
  omega

mutual

/-- The nodes and leaves of a tree, a node before what it holds. -/
def parts : Tree α → List (Tree α)
  | missing => []
  | leaf kind text info => [leaf kind text info]
  | node label children info => node label children info :: partsAmong children

def partsAmong : List (Tree α) → List (Tree α)
  | [] => []
  | tree :: trees => tree.parts ++ partsAmong trees

end

@[simp] theorem parts_missing : (missing : Tree α).parts = [] := rfl

@[simp] theorem parts_leaf (kind : LeafKind) (text : Text) (info : α) :
    (leaf kind text info).parts = [leaf kind text info] := rfl

@[simp] theorem parts_node (label : Label) (children : List (Tree α)) (info : α) :
    (node label children info).parts = node label children info :: partsAmong children := rfl

@[simp] theorem partsAmong_nil : partsAmong ([] : List (Tree α)) = [] := rfl

@[simp] theorem partsAmong_cons (tree : Tree α) (trees : List (Tree α)) :
    partsAmong (tree :: trees) = tree.parts ++ partsAmong trees := rfl

@[simp] theorem partsAmong_append (trees more : List (Tree α)) :
    partsAmong (trees ++ more) = partsAmong trees ++ partsAmong more := by
  induction trees with
  | nil => rfl
  | cons tree trees ih => simp [ih]

theorem partsAmong_children (tree : Tree α) : partsAmong tree.children ⊆ tree.parts := by
  cases tree with
  | node label children info => exact List.subset_cons_self _ _
  | _ => exact List.nil_subset _

theorem mem_partsAmong_iff {part : Tree α} {trees : List (Tree α)} :
    part ∈ partsAmong trees ↔ ∃ tree ∈ trees, part ∈ tree.parts := by
  induction trees with
  | nil => simp
  | cons tree trees ih => simp [ih]

theorem partsAmong_subset {trees more : List (Tree α)} (inside : trees ⊆ more) :
    partsAmong trees ⊆ partsAmong more := by
  intro part member
  obtain ⟨tree, there, deeper⟩ := mem_partsAmong_iff.1 member
  exact mem_partsAmong_iff.2 ⟨tree, inside there, deeper⟩

mutual

/-- The nodes are the parts with a label. -/
theorem visits_eq_parts (parent : Option Label) : (tree : Tree α) →
    (tree.visits parent).map (·.2) = tree.parts.filter (·.label?.isSome)
  | missing => rfl
  | leaf _ _ _ => rfl
  | node label children _ => by
    rw [visits, List.map_cons, visitsAmong_eq_parts (some label) children]
    rfl

theorem visitsAmong_eq_parts (parent : Option Label) : (trees : List (Tree α)) →
    (visitsAmong parent trees).map (·.2) = (partsAmong trees).filter (·.label?.isSome)
  | [] => rfl
  | tree :: trees => by
    rw [visitsAmong, List.map_append, visits_eq_parts parent tree,
      visitsAmong_eq_parts parent trees, partsAmong_cons, List.filter_append]

end

theorem nodesAmong_eq_parts (trees : List (Tree α)) :
    nodesAmong trees = (partsAmong trees).filter (·.label?.isSome) :=
  visitsAmong_eq_parts none trees

theorem nodes_eq_parts (tree : Tree α) : tree.nodes = tree.parts.filter (·.label?.isSome) :=
  visits_eq_parts none tree

theorem self_mem_parts {tree : Tree α} {info : α} (known : tree.info? = some info) :
    tree ∈ tree.parts := by
  cases tree with
  | missing => cases known
  | leaf => exact List.mem_cons_self
  | node => exact List.mem_cons_self

theorem mem_partsAmong {tree : Tree α} {trees : List (Tree α)} {info : α} (inside : tree ∈ trees)
    (known : tree.info? = some info) : tree ∈ partsAmong trees := by
  induction trees with
  | nil => cases inside
  | cons first later ih =>
    rcases List.mem_cons.1 inside with rfl | inside
    · exact List.mem_append_left _ (self_mem_parts known)
    · exact List.mem_append_right _ (ih inside)

mutual

/-- The parts of a part are parts, in the same order. -/
theorem parts_sublist {part : Tree α} : (tree : Tree α) → part ∈ tree.parts →
    part.parts.Sublist tree.parts
  | missing, inside => by cases inside
  | leaf _ _ _, inside => by
    obtain rfl := List.mem_singleton.1 inside
    exact .refl _
  | node _ children _, inside => by
    rcases List.mem_cons.1 inside with rfl | inside
    · exact .refl _
    · exact (parts_sublist_among children inside).cons _

theorem parts_sublist_among {part : Tree α} : (trees : List (Tree α)) → part ∈ partsAmong trees →
    part.parts.Sublist (partsAmong trees)
  | tree :: trees, inside => by
    rcases List.mem_append.1 inside with inside | inside
    · exact (parts_sublist tree inside).trans (List.sublist_append_left _ _)
    · exact (parts_sublist_among trees inside).trans (List.sublist_append_right _ _)

end

theorem parts_subset {part : Tree α} (tree : Tree α) (inside : part ∈ tree.parts) :
    part.parts ⊆ tree.parts := (parts_sublist tree inside).subset

theorem parts_subset_among {part : Tree α} (trees : List (Tree α))
    (inside : part ∈ partsAmong trees) : part.parts ⊆ partsAmong trees :=
  (parts_sublist_among trees inside).subset

@[simp] theorem label?_map (f : α → β) (tree : Tree α) : (tree.map f).label? = tree.label? := by
  cases tree <;> rfl

@[simp] theorem info?_map (f : α → β) (tree : Tree α) :
    (tree.map f).info? = tree.info?.map f := by
  cases tree <;> rfl

@[simp] theorem identifier?_map (f : α → β) (tree : Tree α) :
    (tree.map f).identifier? = tree.identifier? := by
  cases tree <;> rfl

theorem child_map (f : α → β) (tree : Tree α) (index : Nat) :
    (tree.map f).child index = (tree.child index).map f := by
  cases tree with
  | missing => rfl
  | leaf => rfl
  | node label children info =>
    simp only [map, mapAll_eq, child, Tree.children, List.getD_eq_getElem?_getD, List.getElem?_map]
    cases children[index]? <;> rfl

theorem map_eq_node {f : α → β} {tree : Tree α} {label : Label} {children : List (Tree β)}
    {info : β} (h : tree.map f = node label children info) :
    ∃ children' info', tree = node label children' info' ∧ children'.map (map f) = children ∧
      f info' = info := by
  cases tree with
  | node label' children' info' =>
    simp only [map, mapAll_eq, node.injEq] at h
    exact ⟨children', info', by rw [h.1], h.2⟩
  | missing => cases h
  | leaf _ _ _ => cases h

theorem map_eq_leaf {f : α → β} {tree : Tree α} {kind : LeafKind} {text : Text} {info : β}
    (h : tree.map f = leaf kind text info) :
    ∃ info', tree = leaf kind text info' ∧ f info' = info := by
  cases tree with
  | leaf kind' text' info' =>
    simp only [map, leaf.injEq] at h
    exact ⟨info', by rw [h.1, h.2.1], h.2.2⟩
  | missing => cases h
  | node _ _ _ => cases h

mutual

theorem visits_map (f : α → β) (parent : Option Label) : (tree : Tree α) →
    (tree.map f).visits parent = (tree.visits parent).map (Prod.map id (map f))
  | missing => rfl
  | leaf _ _ _ => rfl
  | node label children _ => by
    rw [map, visits, visits, List.map_cons, visitsAmong_map f (some label) children]
    rfl

theorem visitsAmong_map (f : α → β) (parent : Option Label) : (trees : List (Tree α)) →
    visitsAmong parent (mapAll f trees) = (visitsAmong parent trees).map (Prod.map id (map f))
  | [] => rfl
  | tree :: trees => by
    rw [mapAll, visitsAmong, visitsAmong, List.map_append, visits_map f parent tree,
      visitsAmong_map f parent trees]

end

mutual

theorem parts_map (f : α → β) : (tree : Tree α) → (tree.map f).parts = tree.parts.map (map f)
  | missing => rfl
  | leaf _ _ _ => rfl
  | node label children info => by
    rw [map, parts_node, partsAmong_map f children]
    rfl

theorem partsAmong_map (f : α → β) : (trees : List (Tree α)) →
    partsAmong (mapAll f trees) = (partsAmong trees).map (map f)
  | [] => rfl
  | tree :: trees => by
    rw [mapAll, partsAmong_cons, parts_map f tree, partsAmong_map f trees, partsAmong_cons,
      List.map_append]

end

theorem nodesAmong_map (f : α → β) (trees : List (Tree α)) :
    nodesAmong (mapAll f trees) = (nodesAmong trees).map (map f) := by
  rw [nodesAmong, visitsAmong_map, List.map_map, nodesAmong, List.map_map]
  rfl

theorem nodes_map (f : α → β) (tree : Tree α) : (tree.map f).nodes = tree.nodes.map (map f) := by
  rw [nodes, visits_map, List.map_map, nodes, List.map_map]
  rfl

end Uncurry.Tree
