import Uncurry.Proofs.Document.Contexts

/-!
# The numbers of a document

Every node and leaf of a document has a number of its own, and keeps it when the children of some
node are changed. Behind such a change a number leads to the same part as before, but for the
children of the node in question.
-/
namespace Uncurry.Document

/-- The trees of a document: what is cut out can still be reached. -/
def forest (document : Document) : List DocumentTree := document.tree :: document.cut

/-- The document behind an edit: the children of a node are changed, something is cut out, and a
patch is recorded. -/
def changed (document : Document) (target : NodeId)
    (change : List DocumentTree → List DocumentTree) (old : DocumentTree) (patch : Patch)
    (next : NodeId) : Document :=
  { (document.modifyChildren target change).setAside old with
    patches := document.patches ++ [patch]
    nextId := next }

/-- The document behind an insertion: statements are put among the children of a node. -/
def inserted (document : Document) (target : NodeId) (index : Nat) (trees : List SyntaxTree)
    (patch : Patch) : Document :=
  let (statements, next) := Tree.numberAll true document.nextId trees
  { document.modifyChildren target fun children =>
      children.take index ++ statements ++ children.drop index with
    patches := document.patches ++ [patch]
    nextId := next }

variable {source : Text} {document after : Document} {part : DocumentTree}
  {trees children : List DocumentTree} {id : NodeId} {label : Label} {mark : Mark}
  {change : List DocumentTree → List DocumentTree}

/-- What is looked up is a part with that number. -/
theorem lookup_eq_some (looked : Tree.withIdAmong? id trees = some part) :
    part ∈ Tree.partsAmong trees ∧ part.id? = some id := by
  rw [Tree.withIdAmong?_eq] at looked
  exact ⟨List.mem_of_find?_eq_some looked, Tree.hasId_iff.1 (List.find?_some looked :)⟩

/-- The node of a number is a part with that number, unless nothing is known of it. -/
theorem mem_of_node (marked : (document.node id).info? = some mark) :
    document.node id ∈ Tree.partsAmong document.forest ∧ (document.node id).id? = some id := by
  unfold node at marked ⊢
  cases looked : Tree.withIdAmong? id (document.tree :: document.cut) with
  | none =>
    rw [looked] at marked
    cases marked
  | some part => exact lookup_eq_some looked

/-- Every number of a document is in use once, and below the next one. -/
structure Numbered (document : Document) : Prop where
  unique : (Tree.idsAmong document.forest).Nodup
  fresh : ∀ id ∈ Tree.idsAmong document.forest, id < document.nextId

/-- The part of a number is found. -/
theorem Numbered.node_eq (h : Numbered document) (inside : part ∈ Tree.partsAmong document.forest)
    (numbered : part.id? = some id) : document.node id = part := by
  obtain ⟨other, there, looked, same, _⟩ := (Tree.Keeps.of_unique h.unique inside numbered).lookup
  rw [Tree.eq_of_id h.unique there inside same numbered] at looked
  exact congrArg (·.getD .missing) looked

theorem numbered_ofTree (source : Text) (tree : SyntaxTree) :
    Numbered (Document.ofTree source tree) := by
  obtain ⟨count, after, ids⟩ := Tree.number_ids false 0 tree
  have all : Tree.idsAmong (Document.ofTree source tree).forest = List.range' 0 count := by
    change Tree.idsAmong [(tree.number false 0).1] = _
    rw [Tree.idsAmong_cons, ids, Tree.idsAmong_nil, List.append_nil]
  constructor
  · rw [all]
    exact List.nodup_range'
  · intro id member
    rw [all, List.mem_range'_1] at member
    change id < (tree.number false 0).2
    rw [after]
    exact member.2

/-- Numbers that are brought in are the next ones, so all stay different. -/
theorem Numbered.of_perm {count : Nat} (h : Numbered document)
    (perm : (Tree.idsAmong after.forest).Perm
      (Tree.idsAmong document.forest ++ List.range' document.nextId count))
    (next : after.nextId = document.nextId + count) : Numbered after := by
  constructor
  · refine perm.nodup_iff.2 (List.nodup_append'.2 ⟨h.unique, List.nodup_range', ?_⟩)
    intro id old new
    exact Nat.not_lt.2 (List.mem_range'_1.1 new).1 (h.fresh id old)
  · intro id member
    rw [next]
    rcases List.mem_append.1 (perm.mem_iff.1 member) with old | new
    · exact Nat.lt_add_right count (h.fresh id old)
    · exact (List.mem_range'_1.1 new).2

/-- All numbers stay in use, and lead to what they led to, up to the children of one node. Only new
ones come into the tree. -/
structure Frame (target : NodeId) (change : List DocumentTree → List DocumentTree)
    (document after : Document) : Prop where
  numbered : Numbered after
  kept : Tree.idsAmong document.forest ⊆ Tree.idsAmong after.forest
  enters : ∀ id ∈ Tree.idsAmong [after.tree],
    id ∈ Tree.idsAmong [document.tree] ∨ document.nextId ≤ id
  node : ∀ id ∈ Tree.idsAmong document.forest,
    after.node id = (document.node id).modifyChildren target change

/-- What comes into the tree with the children of a node has the numbers that come in with them. -/
theorem Numbered.enters (h : Numbered document)
    (inside : .node label children mark ∈ Tree.partsAmong document.forest)
    (brings : ∀ part ∈ Tree.partsAmong (change children),
      part ∈ Tree.partsAmong children ∨ ∀ id ∈ part.id?, document.nextId ≤ id) :
    ∀ id ∈ Tree.idsAmong [document.tree.modifyChildren mark.id change],
      id ∈ Tree.idsAmong [document.tree] ∨ document.nextId ≤ id := by
  intro id known
  obtain ⟨part, here, same⟩ := List.mem_filterMap.1 known
  rcases Tree.mem_partsAmong_modifyChildren mark.id [document.tree] part here with
    ⟨old, there, rfl⟩ | ⟨label', children', mark', there, target, new⟩
  · exact .inl (List.mem_filterMap.2 ⟨old, there, by rwa [Tree.id?_modifyChildren] at same⟩)
  · have above : Tree.node label' children' mark' ∈ Tree.partsAmong document.forest :=
      Tree.partsAmong_subset (by simp [forest]) there
    cases Tree.eq_of_id h.unique above inside (congrArg some target) rfl
    refine (brings part new).imp (fun deeper => ?_) fun fresh => fresh id same
    exact List.mem_filterMap.2
      ⟨part, Tree.parts_subset_among _ there (List.mem_cons_of_mem _ deeper), same⟩

/-- A change of the children of a node has no other effect on what numbers lead to. What comes in
has new numbers, and what is kept aside stood below the node. -/
theorem Numbered.frame {count : Nat} (h : Numbered document)
    (inside : .node label children mark ∈ Tree.partsAmong document.forest)
    (perm : (Tree.idsAmong after.forest).Perm
      (Tree.idsAmong document.forest ++ List.range' document.nextId count))
    (next : after.nextId = document.nextId + count)
    (rooted : after.tree = document.tree.modifyChildren mark.id change)
    (parts : ∀ part ∈ Tree.partsAmong after.forest,
      part ∈ Tree.partsAmong (Tree.modifyChildrenAmong mark.id change document.forest) ∨
        part ∈ Tree.partsAmong children)
    (brings : ∀ part ∈ Tree.partsAmong (change children),
      part ∈ Tree.partsAmong children ∨ ∀ id ∈ part.id?, document.nextId ≤ id) :
    Frame mark.id change document after := by
  have h' := h.of_perm perm next
  have kept : Tree.idsAmong document.forest ⊆ Tree.idsAmong after.forest := fun id known =>
    perm.mem_iff.2 (List.mem_append_left _ known)
  refine ⟨h', kept, rooted ▸ h.enters inside brings, fun id known => ?_⟩
  obtain ⟨part, there, numbered⟩ := List.mem_filterMap.1 known
  obtain ⟨found, here, same⟩ := List.mem_filterMap.1 (kept known)
  rw [h.node_eq there numbered, h'.node_eq here same]
  have below (deeper : found ∈ Tree.partsAmong children) :
      found = part.modifyChildren mark.id change := by
    have old := Tree.parts_subset_among _ inside (List.mem_cons_of_mem _ deeper)
    obtain rfl := Tree.eq_of_id h.unique old there same numbered
    refine (Tree.modifyChildren_of_notMem found fun member => ?_).symm
    obtain ⟨other, within, is⟩ := List.mem_filterMap.1 member
    have lower := Tree.parts_subset_among children deeper within
    exact Tree.notMem_idsAmong_children h.unique inside (List.mem_filterMap.2 ⟨other, lower, is⟩)
  rcases parts found here with changed | deeper
  · rcases Tree.mem_partsAmong_modifyChildren _ _ found changed with
      ⟨old, before, rfl⟩ | ⟨label', children', mark', above, target, new⟩
    · rw [Tree.id?_modifyChildren] at same
      rw [Tree.eq_of_id h.unique before there same numbered]
    · cases Tree.eq_of_id h.unique above inside (congrArg some target) rfl
      rcases brings found new with deeper | fresh
      · exact below deeper
      · exact absurd (h.fresh id known) (Nat.not_lt.2 (fresh id same))
  · exact below deeper

/-- The parts behind a change that cuts something out of the children of a node. -/
theorem mem_changed {old : DocumentTree} {patch : Patch} {next : NodeId}
    (cut : old.parts ⊆ Tree.partsAmong children)
    (inside : part ∈ Tree.partsAmong (document.changed mark.id change old patch next).forest) :
    part ∈ Tree.partsAmong (Tree.modifyChildrenAmong mark.id change document.forest) ∨
      part ∈ Tree.partsAmong children := by
  change part ∈ Tree.partsAmong (document.tree.modifyChildren mark.id change :: old ::
    Tree.modifyChildrenAmong mark.id change document.cut) at inside
  rw [Tree.partsAmong_cons, Tree.partsAmong_cons, List.mem_append, List.mem_append] at inside
  rcases inside with inside | inside | inside
  · exact .inl (List.mem_append_left _ inside)
  · exact .inr (cut inside)
  · exact .inl (List.mem_append_right _ inside)

/-- The numbers behind a change that cuts something out of the children of a node. -/
theorem idsAmong_changed {old : DocumentTree} {patch : Patch} {next : NodeId}
    {brought : List NodeId} (h : Numbered document)
    (inside : .node label children mark ∈ Tree.partsAmong document.forest)
    (exchange : (Tree.idsAmong (change children) ++ Tree.idsAmong [old]).Perm
      (Tree.idsAmong children ++ brought)) :
    (Tree.idsAmong (document.changed mark.id change old patch next).forest).Perm
      (Tree.idsAmong document.forest ++ brought) := by
  refine .trans ?_ (Tree.idsAmong_exchange exchange document.forest h.unique inside)
  change (Tree.idsAmong (document.tree.modifyChildren mark.id change :: old ::
    Tree.modifyChildrenAmong mark.id change document.cut)).Perm
      (Tree.idsAmong (document.tree.modifyChildren mark.id change ::
        Tree.modifyChildrenAmong mark.id change document.cut) ++ _)
  rw [List.perm_iff_count]
  intro id
  simp only [Tree.idsAmong_cons, Tree.idsAmong_nil, List.count_append, List.append_nil]
  omega

/-- The first child of a node makes way for an inserted tree. -/
theorem Numbered.frame_set {old : DocumentTree} {rest : List DocumentTree} (h : Numbered document)
    (inside : .node label (old :: rest) mark ∈ Tree.partsAmong document.forest)
    (parsed : SyntaxTree) (patch : Patch) :
    Frame mark.id (·.set 0 (parsed.number true document.nextId).1) document
      (document.changed mark.id (·.set 0 (parsed.number true document.nextId).1) old patch
        (parsed.number true document.nextId).2) := by
  obtain ⟨count, next, ids⟩ := Tree.number_ids true document.nextId parsed
  refine h.frame inside (idsAmong_changed h inside ?_) next rfl (fun part member => ?_)
    fun part member => ?_
  · rw [List.set_cons_zero, Tree.idsAmong_cons, ids, List.perm_iff_count]
    intro id
    simp only [Tree.idsAmong_cons, Tree.idsAmong_nil, List.count_append, List.append_nil]
    omega
  · exact mem_changed (List.subset_append_left old.parts _) member
  · rw [List.set_cons_zero, Tree.partsAmong_cons, List.mem_append] at member
    rcases member with new | kept
    · refine .inr fun id numbered => ?_
      have brought : id ∈ List.range' document.nextId count := by
        rw [← ids]
        exact List.mem_filterMap.2 ⟨part, new, numbered⟩
      exact (List.mem_range'_1.1 brought).1
    · exact .inl (List.mem_append_right _ kept)

/-- A child of a node is cut out. -/
theorem Numbered.frame_eraseIdx (h : Numbered document)
    (inside : .node label children mark ∈ Tree.partsAmong document.forest) {index : Nat}
    (bound : index < children.length) (patch : Patch) :
    Frame mark.id (·.eraseIdx index) document (document.changed mark.id (·.eraseIdx index)
      (children.getD index .missing) patch document.nextId) := by
  have exchange : (Tree.idsAmong (children.eraseIdx index) ++
      Tree.idsAmong [children.getD index .missing]).Perm
      (Tree.idsAmong children ++ List.range' document.nextId 0) := by
    rw [List.range'_zero, List.append_nil]
    exact Tree.idsAmong_eraseIdx index children
  have cut : (children.getD index .missing).parts ⊆ Tree.partsAmong children := by
    rw [← List.getElem_eq_getD (h := bound)]
    exact fun part member => Tree.mem_partsAmong_iff.2 ⟨_, List.getElem_mem bound, member⟩
  refine h.frame inside (idsAmong_changed h inside exchange) rfl rfl
    (fun part member => mem_changed cut member) fun part member => ?_
  exact .inl (Tree.partsAmong_subset List.eraseIdx_subset member)

/-- Statements are put among the children of a node. -/
theorem Numbered.frame_insert (h : Numbered document)
    (inside : .node label children mark ∈ Tree.partsAmong document.forest) (index : Nat)
    (statements : List SyntaxTree) (patch : Patch) :
    Frame mark.id (fun children => children.take index ++
        (Tree.numberAll true document.nextId statements).1 ++ children.drop index) document
      (document.inserted mark.id index statements patch) := by
  obtain ⟨count, next, ids⟩ := Tree.numberAll_ids true document.nextId statements
  have perm : (Tree.idsAmong (document.inserted mark.id index statements patch).forest).Perm
      (Tree.idsAmong document.forest ++ List.range' document.nextId count) :=
    Tree.idsAmong_modifyChildren (Tree.idsAmong_inserted index children ids) h.unique inside
  refine h.frame inside perm next rfl (fun part member => .inl member) fun part member => ?_
  rw [Tree.partsAmong_append, Tree.partsAmong_append, List.mem_append, List.mem_append] at member
  rcases member with (front | new) | back
  · exact .inl (Tree.partsAmong_subset (List.take_subset index children) front)
  · refine .inr fun id numbered => ?_
    have brought : id ∈ List.range' document.nextId count := by
      rw [← ids]
      exact List.mem_filterMap.2 ⟨part, new, numbered⟩
    exact (List.mem_range'_1.1 brought).1
  · exact .inl (Tree.partsAmong_subset (List.drop_subset index children) back)

end Uncurry.Document
