import Uncurry.Proofs.Document.Identity

/-!
# Trees around a part

A context is a tree in which the place of one part is left open. Every part has its context, and what
is seen of a tree is seen in front of that place, in it, or behind it: `seen_plug`. As long as no
number occurs twice, a change of the children of a node is one of what stands in the context of the
node, and leaves the context as it is: `exists_context`.
-/
namespace Uncurry.Tree

/-- A tree in which the place of one part is left open. -/
inductive Context
  | hole
  | under (label : Label) (front : List DocumentTree) (context : Context)
      (back : List DocumentTree) (mark : Mark)

variable {tree part : DocumentTree} {trees children : List DocumentTree} {label : Label}
  {mark : Mark} {target : NodeId} {change : List DocumentTree → List DocumentTree}

namespace Context

/-- Puts a tree in the open place. -/
def plug : Context → DocumentTree → DocumentTree
  | hole, tree => tree
  | under label front context back mark, tree =>
    node label (front ++ context.plug tree :: back) mark

end Context

mutual

/-- Every part of a tree stands in some context. -/
theorem exists_plug : (tree : DocumentTree) → part ∈ tree.parts →
    ∃ context : Context, context.plug part = tree
  | missing, inside => by cases inside
  | leaf _ _ _, inside => ⟨.hole, List.mem_singleton.1 inside⟩
  | node label children mark, inside => by
    rcases List.mem_cons.1 inside with rfl | deeper
    · exact ⟨.hole, rfl⟩
    · obtain ⟨front, context, back, rfl⟩ := exists_plugAmong children deeper
      exact ⟨.under label front context back mark, rfl⟩

theorem exists_plugAmong : (trees : List DocumentTree) → part ∈ partsAmong trees →
    ∃ front, ∃ context : Context, ∃ back, front ++ context.plug part :: back = trees
  | [], inside => by cases inside
  | tree :: trees, inside => by
    rcases List.mem_append.1 inside with here | later
    · obtain ⟨context, rfl⟩ := exists_plug tree here
      exact ⟨[], context, trees, rfl⟩
    · obtain ⟨front, context, back, rfl⟩ := exists_plugAmong trees later
      exact ⟨tree :: front, context, back, rfl⟩

end

/-- What is seen of the parts of a tree in a context by their faces is what is seen of the tree,
between what is seen of the context. -/
theorem Context.seen_plug {β : Type} {see : DocumentTree → Option β}
    (same : ∀ label children children' mark,
      see (node label children mark) = see (node label children' mark)) (context : Context) :
    ∃ front back, ∀ tree, (context.plug tree).parts.filterMap see =
      front ++ (tree.parts.filterMap see ++ back) := by
  induction context with
  | hole => exact ⟨[], [], fun tree => by rw [List.append_nil]; rfl⟩
  | under label front context back mark ih =>
    obtain ⟨before, behind, ih⟩ := ih
    refine ⟨((node label [] mark :: partsAmong front).filterMap see) ++ before,
      behind ++ (partsAmong back).filterMap see, fun tree => ?_⟩
    rw [plug, parts_node, partsAmong_append, partsAmong_cons, ← List.cons_append,
      List.filterMap_append, List.filterMap_append, ih, List.filterMap_cons, List.filterMap_cons,
      same label [] (front ++ context.plug tree :: back) mark]
    simp only [List.append_assoc]

theorem Context.ids_plug (context : Context) : ∃ front back, ∀ tree,
    (context.plug tree).parts.filterMap id? = front ++ (tree.parts.filterMap id? ++ back) :=
  context.seen_plug fun _ _ _ _ => rfl

theorem modifyChildrenAmong_append (trees more : List DocumentTree) :
    modifyChildrenAmong target change (trees ++ more) =
      modifyChildrenAmong target change trees ++ modifyChildrenAmong target change more := by
  rw [modifyChildrenAmong_eq, modifyChildrenAmong_eq, modifyChildrenAmong_eq, List.map_append]

/-- Among trees without repeated numbers a change finds its number in one tree alone. -/
theorem modifyChildrenAmong_split {front back : List DocumentTree}
    (unique : (idsAmong (front ++ tree :: back)).Nodup)
    (known : target ∈ tree.parts.filterMap id?) (other : DocumentTree) :
    modifyChildrenAmong target change (front ++ other :: back) =
      front ++ other.modifyChildren target change :: back := by
  rw [idsAmong_append, idsAmong_cons, List.nodup_append', List.nodup_append'] at unique
  obtain ⟨-, ⟨-, -, behind⟩, before⟩ := unique
  rw [modifyChildrenAmong_append, modifyChildrenAmong, modifyChildrenAmong_of_notMem front,
    modifyChildrenAmong_of_notMem back (behind known)]
  exact fun first => before first (List.mem_append_left _ known)

/-- A change with a number that a tree in a context has is a change of the tree, whatever stands in
its place. -/
theorem Context.modifyChildren_plug (context : Context)
    (unique : ((context.plug tree).parts.filterMap id?).Nodup)
    (known : target ∈ tree.parts.filterMap id?) (other : DocumentTree) :
    (context.plug other).modifyChildren target change =
      context.plug (other.modifyChildren target change) := by
  induction context with
  | hole => rfl
  | under label front context back mark ih =>
    have unique : (mark.id :: idsAmong (front ++ context.plug tree :: back)).Nodup := unique
    obtain ⟨fresh, unique⟩ := List.nodup_cons.1 unique
    obtain ⟨before, behind, ids⟩ := context.ids_plug
    have inner : target ∈ (context.plug tree).parts.filterMap id? := by
      rw [ids]
      exact List.mem_append_right _ (List.mem_append_left _ known)
    have inside : target ∈ idsAmong (front ++ context.plug tree :: back) := by
      rw [idsAmong_append, idsAmong_cons]
      exact List.mem_append_right _ (List.mem_append_left _ inner)
    have apart : mark.id ≠ target := fun same => fresh (same ▸ inside)
    have own : ((context.plug tree).parts.filterMap id?).Nodup := by
      rw [idsAmong_append, idsAmong_cons] at unique
      exact unique.of_append_right.of_append_left
    rw [plug, Tree.modifyChildren, if_neg apart, modifyChildrenAmong_split unique inner, ih own]
    rfl

/-- A node stands in a context that a change of its children leaves as it is. -/
theorem exists_context (unique : (tree.parts.filterMap id?).Nodup)
    (inside : node label children mark ∈ tree.parts) :
    ∃ context : Context, context.plug (node label children mark) = tree ∧
      ∀ change, tree.modifyChildren mark.id change =
        context.plug (node label (change children) mark) := by
  obtain ⟨context, rfl⟩ := exists_plug tree inside
  refine ⟨context, rfl, fun change => ?_⟩
  rw [context.modifyChildren_plug unique List.mem_cons_self, modifyChildren, if_pos rfl]

/-- Changes of the children of a node and of those of a node below it are one change. -/
theorem modifyChildren_below {change' : List DocumentTree → List DocumentTree}
    (unique : (tree.parts.filterMap id?).Nodup) (inside : node label children mark ∈ tree.parts)
    {below : NodeId} (lower : below ∈ idsAmong children) :
    (tree.modifyChildren mark.id change).modifyChildren below change' =
      tree.modifyChildren mark.id fun children =>
        modifyChildrenAmong below change' (change children) := by
  obtain ⟨context, rfl, changed⟩ := exists_context unique inside
  have apart : mark.id ≠ below := by
    rintro rfl
    have own := unique.sublist ((parts_sublist _ inside).filterMap id?)
    exact (List.nodup_cons.1 own).1 lower
  rw [changed, changed, context.modifyChildren_plug unique (List.mem_cons_of_mem _ lower),
    modifyChildren, if_neg apart]

/-- What some trees lose and gain in numbers is what the one node loses and gains whose children are
changed. -/
theorem idsAmong_exchange {gone brought : List NodeId}
    (exchange : (idsAmong (change children) ++ gone).Perm (idsAmong children ++ brought))
    (trees : List DocumentTree) (unique : (idsAmong trees).Nodup)
    (inside : node label children mark ∈ partsAmong trees) :
    (idsAmong (modifyChildrenAmong mark.id change trees) ++ gone).Perm
      (idsAmong trees ++ brought) := by
  obtain ⟨tree, member, deeper⟩ := mem_partsAmong_iff.1 inside
  obtain ⟨front, back, rfl⟩ := List.append_of_mem member
  have own : (tree.parts.filterMap id?).Nodup := by
    rw [idsAmong_append, idsAmong_cons] at unique
    exact unique.of_append_right.of_append_left
  obtain ⟨context, same, changed⟩ := exists_context own deeper
  obtain ⟨before, behind, ids⟩ := context.ids_plug
  have old := ids (node label children mark)
  have new := ids (node label (change children) mark)
  rw [same] at old
  rw [modifyChildrenAmong_split unique (List.mem_filterMap.2 ⟨_, deeper, rfl⟩), changed,
    List.perm_iff_count]
  intro id
  have counted := exchange.count_eq id
  change _ = _ ++ (mark.id :: idsAmong children ++ _) at old
  change _ = _ ++ (mark.id :: idsAmong (change children) ++ _) at new
  simp only [idsAmong_append, idsAmong_cons, old, new, List.count_append, List.count_cons]
    at counted ⊢
  omega

/-- Numbers that come in with the children of one node come in once. -/
theorem idsAmong_modifyChildren {brought : List NodeId}
    (brings : (idsAmong (change children)).Perm (idsAmong children ++ brought))
    (unique : (idsAmong trees).Nodup) (inside : node label children mark ∈ partsAmong trees) :
    (idsAmong (modifyChildrenAmong mark.id change trees)).Perm (idsAmong trees ++ brought) := by
  have exchange : (idsAmong (change children) ++ []).Perm (idsAmong children ++ brought) := by
    rwa [List.append_nil]
  have exchanged := idsAmong_exchange exchange trees unique inside
  rwa [List.append_nil] at exchanged

end Uncurry.Tree
