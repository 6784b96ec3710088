import Mathlib.Logic.Relation
import Uncurry.Proofs.Curry.Calls
import Uncurry.Proofs.Document.Atomicity
import Uncurry.Proofs.Document.Nesting

/-!
# What is cut out stays as it was cut

Nothing tells an edit that a node is no longer in the tree. It is refused since what was cut out
lies in the range of the patch that cut it out, so that the range of the edit overlaps this patch.
For an insertion, whose range is empty, this is so because a statement list starts with a token of
its own: no statement in it starts where the patch does.
-/
namespace Uncurry

open Uncurry.Tree (Nested mem_outlines)

namespace Tree

variable {tree : DocumentTree} {patches : List Patch}

/-- One of some patches replaces all of a tree, which is no program. -/
def CutBy (patches : List Patch) (tree : DocumentTree) : Prop :=
  tree.label? ≠ some .program ∧ ∃ range, tree.range? Mark.range? = some range ∧
    ∃ patch ∈ patches, patch.range.Holds range

/-- What was cut out stays so whatever is changed in it. -/
theorem CutBy.modifyChildren {change : List DocumentTree → List DocumentTree} (target : NodeId)
    (more : List Patch) (h : tree.CutBy patches) :
    (tree.modifyChildren target change).CutBy (patches ++ more) := by
  obtain ⟨labelled, range, own, patch, member, holds⟩ := h
  exact ⟨label?_modifyChildren target tree ▸ labelled, range,
    (range?_modifyChildren target tree).trans own, patch, List.mem_append_left _ member, holds⟩

theorem CutBy.modifyChildrenAmong {change : List DocumentTree → List DocumentTree}
    {trees : List DocumentTree} (target : NodeId) (more : List Patch)
    (h : ∀ tree ∈ trees, tree.CutBy patches) :
    ∀ tree ∈ modifyChildrenAmong target change trees, tree.CutBy (patches ++ more) := by
  intro tree member
  rw [modifyChildrenAmong_eq, List.mem_map] at member
  obtain ⟨old, there, rfl⟩ := member
  exact (h old there).modifyChildren target more

end Tree

namespace Document

variable {source : Text} {document after first later : Document} {tree part : DocumentTree}
  {id : NodeId} {range own : Range} {place : Place} {edit : Edit}

/-- An edit replaces all of what it cuts out. -/
theorem Step.cutBy (nested : ∀ part ∈ Tree.partsAmong document.forest, Nested Mark.range? part)
    (arguments : ∀ part ∈ Tree.partsAmong document.forest, part.HasArguments)
    (cut : ∀ tree ∈ document.cut, tree.CutBy document.patches) (made : Step document after) :
    ∀ tree ∈ after.cut, tree.CutBy after.patches := by
  cases made with
  | @callee old rest whole range callee parsed inside ranged _ _ =>
    have new : old.CutBy (document.patches ++ [⟨range, callee⟩]) :=
      ⟨(nested_editable (nested _ inside) List.mem_cons_self ranged).1, range,
        editable_eq_ok.1 ranged, _, List.mem_append_right _ List.mem_cons_self, .refl range⟩
    exact List.forall_mem_cons.2 ⟨new, Tree.CutBy.modifyChildrenAmong _ _ cut⟩
  | @argument callee values rest label list whole index range inside bound ranged _ =>
    obtain rfl : label = .args := Option.some.inj (arguments _ inside rfl)
    have args : Tree.node .args values list ∈ Tree.partsAmong document.forest :=
      Tree.parts_subset_among _ inside (by simp)
    obtain ⟨own, _, is, _, holds, _⟩ := argumentRange_holds (nested _ args) bound ranged
    have labelled := (nested_editable (nested _ args) (List.getElem_mem bound)
      (editable_eq_ok.2 is)).1
    have new : (values.getD index .missing).CutBy (document.patches ++ [⟨range, []⟩]) := by
      rw [← List.getElem_eq_getD (h := bound)]
      exact ⟨labelled, own, is, _, List.mem_append_right _ List.mem_cons_self, holds⟩
    exact List.forall_mem_cons.2 ⟨new, Tree.CutBy.modifyChildrenAmong _ _ cut⟩
  | statements => exact Tree.CutBy.modifyChildrenAmong _ _ cut

/-- All that was cut out was replaced as a whole. -/
theorem Reached.cutBy (reached : Reached source document) :
    ∀ tree ∈ document.cut, tree.CutBy document.patches := by
  induction reached with
  | parsed read =>
    obtain ⟨tree, _, rfl⟩ := exists_ofTree read
    exact List.forall_mem_nil _
  | attempted edit reached known ih =>
    rcases step_or_eq reached.numbered edit known with made | same
    · exact made.cutBy reached.nested reached.hasArguments ih
    · rwa [same]

/-- A part that has something in it that is not in the tree is in something that was cut out. -/
theorem exists_cut (inside : part ∈ Tree.partsAmong document.forest) {deeper : DocumentTree}
    (below : deeper ∈ part.parts) (numbered : deeper.id? = some id)
    (gone : id ∉ Tree.idsAmong [document.tree]) : ∃ tree ∈ document.cut, part ∈ tree.parts := by
  rcases List.mem_append.1 inside with here | there
  · refine absurd (List.mem_filterMap.2 ⟨deeper, ?_, numbered⟩) gone
    simpa using Tree.parts_subset _ here below
  · exact Tree.mem_partsAmong_iff.1 there

/-- A range that overlaps a part of something that was cut out cannot be edited. Such a part is no
program. -/
theorem Reached.severed (reached : Reached source document) (member : tree ∈ document.cut)
    (inside : part ∈ tree.parts) (is : part.range? Mark.range? = some own) :
    part.label? ≠ some .program ∧
      ∀ range, document.Free range → own.overlaps range = false := by
  obtain ⟨labelled, whole, known, patch, recorded, holds⟩ := reached.cutBy tree member
  have nested (part : DocumentTree) (deeper : part ∈ tree.parts) : Nested Mark.range? part :=
    reached.nested part (List.mem_append_right _ (Tree.mem_partsAmong_iff.2 ⟨tree, member, deeper⟩))
  obtain ⟨⟨whole', known', within⟩, named⟩ := Tree.holds_of_mem tree nested inside is
  obtain rfl := Option.some.inj (known.symm.trans known')
  refine ⟨named.elim (fun same => same ▸ labelled) id, fun range free => ?_⟩
  refine Bool.eq_false_iff.2 fun overlapping => ?_
  have overlapped := (holds.trans within).overlaps overlapping
  rw [free patch recorded] at overlapped
  cases overlapped

/-- The number of the node that an edit is told to edit, or to insert something before. -/
def target? (document : Document) : Edit → Option NodeId
  | .replaceCallee place _ => (document.treeAt place).id?
  | .removeArgument place _ => (document.treeAt place).id?
  | .insertBefore path _ => some path.node.mark.id

/-- The callee of a call that was cut out cannot be replaced. -/
theorem Reached.replaceCallee_ne_ok (reached : Reached source document) {callee : Text}
    (targets : (document.treeAt place).id? = some id) (gone : id ∉ Tree.idsAmong [document.tree]) :
    document.replaceCallee place callee ≠ .ok after := by
  intro made
  obtain ⟨old, rest, whole, range, parsed, found, ranged, _, free, _⟩ := replaceCallee_eq_ok made
  have inside := mem_of_treeAt found
  obtain ⟨_, nonempty, own, is, holds⟩ :=
    nested_editable (reached.nested _ inside) List.mem_cons_self ranged
  obtain ⟨tree, member, deeper⟩ := exists_cut inside List.mem_cons_self (found ▸ targets) gone
  have apart := (reached.severed member deeper is).2 range free
  rw [holds.overlaps (Range.overlaps_self nonempty)] at apart
  cases apart

/-- An argument of a call that was cut out cannot be removed. -/
theorem Reached.removeArgument_ne_ok (reached : Reached source document) {index : Int}
    (targets : (document.treeAt place).id? = some id) (gone : id ∉ Tree.idsAmong [document.tree]) :
    document.removeArgument place index ≠ .ok after := by
  intro made
  obtain ⟨callee, label, values, list, rest, whole, range, found, bound, ranged, free, _⟩ :=
    removeArgument_eq_ok made
  have inside := mem_of_treeAt found
  obtain rfl : label = .args := Option.some.inj (reached.hasArguments _ inside rfl)
  have below : Tree.node .args values list ∈
      (Tree.node .call (callee :: .node .args values list :: rest) whole).parts := by simp
  obtain ⟨value, own, _, nonempty, within, is, holds⟩ := argumentRange_holds
    (reached.nested _ (Tree.parts_subset_among _ inside below)) bound ranged
  obtain ⟨tree, member, deeper⟩ := exists_cut inside List.mem_cons_self (found ▸ targets) gone
  have apart := (reached.severed member (Tree.parts_subset _ deeper below) is).2 range free
  have ranged : range.start < range.stop :=
    Nat.lt_of_le_of_lt within.1 (Nat.lt_of_lt_of_le nonempty within.2)
  rw [holds.overlaps (Range.overlaps_self ranged)] at apart
  cases apart

/-- Nothing can be inserted before a statement that was cut out. -/
theorem Reached.insertBefore_ne_ok (reached : Reached source document) {path : NodePath}
    {snippet : Text} {insertion : Insertion} (known : document.Knows path)
    (gone : path.node.mark.id ∉ Tree.idsAmong [document.tree]) :
    document.insertBefore path snippet ≠ .ok insertion := by
  intro made
  obtain ⟨label, children, parent, index, range, _, _, listed, inside, place, ranged, _, free, _⟩ :=
    insertBefore_eq_ok reached.numbered known made
  obtain ⟨bound, found, _⟩ := List.findIdx?_eq_some_iff_getElem.1 place
  have statement := List.getElem_mem bound
  have same := Tree.hasId_iff.1 found
  obtain ⟨mark, marked, _⟩ := Option.map_eq_some_iff.1 same
  have below := Tree.mem_partsAmong statement marked
  have within := Tree.parts_subset_among _ inside (List.mem_cons_of_mem _ below)
  rw [reached.numbered.node_eq within same] at ranged
  have nested := reached.nested _ inside
  obtain ⟨_, nonempty, own, is, holds⟩ := nested_editable nested statement ranged
  obtain ⟨tree, member, deeper⟩ := exists_cut inside (List.mem_cons_of_mem _ below) same gone
  obtain ⟨labelled, apart⟩ := reached.severed member deeper is
  have starts := nested.listing label rfl listed (fun program => labelled (congrArg some program))
    own is ⟨_, range⟩ (mem_outlines.2 ⟨_, statement, rfl, editable_eq_ok.1 ranged⟩)
  have overlapping : own.overlaps ⟨range.start, range.start⟩ = true := by
    simp only [Range.overlaps, Bool.and_eq_true, decide_eq_true_eq]
    exact ⟨starts, Nat.lt_of_lt_of_le nonempty holds.2⟩
  rw [apart _ free] at overlapping
  cases overlapping

/-- No edit of a node succeeds that is not in the tree. -/
theorem Reached.edit_ne_ok (reached : Reached source document)
    (known : ∀ path ∈ edit.path?, document.Knows path)
    (targets : document.target? edit = some id) (gone : id ∉ Tree.idsAmong [document.tree]) :
    document.edit edit ≠ .ok after := by
  cases edit with
  | replaceCallee place callee => exact reached.replaceCallee_ne_ok targets gone
  | removeArgument place index =>
    exact fun made => reached.removeArgument_ne_ok targets gone (Except.mapError_eq_ok made)
  | insertBefore path snippet =>
    intro made
    obtain ⟨insertion, inserted, _⟩ := Except.map_eq_ok made
    cases targets
    exact reached.insertBefore_ne_ok (known path rfl) gone inserted

/-- One document comes from another one by an edit that is tried. -/
def Tried (document after : Document) : Prop :=
  ∃ edit : Edit, (∀ path ∈ edit.path?, document.Knows path) ∧ after = document.attempt edit

open Relation (ReflTransGen)

theorem Reached.tried (reached : Reached source document)
    (tried : ReflTransGen Tried document later) : Reached source later := by
  induction tried with
  | refl => exact reached
  | tail _ last ih =>
    obtain ⟨edit, known, rfl⟩ := last
    exact .attempted edit ih known

/-- Whatever is tried, the numbers stay in use, and only new ones come into the tree. -/
theorem Reached.ids_attempt (reached : Reached source document)
    (known : ∀ path ∈ edit.path?, document.Knows path) :
    Tree.idsAmong document.forest ⊆ Tree.idsAmong (document.attempt edit).forest ∧
      ∀ id ∈ Tree.idsAmong [(document.attempt edit).tree],
        id ∈ Tree.idsAmong [document.tree] ∨ document.nextId ≤ id := by
  rcases step_or_eq reached.numbered edit known with made | same
  · obtain ⟨target, change, frame⟩ := made.frame reached.numbered
    exact ⟨frame.kept, frame.enters⟩
  · rw [same]
    exact ⟨List.Subset.refl _, fun _ => .inl⟩

/-- The numbers of the program stay in use. -/
theorem Reached.ids_subset (read : Document.parse source = .ok first)
    (reached : Reached source document) :
    Tree.idsAmong first.forest ⊆ Tree.idsAmong document.forest := by
  induction reached with
  | parsed again =>
    obtain rfl := Except.ok.inj (read.symm.trans again)
    exact List.Subset.refl _
  | attempted edit before known ih => exact List.Subset.trans ih (before.ids_attempt known).1

/-- A number that is in use and not in the tree does not come back. -/
theorem Reached.notMem_ids (reached : Reached source document)
    (known : id ∈ Tree.idsAmong document.forest) (gone : id ∉ Tree.idsAmong [document.tree])
    (tried : ReflTransGen Tried document later) : id ∉ Tree.idsAmong [later.tree] := by
  have all : id ∈ Tree.idsAmong later.forest ∧ id ∉ Tree.idsAmong [later.tree] := by
    induction tried with
    | refl => exact ⟨known, gone⟩
    | @tail between later before last ih =>
      obtain ⟨edit, told, rfl⟩ := last
      have there := reached.tried before
      obtain ⟨kept, enters⟩ := there.ids_attempt told
      refine ⟨kept ih.1, fun back => ?_⟩
      exact (enters id back).elim ih.2 (Nat.not_le.2 (there.numbered.fresh id ih.1))
  exact all.2

/-- A node of the program that is no longer in the tree is there never again, and whatever edit of
it is tried fails and leaves the desk as it is. -/
theorem edit_severed (read : Document.parse source = .ok first)
    (original : id ∈ Tree.idsAmong [first.tree]) (reached : Reached source document)
    (gone : id ∉ Tree.idsAmong [document.tree]) (tried : ReflTransGen Tried document later) :
    id ∉ Tree.idsAmong [later.tree] ∧
      ∀ edit, later.target? edit = some id → (∀ path ∈ edit.path?, later.Knows path) →
        ∃ failure, (Editor.edit edit).run ⟨later, edit.path?⟩ =
          (.error failure, ⟨later, edit.path?⟩) := by
  have known : id ∈ Tree.idsAmong first.forest := by
    rw [forest, Tree.idsAmong_cons, List.mem_append]
    rw [Tree.idsAmong_cons, Tree.idsAmong_nil, List.append_nil] at original
    exact .inl original
  have gone' := reached.notMem_ids (reached.ids_subset read known) gone tried
  refine ⟨gone', fun edit targets told => ?_⟩
  cases made : later.edit edit with
  | ok after => exact absurd made ((reached.tried tried).edit_ne_ok told targets gone')
  | error failure => exact ⟨failure, @Editor.run_edit_error ⟨later, edit.path?⟩ _ _ made⟩

/-- A program that hands a function to a function. -/
def handing : Text := Text.ofString "f(function () \x7b g(x); \x7d, h);"

/-- The argument of the outer call, which has number 2, is removed, and something is inserted before
the statement outside. -/
theorem handing_edited : (Document.parse handing).toOption.any (fun first =>
    (first.find [.exprStmt]).head?.any fun outer =>
    (first.find [.exprStmt]).getLast?.any fun inner =>
      let document := first.attempt (.removeArgument ⟨2, []⟩ 0)
      let later := document.attempt (.insertBefore outer (Text.ofString "y;"))
      inner.node.mark.id ∈ Tree.idsAmong [first.tree] &&
        inner.node.mark.id ∉ Tree.idsAmong [document.tree] &&
        Patch.merged later.patches 0 handing = Text.ofString "y;\nf(h);") = true := by
  decide +kernel

/-- No statement can be inserted into a function that was removed. -/
theorem edit_severed_handing : ∃ first later inner, Document.parse handing = .ok first ∧
    inner ∈ first.paths ∧ Reached handing later ∧
    later.toSource = .ok (Text.ofString "y;\nf(h);") ∧
    inner.node.mark.id ∉ Tree.idsAmong [later.tree] ∧
    ∃ failure, (Editor.edit (.insertBefore inner (Text.ofString "z;"))).run ⟨later, some inner⟩ =
      (.error failure, ⟨later, some inner⟩) := by
  obtain ⟨first, read, run⟩ := (Option.any_eq_true _ _).1 handing_edited
  obtain ⟨outer, found, run⟩ := (Option.any_eq_true _ _).1 run
  obtain ⟨inner, found', run⟩ := (Option.any_eq_true _ _).1 run
  simp only [Bool.and_eq_true, decide_eq_true_eq] at run
  obtain ⟨⟨original, gone⟩, output⟩ := run
  replace read := eq_ok_of_toOption read
  have removed := (Reached.parsed read).attempted (.removeArgument ⟨2, []⟩ 0) fun _ given => by
    cases given
  have held {path : NodePath} (member : path ∈ first.find [.exprStmt]) :
      (first.attempt (.removeArgument ⟨2, []⟩ 0)).Knows path :=
    (knows_of_mem_paths (List.mem_filter.1 member).1).attempt (.parsed read) _ fun _ given => by
      cases given
  have told : ∀ path ∈ (Edit.insertBefore outer (Text.ofString "y;")).path?,
      (first.attempt (.removeArgument ⟨2, []⟩ 0)).Knows path := by
    rintro _ ⟨⟩
    exact held (List.mem_of_head? found)
  have inside := List.mem_of_getLast? found'
  have still := (held inside).attempt removed _ told
  have reached := removed.attempted _ told
  obtain ⟨gone', refused⟩ := edit_severed read original removed gone (.single ⟨_, told, rfl⟩)
  refine ⟨first, _, inner, read, (List.mem_filter.1 inside).1, reached,
    reached.sound.toSource_eq.trans (congrArg Except.ok output), gone',
    refused (.insertBefore inner (Text.ofString "z;")) rfl ?_⟩
  rintro _ ⟨⟩
  exact still

end Document

end Uncurry
