import Uncurry.Proofs.Curry.Calls
import Uncurry.Proofs.Curry.Uncurrying

/-!
# Edits of calls

The two edits that uncurry a call change nothing about the other calls, and all calls stay in the
tree: what goes is an identifier, and what comes in is new. This is `Progress`, and it adds up.
-/
namespace Uncurry

open Uncurry.Tree (Face face)

namespace Document

variable {source : Text} {document between after : Document} {call first : NodeId}
  {touched more : List NodeId}

/-- Edits of some calls leave all others as they are, and the tree with all its calls. -/
structure Progress (first : NodeId) (touched : List NodeId) (document after : Document) : Prop where
  labels : ∀ call, (document.node call).label? = some .call → (after.node call).label? = some .call
  spares : ∀ call ∉ touched, (document.node call).label? = some .call →
    Spares first call document after
  next_le : document.nextId ≤ after.nextId
  keeps : document.calls ⊆ after.calls
  brings : ∀ ref ∈ after.calls, ref ∈ document.calls ∨ first ≤ ref.mark.id

theorem Progress.refl (first : NodeId) (touched : List NodeId) (document : Document) :
    Progress first touched document document :=
  ⟨fun _ => id, fun call _ _ => .refl first call document, Nat.le_refl _, fun _ => id,
    fun _ => .inl⟩

theorem Progress.trans (h : Progress first touched document between)
    (h' : Progress first more between after) :
    Progress first (touched ++ more) document after := by
  constructor
  · exact fun call labelled => h'.labels call (h.labels call labelled)
  · intro call untouched labelled
    rw [List.mem_append, not_or] at untouched
    have here := h.spares call untouched.1 labelled
    exact here.trans (h'.spares call untouched.2 (h.labels call labelled))
  · exact Nat.le_trans h.next_le h'.next_le
  · exact fun ref member => h'.keeps (h.keeps member)
  · intro ref member
    rcases h'.brings ref member with old | new
    · exact h.brings ref old
    · exact .inr new

theorem Progress.mono (h : Progress first touched document after) (among : touched ⊆ more) :
    Progress first more document after :=
  ⟨h.labels, fun call untouched => h.spares call fun member => untouched (among member), h.next_le,
    h.keeps, h.brings⟩

/-- A call is known whose own number and that of its argument list are below some number. -/
structure Stands (first : NodeId) (document : Document) (call : NodeId) : Prop where
  label : (document.node call).label? = some .call
  call_lt : call < first
  list_lt : ∀ id ∈ ((document.node call).child 1).id?, id < first

theorem Progress.stands (h : Progress first touched document after) (untouched : call ∉ touched)
    (stands : Stands first document call) : Stands first after call := by
  have spares := h.spares call untouched stands.label
  have list : ((after.node call).child 1).id? = ((document.node call).child 1).id? :=
    congrArg (fun face : Face => face.2.2.map Mark.id) spares.list
  refine ⟨h.labels call stands.label, stands.call_lt, ?_⟩
  rw [list]
  exact stands.list_lt

/-- The calls of a document stand in it. -/
theorem Reached.stands (reached : Reached source document) {ref : NodeRef}
    (member : ref ∈ document.calls) : Stands document.nextId document ref.mark.id := by
  obtain ⟨labelled, seen⟩ := mem_calls.1 member
  obtain ⟨part, inside, is⟩ := List.mem_filterMap.1 seen
  obtain ⟨children, rfl⟩ := Tree.eq_node_of_ref? is
  have fresh {part : DocumentTree} {id : NodeId} (inside : part ∈ Tree.partsAmong document.forest)
      (same : part.id? = some id) : id < document.nextId :=
    reached.numbered.fresh id (List.mem_filterMap.2 ⟨part, inside, same⟩)
  have in_forest : _ ∈ Tree.partsAmong document.forest := List.mem_append_left _ inside
  have known := reached.numbered.node_eq in_forest rfl
  have label : (document.node ref.mark.id).label? = some .call := by
    rw [known, ← labelled]
    rfl
  obtain ⟨callee, values, rest, list, whole, shape, _, there⟩ := reached.exists_call label
  refine ⟨label, fresh in_forest rfl, fun id same => ?_⟩
  rw [shape] at there same
  exact fresh (Tree.parts_subset_among _ there (a := .node .args values list) (by simp)) same

/-- A change among the children of a call or of its argument list is progress, if it keeps the nodes
there and brings in new ones only. -/
theorem Reached.progress {label : Label} {children : List DocumentTree} {mark : Mark}
    {change : List DocumentTree → List DocumentTree} {old : DocumentTree} {patch : Patch}
    {next : NodeId} (reached : Reached source document) (stands : Stands first document call)
    (inside : .node label children mark ∈ Tree.partsAmong document.forest)
    (own : mark.id = call ∨ ((document.node call).child 1).id? = some mark.id)
    (frame : Frame mark.id change document (document.changed mark.id change old patch next))
    (first_le : first ≤ document.nextId) (next_le : document.nextId ≤ next)
    (keeps : (Tree.partsAmong children).filterMap Tree.ref? ⊆
      (Tree.partsAmong (change children)).filterMap Tree.ref?)
    (brings : ∀ part ∈ Tree.partsAmong (change children),
      part ∈ Tree.partsAmong children ∨ ∀ id ∈ part.id?, document.nextId ≤ id) :
    Progress first [call] document (document.changed mark.id change old patch next) := by
  have unique := reached.numbered.unique
  have in_tree {part : DocumentTree} (there : part ∈ document.tree.parts) :
      part ∈ Tree.partsAmong document.forest := List.mem_append_left _ there
  have standing {other : NodeId} (labelled : (document.node other).label? = some .call) :
      (document.node other).id? = some other ∧ other ∈ Tree.idsAmong document.forest := by
    obtain ⟨callee, values, rest, list, whole, known, same, member⟩ := reached.exists_call labelled
    have numbered : (document.node other).id? = some other := by
      rw [known, ← same]
      rfl
    exact ⟨numbered, List.mem_filterMap.2 ⟨_, member, numbered⟩⟩
  constructor
  · intro other labelled
    rw [frame.node other (standing labelled).2, Tree.label?_modifyChildren]
    exact labelled
  · intro other untouched labelled
    have different : other ≠ call := by simpa using untouched
    obtain ⟨not_list, lists⟩ := reached.calls_apart stands.label labelled different
    obtain ⟨not_list', _⟩ := reached.calls_apart labelled stands.label different.symm
    refine frame.spares (standing labelled).1 (standing labelled).2 ?_ ?_ ?_
    · rcases own with own | own
      · exact own ▸ different
      · exact fun same => not_list (same ▸ own)
    · rcases own with own | own
      · exact own ▸ not_list'
      · exact own ▸ lists
    · rcases own with own | own
      · exact own ▸ stands.call_lt
      · exact stands.list_lt _ own
  · exact next_le
  · intro ref member
    rw [mem_calls] at member ⊢
    refine ⟨member.1, ?_⟩
    refine Tree.mem_seen_modifyChildren (Tree.ref?_modifyChildren mark.id) document.tree ?_ member.2
    intro label' children' mark' there here
    cases Tree.eq_of_id unique (in_tree there) inside (congrArg some here) rfl
    exact @keeps ref
  · intro ref member
    rw [mem_calls] at member
    obtain ⟨labelled, seen⟩ := member
    obtain ⟨part, there, is⟩ := List.mem_filterMap.1 seen
    rcases Tree.mem_parts_modifyChildren mark.id document.tree part there with
      ⟨before, was, rfl⟩ | ⟨label', children', mark', was, here, below⟩
    · rw [Tree.ref?_modifyChildren] at is
      exact .inl (mem_calls.2 ⟨labelled, List.mem_filterMap.2 ⟨before, was, is⟩⟩)
    · cases Tree.eq_of_id unique (in_tree was) inside (congrArg some here) rfl
      rcases brings part below with deeper | new
      · refine .inl (mem_calls.2 ⟨labelled, List.mem_filterMap.2 ⟨part, ?_, is⟩⟩)
        exact Tree.parts_subset _ was (List.mem_cons_of_mem _ deeper)
      · obtain ⟨children, rfl⟩ := Tree.eq_node_of_ref? is
        exact .inr (Nat.le_trans first_le (new _ rfl))

/-- A call calls the direct member of a function in an expression that was brought in behind some
number. -/
structure CallsDirect (document : Document) (first : NodeId) (name : Text) (call : NodeId) :
    Prop where
  reads : parseFragment (Curry.direct name) = .ok ((document.callee call).map Mark.span)
  brought : ∀ part ∈ (document.callee call).parts, ∀ id ∈ part.id?, first ≤ id

/-- Where the replacement of the callee of a call succeeds, the call is the same but for its
callee. -/
theorem Reached.replaced {name word : Text} (reached : Reached source document)
    (stands : Stands first document call) (first_le : first ≤ document.nextId)
    (plain : (document.callee call).identifier? = some word)
    (made : document.replaceCallee ⟨call, []⟩ (Curry.direct name) = .ok after) :
    Progress first [call] document after ∧ after.CallsDirect document.nextId name call ∧
      (after.node call).child 1 = (document.node call).child 1 ∧
      ∃ range, editable (document.callee call) = .ok range ∧
        after.patches = document.patches ++ [⟨range, Curry.direct name⟩] := by
  obtain ⟨callee, values, rest, list, whole, known, rfl, inside⟩ := reached.exists_call stands.label
  obtain ⟨old, others, whole', range, parsed, found, ranged, parses, _, rfl⟩ :=
    replaceCallee_eq_ok made
  cases known.symm.trans found
  rw [known] at inside
  rw [Document.callee, known] at plain
  obtain ⟨mark, rfl⟩ := Curry.eq_leaf plain
  have frame := reached.numbered.frame_set inside parsed ⟨range, Curry.direct name⟩
  have node' := frame.node whole.id (List.mem_filterMap.2 ⟨_, inside, rfl⟩)
  rw [known, Tree.modifyChildren, if_pos rfl, List.set_cons_zero] at node'
  obtain ⟨count, next, ids⟩ := Tree.number_ids true document.nextId parsed
  have brought : ∀ part ∈ (parsed.number true document.nextId).1.parts, ∀ id ∈ part.id?,
      document.nextId ≤ id := by
    intro part member id numbered
    have among : id ∈ List.range' document.nextId count :=
      ids ▸ List.mem_filterMap.2 ⟨part, member, numbered⟩
    exact (List.mem_range'_1.1 among).1
  refine ⟨?_, ⟨?_, ?_⟩, ?_, range, ?_, rfl⟩
  · refine reached.progress stands inside (.inl rfl) frame first_le ?_ ?_ ?_
    · rw [next]
      exact Nat.le_add_right _ _
    · intro ref member
      have kept : ref ∈ (Tree.partsAmong (_ :: rest)).filterMap Tree.ref? := member
      rw [List.set_cons_zero, Tree.partsAmong_cons, List.filterMap_append]
      exact List.mem_append_right _ kept
    · intro part member
      rw [List.set_cons_zero, Tree.partsAmong_cons, List.mem_append] at member
      rcases member with new | kept
      · exact .inr (brought part new)
      · exact .inl (List.mem_append_right _ kept)
  · rw [Document.callee, node']
    exact parses.trans (congrArg Except.ok (Tree.map_number true document.nextId parsed).symm)
  · rw [Document.callee, node']
    exact brought
  · rw [node', known]
    rfl
  · rw [Document.callee, known]
    exact ranged

/-- Where the removal of the first argument of a call succeeds, the call is the same but for this,
if its callee was brought in. -/
theorem Reached.shortened {name : Text} (reached : Reached source document)
    (stands : Stands first document call) (first_le : first ≤ document.nextId)
    (brought : ∀ part ∈ (document.callee call).parts, ∀ id ∈ part.id?, first ≤ id)
    (plain : (((document.node call).child 1).children.getD 0 .missing).identifier? = some name)
    (made : document.removeArgument ⟨call, []⟩ 0 = .ok after) :
    Progress first [call] document after ∧ after.callee call = document.callee call ∧
      after.arguments call = (document.arguments call).tail ∧
      ∃ range, argumentRange ((document.node call).child 1).children 0 = .ok range ∧
        after.patches = document.patches ++ [⟨range, []⟩] := by
  obtain ⟨callee, values, rest, list, whole, known, rfl, inside⟩ := reached.exists_call stands.label
  obtain ⟨callee', label, values', list', rest', whole', range, found, bound, ranged, _, rfl⟩ :=
    removeArgument_eq_ok made
  cases known.symm.trans found
  rw [known] at inside
  have below : .node .args values list ∈ Tree.partsAmong document.forest :=
    Tree.parts_subset_among _ inside (by simp)
  obtain ⟨value, later, rfl⟩ := List.exists_cons_of_length_pos (Nat.zero_lt_of_lt bound)
  rw [known] at plain
  obtain ⟨mark, rfl⟩ := Curry.eq_leaf plain
  have frame := reached.numbered.frame_eraseIdx below bound ⟨range, []⟩
  have apart : list.id ≠ whole.id := fun same => by
    cases Tree.eq_of_id reached.numbered.unique below inside (congrArg some same) rfl
  have old : list.id < first := by
    apply stands.list_lt
    rw [known]
    rfl
  have unchanged : callee.modifyChildren list.id (·.eraseIdx 0) = callee := by
    refine Tree.modifyChildren_of_notMem callee fun member => ?_
    obtain ⟨part, within, same⟩ := List.mem_filterMap.1 member
    rw [Document.callee, known] at brought
    exact Nat.not_lt.2 (brought part within _ same) old
  have node' := frame.node whole.id (List.mem_filterMap.2 ⟨_, inside, rfl⟩)
  rw [known, Tree.modifyChildren, if_neg apart.symm, Tree.modifyChildrenAmong,
    Tree.modifyChildrenAmong, Tree.modifyChildren, if_pos rfl] at node'
  have tail {part : DocumentTree} (member : part ∈ Tree.partsAmong later) :
      part ∈ Tree.partsAmong (.leaf (.token .identifier) name mark :: later) :=
    List.mem_cons_of_mem _ member
  refine ⟨?_, ?_, ?_, range, ?_, rfl⟩
  · refine reached.progress stands below (.inr ?_) frame first_le (Nat.le_refl _) ?_ ?_
    · rw [known]
      rfl
    · exact List.Subset.refl ((Tree.partsAmong later).filterMap Tree.ref?)
    · exact fun part member => .inl (tail member)
  · rw [Document.callee, node', Document.callee, known]
    exact unchanged
  · rw [arguments, node', arguments, known]
    rfl
  · rw [known]
    exact ranged

end Document

end Uncurry
