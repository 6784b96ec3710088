import Mathlib.Data.List.GetD
import Uncurry.Proofs.Curry.Shapes
import Uncurry.Proofs.Document.Steps

/-!
# The argument lists of calls

Behind the callee of a call stands its argument list, in every document that is reached: this is so
in what was parsed, and no edit puts anything between them.
-/
namespace Uncurry

namespace Tree

variable {α β : Type} {tree part : DocumentTree} {trees children : List DocumentTree}
  {label : Label} {mark : Mark} {target : NodeId} {change : List DocumentTree → List DocumentTree}

/-- A call has an argument list behind its callee. -/
def HasArguments (tree : Tree α) : Prop :=
  tree.label? = some .call → (tree.child 1).label? = some .args

theorem HasArguments.exists_args {children : List (Tree α)} {info : α}
    (h : (node .call children info).HasArguments) : ∃ callee values rest list,
      children = callee :: node .args values list :: rest := by
  have args := h rfl
  cases children with
  | nil => cases args
  | cons callee others =>
    cases others with
    | nil => cases args
    | cons second rest =>
      cases second with
      | missing => cases args
      | leaf => cases args
      | node label values list =>
        obtain rfl : label = .args := Option.some.inj args
        exact ⟨callee, values, rest, list, rfl⟩

theorem HasArguments.of_map {f : α → β} {tree : Tree α} (h : (tree.map f).HasArguments) :
    tree.HasArguments := by
  intro labelled
  have args := h (by rwa [label?_map])
  rwa [child_map, label?_map] at args

/-- The children of a node that is not the one changed are changed in themselves. -/
theorem child_modifyChildren (other : tree.id? ≠ some target) (index : Nat) :
    (tree.modifyChildren target change).child index =
      (tree.child index).modifyChildren target change := by
  cases tree with
  | missing => rfl
  | leaf => rfl
  | node label children mark =>
    rw [modifyChildren, if_neg fun same => other (congrArg some same), modifyChildrenAmong_eq,
      child, child, Tree.children, Tree.children]
    exact List.getD_map children missing (modifyChildren target change)

/-- A change of the children of one node keeps the argument lists if it does so in this node and
brings in no call without one. -/
theorem hasArguments_modifyChildren (unique : (idsAmong trees).Nodup)
    (all : ∀ part ∈ partsAmong trees, part.HasArguments)
    (inside : node label children mark ∈ partsAmong trees)
    (self : (node label children mark).HasArguments →
      (node label (change children) mark).HasArguments)
    (brings : ∀ part ∈ partsAmong (change children),
      part ∈ partsAmong children ∨ part.HasArguments) :
    ∀ part ∈ partsAmong (modifyChildrenAmong mark.id change trees), part.HasArguments := by
  intro part member
  rcases mem_partsAmong_modifyChildren mark.id trees part member with
    ⟨old, there, rfl⟩ | ⟨label', children', mark', there, same, below⟩
  · by_cases here : old.id? = some mark.id
    · obtain rfl := eq_of_id unique there inside here rfl
      rw [modifyChildren, if_pos rfl]
      exact self (all _ inside)
    · intro labelled
      rw [label?_modifyChildren] at labelled
      rw [child_modifyChildren here, label?_modifyChildren]
      exact all old there labelled
  · cases eq_of_id unique there inside (congrArg some same) rfl
    rcases brings part below with deeper | new
    · exact all part (parts_subset_among trees inside (List.mem_cons_of_mem _ deeper))
    · exact new

end Tree

open Uncurry.Tree (Face HasArguments face)

namespace Curry

variable {source : Text} {tree : SyntaxTree}

theorem Shaped.hasArguments {α : Type} {tree : Tree α} (shaped : Shaped tree) :
    tree.HasArguments := by
  intro labelled
  obtain ⟨callee, values, list, whole, rfl, _⟩ := shaped labelled
  rfl

/-- Parts have argument lists if the nodes have their shape. -/
theorem hasArguments_parts (shaped : ∀ node ∈ tree.nodes, Shaped node) :
    ∀ part ∈ tree.parts, part.HasArguments := by
  intro part inside labelled
  have node : part ∈ tree.nodes := by
    rw [Tree.nodes_eq_parts, List.mem_filter, labelled]
    exact ⟨inside, rfl⟩
  exact (shaped part node).hasArguments labelled

theorem hasArguments_program (parses : parseProgram source = .ok tree) :
    ∀ part ∈ tree.parts, part.HasArguments := hasArguments_parts (parsed_shaped parses)

theorem hasArguments_fragment (parses : parseFragment source = .ok tree) :
    ∀ part ∈ tree.parts, part.HasArguments := by
  obtain ⟨own, spelled⟩ := exists_spelled_fragment parses
  refine hasArguments_parts fun node inside => ?_
  obtain ⟨own', spelled'⟩ := spelled_nodes spelled node inside
  exact spelled_shaped spelled'

/-- Numbering keeps argument lists. -/
theorem hasArguments_number (inserted : Bool) (next : NodeId)
    (all : ∀ part ∈ tree.parts, part.HasArguments) :
    ∀ part ∈ (tree.number inserted next).1.parts, part.HasArguments := by
  intro part inside
  apply HasArguments.of_map (f := Mark.span)
  apply all
  rw [← Tree.map_number inserted next tree, Tree.parts_map]
  exact List.mem_map_of_mem inside

theorem hasArguments_numberAll (inserted : Bool) (next : NodeId) {trees : List SyntaxTree}
    (all : ∀ part ∈ Tree.partsAmong trees, part.HasArguments) :
    ∀ part ∈ Tree.partsAmong (Tree.numberAll inserted next trees).1, part.HasArguments := by
  intro part inside
  apply HasArguments.of_map (f := Mark.span)
  apply all
  rw [← Tree.mapAll_numberAll inserted next trees, Tree.partsAmong_map]
  exact List.mem_map_of_mem inside

end Curry

namespace Document

variable {source : Text} {document after : Document}

/-- What stands in a document after a change stood there before or comes in with it. -/
theorem hasArguments_changed {label : Label} {children : List DocumentTree} {mark : Mark}
    {change : List DocumentTree → List DocumentTree} {old : DocumentTree} {patch : Patch}
    {next : NodeId} (numbered : Numbered document)
    (all : ∀ part ∈ Tree.partsAmong document.forest, part.HasArguments)
    (inside : .node label children mark ∈ Tree.partsAmong document.forest)
    (cut : old.parts ⊆ Tree.partsAmong children)
    (self : (Tree.node label children mark).HasArguments →
      (Tree.node label (change children) mark).HasArguments)
    (brings : ∀ part ∈ Tree.partsAmong (change children),
      part ∈ Tree.partsAmong children ∨ part.HasArguments) :
    ∀ part ∈ Tree.partsAmong (document.changed mark.id change old patch next).forest,
      part.HasArguments := by
  intro part member
  rcases mem_changed cut member with changed | deeper
  · exact Tree.hasArguments_modifyChildren numbered.unique all inside self brings part changed
  · exact all part (Tree.parts_subset_among _ inside (List.mem_cons_of_mem _ deeper))

/-- No edit puts anything between a callee and its argument list. -/
theorem hasArguments_step (numbered : Numbered document)
    (all : ∀ part ∈ Tree.partsAmong document.forest, part.HasArguments)
    (made : Step document after) :
    ∀ part ∈ Tree.partsAmong after.forest, part.HasArguments := by
  cases made with
  | @callee old rest whole range callee parsed inside _ parses _ =>
    refine hasArguments_changed numbered all inside (List.subset_append_left old.parts _) id ?_
    intro part member
    rw [List.set_cons_zero, Tree.partsAmong_cons, List.mem_append] at member
    rcases member with new | kept
    · exact .inr (Curry.hasArguments_number true _ (Curry.hasArguments_fragment parses) part new)
    · exact .inl (List.mem_append_right _ kept)
  | @argument callee values rest label list whole index range inside bound _ _ =>
    have below : Tree.node label values list ∈ Tree.partsAmong document.forest :=
      Tree.parts_subset_among _ inside (by simp)
    have args : label = .args := Option.some.inj (all _ inside rfl)
    have cut : (values.getD index .missing).parts ⊆ Tree.partsAmong values := by
      rw [← List.getElem_eq_getD (h := bound)]
      exact fun part member => Tree.mem_partsAmong_iff.2 ⟨_, List.getElem_mem bound, member⟩
    refine hasArguments_changed numbered all below cut (fun _ labelled => ?_) fun part member => ?_
    · rw [args] at labelled
      cases labelled
    · exact .inl (Tree.partsAmong_subset List.eraseIdx_subset member)
  | @statements statement children label parent id index range snippet text parsed listed inside _
      _ _ _ parses _ =>
    have statements (part : SyntaxTree) (member : part ∈ Tree.partsAmong parsed.children) :
        part.HasArguments :=
      Curry.hasArguments_program parses part (Tree.partsAmong_children parsed member)
    have new := Curry.hasArguments_numberAll true document.nextId statements
    refine Tree.hasArguments_modifyChildren numbered.unique all inside (fun _ labelled => ?_) ?_
    · obtain rfl := Option.some.inj labelled
      cases listed
    · intro part member
      rw [Tree.partsAmong_append, Tree.partsAmong_append, List.mem_append, List.mem_append]
        at member
      rcases member with (front | new') | back
      · exact .inl (Tree.partsAmong_subset (List.take_subset index children) front)
      · exact .inr (new part new')
      · exact .inl (Tree.partsAmong_subset (List.drop_subset index children) back)

/-- In every document that is reached the calls have argument lists. -/
theorem Reached.hasArguments (reached : Reached source document) :
    ∀ part ∈ Tree.partsAmong document.forest, part.HasArguments := by
  refine reached.induction (fun tree accepted part inside => ?_)
    fun document after numbered all made => hasArguments_step numbered all made
  refine Curry.hasArguments_number false 0 (Curry.hasArguments_program accepted) part ?_
  simpa [forest, ofTree] using inside

variable {call target first : NodeId} {change : List DocumentTree → List DocumentTree}

/-- The nodes of the calls in the tree of a document, in their order. -/
def calls (document : Document) : List NodeRef := (document.find [.call]).map (·.node)

/-- What a call calls. -/
def callee (document : Document) (call : NodeId) : DocumentTree := (document.node call).child 0

/-- The arguments of a call, as far as they stay the same when they are edited inside. -/
def arguments (document : Document) (call : NodeId) : List Face :=
  ((document.node call).child 1).children.map face

theorem paths_map_node (document : Document) :
    document.paths.map (·.node) = document.tree.parts.filterMap Tree.ref? := by
  rw [paths, Tree.paths_map_node, Tree.filterMap_ref?]

theorem mem_calls {ref : NodeRef} : ref ∈ document.calls ↔
    ref.label = .call ∧ ref ∈ document.tree.parts.filterMap Tree.ref? := by
  rw [← paths_map_node, calls, find, List.mem_map, List.mem_map]
  constructor
  · rintro ⟨path, found, rfl⟩
    obtain ⟨found, labelled⟩ := List.mem_filter.1 found
    exact ⟨by simpa using labelled, path, found, rfl⟩
  · rintro ⟨labelled, path, found, rfl⟩
    exact ⟨path, List.mem_filter.2 ⟨found, by simpa using labelled⟩, rfl⟩

/-- No two calls have the same number. -/
theorem Numbered.calls_nodup (h : Numbered document) : (document.calls.map (·.mark.id)).Nodup := by
  have among : (document.paths.map (·.node.mark.id)).Sublist (Tree.idsAmong document.forest) := by
    have ids : document.paths.map (·.node.mark.id) = document.tree.nodes.filterMap Tree.id? := by
      have mapped := congrArg (List.map (·.mark.id)) (paths_map_node document)
      rw [List.map_map, List.map_filterMap] at mapped
      rw [Tree.nodes_eq_parts, List.filterMap_filter]
      refine mapped.trans (congrArg (List.filterMap · _) (funext fun part => ?_))
      cases part <;> rfl
    rw [ids, Tree.nodes_eq_parts]
    refine (List.filter_sublist.filterMap _).trans ?_
    exact (List.sublist_append_left _ _).filterMap Tree.id?
  have calls : document.calls.map (·.mark.id) = (document.find [.call]).map (·.node.mark.id) :=
    List.map_map
  rw [calls]
  exact h.unique.sublist ((List.filter_sublist.map _).trans among)

/-- A call that is known has a callee and an argument list. -/
theorem Reached.exists_call (reached : Reached source document)
    (labelled : (document.node call).label? = some .call) : ∃ callee values rest list whole,
      document.node call = .node .call (callee :: .node .args values list :: rest) whole ∧
      whole.id = call ∧ document.node call ∈ Tree.partsAmong document.forest := by
  cases known : document.node call with
  | missing =>
    rw [known] at labelled
    cases labelled
  | leaf =>
    rw [known] at labelled
    cases labelled
  | node label children whole =>
    rw [known] at labelled
    obtain rfl := Option.some.inj labelled
    have marked : (document.node call).info? = some whole := by rw [known]; rfl
    obtain ⟨inside, same⟩ := mem_of_node marked
    rw [known] at inside same
    obtain ⟨callee, values, rest, list, rfl⟩ := (reached.hasArguments _ inside).exists_args
    exact ⟨callee, values, rest, list, whole, rfl, Option.some.inj same, inside⟩

/-- The callee and the arguments of a call stay the same, and its callee stays as it is if all of it
was brought in behind some number. -/
structure Spares (first call : NodeId) (document after : Document) : Prop where
  callee : face (after.callee call) = face (document.callee call)
  list : face ((after.node call).child 1) = face ((document.node call).child 1)
  arguments : after.arguments call = document.arguments call
  brought : (∀ part ∈ (document.callee call).parts, ∀ id ∈ part.id?, first ≤ id) →
    after.callee call = document.callee call

theorem Spares.refl (first call : NodeId) (document : Document) :
    Spares first call document document := ⟨rfl, rfl, rfl, fun _ => rfl⟩

theorem Spares.trans {between : Document} (h : Spares first call document between)
    (h' : Spares first call between after) : Spares first call document after := by
  refine ⟨h'.callee.trans h.callee, h'.list.trans h.list, h'.arguments.trans h.arguments,
    fun brought => ?_⟩
  have same := h.brought brought
  rw [← same] at brought ⊢
  exact h'.brought brought

/-- A change of the children of a node spares a call if the node is neither this nor its argument
list. -/
theorem Frame.spares (frame : Frame target change document after)
    (numbered : (document.node call).id? = some call)
    (known : call ∈ Tree.idsAmong document.forest) (other : call ≠ target)
    (list : ((document.node call).child 1).id? ≠ some target) (old : target < first) :
    Spares first call document after := by
  have apart : (document.node call).id? ≠ some target := fun same =>
    other (Option.some.inj (numbered.symm.trans same))
  have child (index : Nat) : (after.node call).child index =
      ((document.node call).child index).modifyChildren target change := by
    rw [frame.node call known]
    exact Tree.child_modifyChildren apart index
  constructor
  · rw [callee, callee, child, Tree.face_modifyChildren]
  · rw [child, Tree.face_modifyChildren]
  · rw [arguments, arguments, child]
    exact Tree.children_modifyChildren list
  · intro brought
    rw [callee, child]
    refine Tree.modifyChildren_of_notMem _ fun member => ?_
    obtain ⟨part, inside, same⟩ := List.mem_filterMap.1 member
    exact Nat.not_lt.2 (brought part inside target same) old

/-- Neither the number of a call nor that of its argument list is that of another call or of its
argument list. -/
theorem Reached.calls_apart (reached : Reached source document) {other : NodeId}
    (labelled : (document.node call).label? = some .call)
    (labelled' : (document.node other).label? = some .call) (different : other ≠ call) :
    ((document.node call).child 1).id? ≠ some other ∧
      ((document.node other).child 1).id? ≠ ((document.node call).child 1).id? := by
  obtain ⟨callee, values, rest, list, whole, known, rfl, inside⟩ := reached.exists_call labelled
  obtain ⟨callee', values', rest', list', whole', known', rfl, inside'⟩ :=
    reached.exists_call labelled'
  have unique := reached.numbered.unique
  rw [known] at inside ⊢
  rw [known'] at inside' ⊢
  have below : .node .args values list ∈ Tree.partsAmong document.forest :=
    Tree.parts_subset_among _ inside (by simp)
  constructor
  · intro same
    cases Tree.eq_of_id unique below inside' same rfl
  · intro same
    have child {callee : DocumentTree} {values rest : List DocumentTree} {list whole : Mark} :
        list.id ∈ Tree.childIds (.node .call (callee :: .node .args values list :: rest) whole) :=
      List.mem_filterMap.2 ⟨.node .args values list, by simp [Tree.children], rfl⟩
    have shared : list'.id = list.id := Option.some.inj same
    cases Tree.eq_of_childIds unique inside inside' child (shared ▸ child)
    exact different rfl

end Document

end Uncurry
