import Uncurry.Proofs.Curry.Passes
import Uncurry.Proofs.Curry.Sites
import Uncurry.Proofs.Document.Numbering
import Uncurry.Proofs.Document.Splicing

/-!
# Uncurrying call after call

The calls are found before any of them is uncurried. `Ready` says that a call still looks as it was
found; uncurrying another call keeps this, so every call is met as it was found, and the patches are
those of the sites in their order.
-/
namespace Uncurry

open Uncurry.Tree (Keeps face)

namespace Curry

/-- A call with its callee and its argument list. -/
structure Call where
  callee : DocumentTree
  values : List DocumentTree
  list : Mark
  whole : Mark

/-- A call as a tree. -/
def Call.tree (call : Call) : DocumentTree :=
  .node .call [call.callee, .node .args call.values call.list] call.whole

/-- A call looks as it was found, and so does its argument list. -/
structure Ready (document : Document) (call : Call) : Prop where
  node : Keeps document.forest call.whole.id call.tree
  args : Keeps document.forest call.list.id (.node .args call.values call.list)
  node_fresh : call.whole.id < document.nextId
  args_fresh : call.list.id < document.nextId

variable {document : Document} {call other : Call} {table : ArityTable} {site : Site Mark}
  {callee tree : DocumentTree} {values : List DocumentTree}

/-- A tree with the face of an identifier is one. -/
theorem eq_leaf {α : Type} {tree : Tree α} {name : Text} (named : tree.identifier? = some name) :
    ∃ mark, tree = .leaf (.token .identifier) name mark := by
  cases tree with
  | leaf kind text mark =>
    simp only [Tree.identifier?, Option.ite_none_right_eq_some, Option.some.injEq] at named
    obtain ⟨rfl, rfl⟩ := named
    exact ⟨mark, rfl⟩
  | missing => cases named
  | node _ _ _ => cases named

/-- A tree with the face of a node is one. -/
theorem eq_node {label : Label} {mark : Mark} (labelled : tree.label? = some label)
    (marked : tree.info? = some mark) : ∃ children, tree = .node label children mark := by
  cases tree with
  | node label' children mark' =>
    obtain rfl := Option.some.inj labelled
    obtain rfl := Option.some.inj marked
    exact ⟨children, rfl⟩
  | missing => cases labelled
  | leaf _ _ _ => cases labelled

/-- A call that is ready is found with the same faces. -/
theorem Ready.found (ready : Ready document call) : ∃ callee values,
    .node .call [callee, .node .args values call.list] call.whole ∈
      Tree.partsAmong document.forest ∧
    Tree.withIdAmong? call.whole.id document.forest =
      some (.node .call [callee, .node .args values call.list] call.whole) ∧
    face callee = face call.callee ∧ values.map face = call.values.map face := by
  obtain ⟨part, inside, looked, _, same, children⟩ := ready.node.lookup
  simp only [face, Prod.mk.injEq] at same
  obtain ⟨below, rfl⟩ := eq_node same.1 same.2.2
  simp only [Tree.children, Call.tree, List.map_cons, List.map_nil] at children
  obtain ⟨callee, rest, rfl, callee_eq, rest_eq⟩ := List.map_eq_cons_iff.1 children
  obtain ⟨args, rest, rfl, args_eq, none_eq⟩ := List.map_eq_cons_iff.1 rest_eq
  obtain rfl := List.map_eq_nil_iff.1 none_eq
  simp only [face, Prod.mk.injEq] at args_eq
  obtain ⟨values, rfl⟩ := eq_node args_eq.1 args_eq.2.2
  refine ⟨callee, values, inside, looked, callee_eq, ?_⟩
  have below := Tree.parts_subset_among _ inside (a := .node .args values call.list) (by simp)
  exact (ready.args.alike _ below rfl).2

/-- Whether a call is saturated depends on faces alone. -/
theorem saturated?_congr {other : DocumentTree}
    (callee_eq : face (tree.child 0) = face (other.child 0))
    (values_eq : (tree.child 1).children.map face = (other.child 1).children.map face) :
    saturated? table tree = saturated? table other := by
  have first : ((tree.child 1).children.getD 0 .missing).identifier? =
      ((other.child 1).children.getD 0 .missing).identifier? := by
    match (tree.child 1).children, (other.child 1).children, values_eq with
    | [], [], _ => rfl
    | value :: _, value' :: _, values_eq =>
      exact congrArg (·.2.1) (List.cons.inj values_eq).1
  have length : (tree.child 1).children.length = (other.child 1).children.length := by
    simpa using congrArg List.length values_eq
  have name : (tree.child 0).identifier? = (other.child 0).identifier? :=
    congrArg (·.2.1) callee_eq
  simp only [saturated?, first, length, name]

/-- A call is saturated where it is a site. -/
theorem saturated?_tree (present : ∀ value ∈ call.values, value.info? ≠ none) :
    saturated? table call.tree = (site? table call.tree).map (·.name) := by
  cases found : site? table call.tree with
  | some site =>
    obtain ⟨applied, second, later, list, whole, shape, arity, known, _⟩ := site?_eq_some found
    rw [shape]
    simp [saturated?, Tree.child, Tree.children, Tree.identifier?, arity, known]
  | none =>
    obtain ⟨callee, values, list, whole⟩ := call
    rw [Option.map_none, Option.eq_none_iff_forall_ne_some]
    intro name is
    simp only [saturated?, Tree.child, Tree.children, Call.tree, List.getD_cons_zero,
      List.getD_cons_succ, bind, Option.bind_eq_some_iff] at is
    obtain ⟨word, callee_eq, applied, digit, name', value_eq, arity, known, is⟩ := is
    obtain ⟨calleeMark, rfl⟩ := eq_leaf callee_eq
    split at is
    · rename_i full
      obtain ⟨value, rest, rfl⟩ :=
        List.exists_cons_of_length_pos (Nat.lt_trans Nat.zero_lt_one full.1)
      obtain ⟨second, later, rfl⟩ := List.exists_cons_of_length_pos (Nat.lt_of_succ_lt_succ full.1)
      obtain ⟨first, rfl⟩ := eq_leaf value_eq
      obtain ⟨behind, info⟩ := Option.ne_none_iff_exists'.1 (present second (by simp))
      simp only [List.length_cons] at full
      have applies : applied = later.length + 1 := by omega
      have takes : arity = ((later.length + 1 : Nat) : Int) := by omega
      rw [Call.tree, site?_of_shape (by rw [digit, applies]) (by rw [known, takes]) info] at found
      cases found
    · cases is

variable {place : Place} {old first second new : DocumentTree} {rest later : List DocumentTree}
  {mark mark' list whole : Mark} {label : Label} {target id : NodeId} {model : DocumentTree}
  {forest : List DocumentTree}

theorem addPatch_eq {range : Range} {text : Text}
    (apart : ∀ patch ∈ document.patches, patch.range.overlaps range = false) :
    document.addPatch range text =
      .ok { document with patches := document.patches ++ [⟨range, text⟩] } := by
  have added : Patch.add document.patches ⟨range, text⟩ = _ := Patch.add_eq apart
  rw [Document.addPatch, added]
  rfl

/-- What an edit that overlaps no other one makes of a call whose callee comes from the source. -/
theorem replaceCallee_eq {text : Text}
    (found : document.treeAt place = .node .call (old :: rest) whole)
    (marked : old.info? = some mark) (original : mark.inserted = false)
    (apart : ∀ patch ∈ document.patches, patch.range.overlaps
      ⟨mark.span.start.offset, mark.span.stop.offset⟩ = false) :
    document.replaceCallee place text =
      match parseFragment text with
      | .error failure => .error (.source failure)
      | .ok parsed =>
        let (new, next) := parsed.number true document.nextId
        .ok (document.changed whole.id (·.set 0 new) old
          ⟨⟨mark.span.start.offset, mark.span.stop.offset⟩, text⟩ next) := by
  have range : Document.editable old = .ok ⟨mark.span.start.offset, mark.span.stop.offset⟩ := by
    simp [Document.editable, marked, original]
  have added : document.addPatch _ text = _ := addPatch_eq apart
  rw [Document.replaceCallee, found]
  cases parseFragment text with
  | error failure => simp only [range, Except.mapError, bind, Except.bind]
  | ok parsed =>
    simp only [range, Except.mapError, bind, Except.bind, added]
    rfl

/-- What an edit that overlaps no other one makes of a call with two arguments from the source. -/
theorem removeArgument_eq
    (found : document.treeAt place =
      .node .call (callee :: .node label (first :: second :: later) list :: rest) whole)
    (marked : first.info? = some mark) (original : mark.inserted = false)
    (marked' : second.info? = some mark') (original' : mark'.inserted = false)
    (apart : ∀ patch ∈ document.patches, patch.range.overlaps
      ⟨mark.span.start.offset, mark'.span.start.offset⟩ = false) :
    document.removeArgument place 0 =
      .ok (document.changed list.id (·.eraseIdx 0) first
        ⟨⟨mark.span.start.offset, mark'.span.start.offset⟩, []⟩ document.nextId) := by
  have range : Document.argumentRange (first :: second :: later) 0 =
      .ok ⟨mark.span.start.offset, mark'.span.start.offset⟩ := by
    simp [Document.argumentRange, Document.editable, marked, original, marked', original', bind,
      Except.bind, pure, Except.pure]
  have inside : ¬((0 : Int) < 0 ∨ ((first :: second :: later).length : Int) ≤ 0) := by
    simp only [List.length_cons]
    omega
  have added : document.addPatch _ [] = _ := addPatch_eq apart
  rw [Document.removeArgument, found]
  simp only [Int.toNat_zero, range, bind, Except.bind, added, if_neg inside]
  rfl

/-- A leaf has another number than a node that is kept. -/
theorem leaf_apart {kind : LeafKind} {text : Text} (keeps : Keeps forest id model)
    (labelled : model.label? ≠ none) (inside : .leaf kind text mark ∈ Tree.partsAmong forest) :
    mark.id ≠ id :=
  fun same => labelled (congrArg (·.1) (keeps.alike _ inside (congrArg some same)).1).symm

/-- A part stays as it was found while the first child of another one, an identifier, makes way for
others. -/
theorem keeps_change {change : List DocumentTree → List DocumentTree} (fresh : List DocumentTree)
    {name : Text} (keeps : Keeps forest id model) (labelled : model.label? ≠ none)
    (other : id ≠ target) (unknown : id ∉ Tree.idsAmong fresh)
    (headed : ∀ label children mark, Tree.node label children mark ∈ Tree.partsAmong forest →
      mark.id = target → ∃ info rest, children = .leaf (.token .identifier) name info :: rest)
    (changed : ∀ first rest, change (first :: rest) = fresh ++ rest) :
    Keeps (Tree.modifyChildrenAmong target change forest) id model := by
  refine keeps.modifyChildren other ?_ ?_
  · intro label children mark inside here part member numbered
    obtain ⟨info, rest, rfl⟩ := headed label children mark inside here
    rw [changed, Tree.partsAmong_append, List.mem_append] at member
    refine List.mem_cons_of_mem _ (member.resolve_left fun brought => unknown ?_)
    exact List.mem_filterMap.2 ⟨part, brought, numbered⟩
  · intro label children mark inside here member
    obtain ⟨info, rest, rfl⟩ := headed label children mark inside here
    rw [changed, Tree.idsAmong_append, List.mem_append]
    refine .inr (List.mem_of_ne_of_mem (fun same => ?_) member)
    have leaf : Tree.leaf (.token .identifier) name info ∈ Tree.partsAmong forest :=
      Tree.parts_subset_among forest inside (by simp)
    exact leaf_apart keeps labelled leaf same.symm

/-- What else is kept by an edit that takes the first child away from a part, an identifier. -/
theorem keeps_edit {change : List DocumentTree → List DocumentTree} (fresh : List DocumentTree)
    {name : Text} (keeps : Keeps document.forest id model) (labelled : model.label? ≠ none)
    (other : id ≠ target) (unknown : id ∉ Tree.idsAmong fresh)
    (headed : ∀ label children mark,
      Tree.node label children mark ∈ Tree.partsAmong document.forest → mark.id = target →
        ∃ info rest, children = .leaf (.token .identifier) name info :: rest)
    (changed : ∀ first rest, change (first :: rest) = fresh ++ rest)
    (inside : .leaf (.token .identifier) name mark ∈ Tree.partsAmong document.forest) :
    Keeps (document.changed target change (.leaf (.token .identifier) name mark) patch next).forest
      id model := by
  obtain ⟨present, alike⟩ := keeps_change fresh keeps labelled other unknown headed changed
  have apart : mark.id ≠ id := fun same =>
    labelled (congrArg (·.1) (keeps.alike _ inside (congrArg some same)).1).symm
  constructor
  · change id ∈ Tree.idsAmong (_ :: Tree.leaf _ _ _ :: _)
    rw [Tree.idsAmong_cons, Tree.idsAmong_cons]
    exact (List.mem_append.1 (Tree.idsAmong_cons .. ▸ present)).elim (List.mem_append_left _)
      fun behind => List.mem_append_right _ (List.mem_append_right _ behind)
  · intro part member numbered
    change part ∈ Tree.partsAmong (_ :: Tree.leaf _ _ _ :: _) at member
    rw [Tree.partsAmong_cons, Tree.partsAmong_cons, List.mem_append, List.mem_append] at member
    rcases member with member | member | member
    · exact alike part (List.mem_append_left _ member) numbered
    · obtain rfl := List.mem_singleton.1 member
      exact absurd (Option.some.inj numbered) apart
    · exact alike part (List.mem_append_right _ member) numbered

/-- A tree with the face of an identifier is one, with the same mark. -/
theorem eq_leaf_of_face {name : Text}
    (same : face tree = face (.leaf (.token .identifier) name mark)) :
    tree = .leaf (.token .identifier) name mark := by
  simp only [face, Prod.mk.injEq] at same
  obtain ⟨mark', rfl⟩ := eq_leaf same.2.1
  rw [Option.some.inj same.2.2]

/-- A call of a site that looks as it was found has the parts of the site. -/
theorem site_faces (found : site? table call.tree = some site)
    (callee_eq : face callee = face call.callee)
    (values_eq : values.map face = call.values.map face) :
    ∃ applied second later, callee = .leaf (.token .identifier) applied site.callee ∧
      values = .leaf (.token .identifier) site.name site.first :: second :: later ∧
      second.info? = some site.second ∧ applicationArity? applied = some (later.length + 1) ∧
      table.get? site.name = some ((later.length + 1 : Nat) : Int) := by
  obtain ⟨applied, second, later, list, whole, shape, arity, known, info⟩ := site?_eq_some found
  obtain ⟨callee', values', list', whole'⟩ := call
  simp only [Call.tree, Tree.node.injEq, List.cons.injEq, and_true, true_and] at shape
  obtain ⟨⟨rfl, rfl, rfl⟩, rfl⟩ := shape
  obtain ⟨first', rest, rfl, first_eq, rest_eq⟩ := List.map_eq_cons_iff.1 values_eq
  obtain ⟨second', later', rfl, second_eq, later_eq⟩ := List.map_eq_cons_iff.1 rest_eq
  have length : later'.length = later.length := by simpa using congrArg List.length later_eq
  rw [eq_leaf_of_face callee_eq, eq_leaf_of_face first_eq]
  exact ⟨applied, second', later', rfl, rfl, (congrArg (·.2.2) second_eq).trans info,
    by rw [length, arity], by rw [length, known]⟩

/-- Two calls share neither their numbers nor those of their argument lists. -/
def Call.Apart (call other : Call) : Prop :=
  ∀ id ∈ [other.whole.id, other.list.id], id ≠ call.whole.id ∧ id ≠ call.list.id

/-- Wherever a part may be looked up whose first child is an identifier, this is so. -/
theorem headed_of_keeps {name : Text} (keeps : Keeps forest id model)
    (head : (model.children.map face).head? = some (face (.leaf (.token .identifier) name mark))) :
    ∀ label children mark', Tree.node label children mark' ∈ Tree.partsAmong forest →
      mark'.id = id → ∃ info rest, children = .leaf (.token .identifier) name info :: rest := by
  intro label children mark' inside here
  rw [← (keeps.alike _ inside (congrArg some here)).2] at head
  match children, head with
  | first :: rest, head => exact ⟨mark, rest, by rw [eq_leaf_of_face (Option.some.inj head)]⟩

/-- The node whose children are changed is found with its new children. -/
theorem lookup_changed {change : List DocumentTree → List DocumentTree} {kind : LeafKind}
    {text : Text} (apart : mark.id ≠ target) :
    Tree.withIdAmong? target
        (document.changed target change (.leaf kind text mark) patch next).forest =
      (Tree.withIdAmong? target document.forest).map (Tree.withChildren change) := by
  have leaf : (Tree.leaf kind text mark).withId? target = none := by
    rw [Tree.withId?, if_neg apart]
  rw [← Tree.withIdAmong?_modifyChildren]
  change Tree.withIdAmong? target (_ :: Tree.leaf _ _ _ :: _) =
    Tree.withIdAmong? target (_ :: _)
  rw [Tree.withIdAmong?, Tree.withIdAmong?, leaf, Tree.withIdAmong?]
  rfl

/-- A call and its argument list have numbers of their own. -/
theorem Ready.apart (ready : Ready document call) : call.list.id ≠ call.whole.id := by
  obtain ⟨callee, values, inside, _⟩ := ready.found
  intro same
  have below : Tree.node .args values call.list ∈ Tree.partsAmong document.forest :=
    Tree.parts_subset_among _ inside (by simp)
  cases congrArg (·.1) (ready.node.alike _ below (congrArg some same)).1

/-- A call of a site is uncurried as it was found, and all calls apart from it stay ready. -/
theorem exists_uncurried (ready : Ready document call)
    (found : site? table call.tree = some site)
    (original : site.callee.inserted = false ∧ site.first.inserted = false ∧
      site.second.inserted = false) {parsed : SyntaxTree}
    (parses : parseFragment (direct site.name) = .ok parsed)
    (apart : (document.patches ++ (site.map Mark.span).patches).Pairwise
      fun a b => a.range.overlaps b.range = false) :
    ∃ between after,
      document.replaceCallee ⟨call.whole.id, []⟩ (direct site.name) = .ok between ∧
      between.removeArgument ⟨call.whole.id, []⟩ 0 = .ok after ∧
      after.source = document.source ∧
      after.patches = document.patches ++ (site.map Mark.span).patches ∧
      ∀ other, Ready document other → call.Apart other → Ready after other := by
  obtain ⟨callee, values, inside, looked, callee_eq, values_eq⟩ := ready.found
  obtain ⟨applied, second, later, rfl, rfl, info, _⟩ := site_faces found callee_eq values_eq
  have node : document.treeAt ⟨call.whole.id, []⟩ = .node .call _ call.whole :=
    congrArg (·.getD .missing) looked
  rw [List.pairwise_append] at apart
  obtain ⟨new, next, fresh, replaced⟩ : ∃ new next,
      (∀ id < document.nextId, id < next ∧ id ∉ Tree.idsAmong [new]) ∧
      document.replaceCallee ⟨call.whole.id, []⟩ (direct site.name) =
        .ok (document.changed call.whole.id (·.set 0 new) _ ⟨_, direct site.name⟩ next) := by
    have replaced : document.replaceCallee _ (direct site.name) = _ :=
      replaceCallee_eq node rfl original.1 fun patch member =>
        apart.2.2 patch member _ List.mem_cons_self
    rw [parses] at replaced
    obtain ⟨count, after, ids⟩ := Tree.number_ids true document.nextId parsed
    refine ⟨_, _, fun id old => ⟨?_, ?_⟩, replaced⟩
    · rw [after]
      exact Nat.lt_add_right count old
    · rw [Tree.idsAmong_cons, ids, Tree.idsAmong_nil, List.append_nil, List.mem_range'_1]
      exact fun within => Nat.not_lt.2 within.1 old
  have callee_inside : Tree.leaf (.token .identifier) applied site.callee ∈
      Tree.partsAmong document.forest := Tree.parts_subset_among _ inside (by simp)
  have callee_apart := leaf_apart ready.node (by simp [Call.tree, Tree.label?]) callee_inside
  generalize hd : document.changed call.whole.id (·.set 0 new) _ _ next = between at replaced
  have looked' : Tree.withIdAmong? call.whole.id between.forest = some (.node .call
      [new, .node .args (.leaf (.token .identifier) site.name site.first :: second :: later)
        call.list] call.whole) := by
    rw [← hd, lookup_changed callee_apart, looked]
    rfl
  have node' : between.treeAt ⟨call.whole.id, []⟩ = .node .call _ call.whole :=
    congrArg (·.getD .missing) looked'
  have kept {id : NodeId} {model : DocumentTree} (keeps : Keeps document.forest id model)
      (labelled : model.label? ≠ none) (other : id ≠ call.whole.id) (old : id < document.nextId) :
      Keeps between.forest id model := by
    rw [← hd]
    exact keeps_edit [new] keeps labelled other (fresh id old).2
      (headed_of_keeps ready.node (congrArg some callee_eq.symm)) (fun _ _ => rfl) callee_inside
  have args := kept ready.args (by simp [Tree.label?]) ready.apart ready.args_fresh
  have first_inside : Tree.leaf (.token .identifier) site.name site.first ∈
      Tree.partsAmong between.forest :=
    Tree.parts_subset_among _ (Document.lookup_eq_some looked').1 (by simp)
  have patches : between.patches = document.patches ++
      [⟨⟨site.callee.span.start.offset, site.callee.span.stop.offset⟩, direct site.name⟩] := by
    rw [← hd]
    rfl
  have removed := removeArgument_eq node' rfl original.2.1 info original.2.2 (by
    intro patch member
    rw [patches, List.mem_append, List.mem_singleton] at member
    rcases member with member | rfl
    · exact apart.2.2 patch member _ (List.mem_cons_of_mem _ List.mem_cons_self)
    · exact (List.pairwise_cons.1 apart.2.1).1 _ List.mem_cons_self)
  have kept' {id : NodeId} {model : DocumentTree} (keeps : Keeps between.forest id model)
      (labelled : model.label? ≠ none) (other : id ≠ call.list.id) :
      Keeps (between.changed call.list.id (·.eraseIdx 0) _
        ⟨⟨site.first.span.start.offset, site.second.span.start.offset⟩, []⟩ between.nextId).forest
        id model :=
    keeps_edit [] keeps labelled other List.not_mem_nil
      (headed_of_keeps args (congrArg List.head? values_eq.symm)) (fun _ _ => rfl) first_inside
  refine ⟨between, _, replaced, removed, ?_, ?_, fun other there apart => ?_⟩
  · rw [← hd]
    rfl
  · rw [Document.changed, patches, List.append_assoc]
    rfl
  · obtain ⟨node_apart, node_apart'⟩ := apart _ List.mem_cons_self
    obtain ⟨args_apart, args_apart'⟩ := apart _ (List.mem_cons_of_mem _ List.mem_cons_self)
    have further : between.nextId = next := by
      rw [← hd]
      rfl
    refine ⟨kept' (kept there.node ?_ node_apart there.node_fresh) ?_ node_apart',
      kept' (kept there.args ?_ args_apart there.args_fresh) ?_ args_apart',
      further ▸ (fresh _ there.node_fresh).1, further ▸ (fresh _ there.args_fresh).1⟩
    all_goals simp [Call.tree, Tree.label?]

/-- A call of a site is left alone if the new callee is no expression. -/
theorem replaceCallee_refused (ready : Ready document call)
    (found : site? table call.tree = some site) (original : site.callee.inserted = false)
    {failure : SourceFailure} (refused : parseFragment (direct site.name) = .error failure)
    (apart : ∀ patch ∈ document.patches, patch.range.overlaps
      ⟨site.callee.span.start.offset, site.callee.span.stop.offset⟩ = false) :
    document.replaceCallee ⟨call.whole.id, []⟩ (direct site.name) = .error (.source failure) := by
  obtain ⟨callee, values, _, looked, callee_eq, values_eq⟩ := ready.found
  obtain ⟨applied, second, later, rfl, rfl, _⟩ := site_faces found callee_eq values_eq
  have node : document.treeAt ⟨call.whole.id, []⟩ = .node .call _ call.whole :=
    congrArg (·.getD .missing) looked
  have replaced : document.replaceCallee _ (direct site.name) = _ :=
    replaceCallee_eq node rfl original apart
  rw [replaced, refused]

/-- One document comes from another one by uncurrying a call of a site. -/
def Uncurried (table : ArityTable) (document after : Document) : Prop :=
  ∃ call site between, Ready document call ∧ site? table call.tree = some site ∧
    document.replaceCallee ⟨call.whole.id, []⟩ (direct site.name) = .ok between ∧
    between.removeArgument ⟨call.whole.id, []⟩ 0 = .ok after

/-- One document comes from another one by uncurrying some number of calls, one after the other. -/
inductive UncurriedTimes (table : ArityTable) : Nat → Document → Document → Prop
  | none (document : Document) : UncurriedTimes table 0 document document
  | call {count : Nat} {document between after : Document} : Uncurried table document between →
      UncurriedTimes table count between after → UncurriedTimes table (count + 1) document after

variable {workspace : Workspace} {path : NodePath}

theorem run_uncurryCall_plain {place : Place} (at_place : place = ⟨path.node.mark.id, []⟩)
    (plain : saturated? workspace.table (workspace.document.treeAt place) = none) :
    (uncurryCall path).run workspace = (.ok false, workspace) := by
  subst at_place
  simp only [uncurryCall, Pass.run_bind, Pass.run_table, Pass.run_document, plain, Pass.run_pure]

section

variable {name : Text} {failure : Failure} {error : EditError} {between after : Document}
  (at_place : place = ⟨path.node.mark.id, []⟩)
  (full : saturated? workspace.table (workspace.document.treeAt place) = some name)

include at_place full

theorem run_uncurryCall_refused
    (refused : workspace.document.replaceCallee place (direct name) = .error failure) :
    (uncurryCall path).run workspace = (.error failure, workspace) := by
  subst at_place
  simp only [uncurryCall, Pass.run_bind, Pass.run_table, Pass.run_document, full,
    Pass.run_replaceCallee_error refused]

theorem run_uncurryCall_halfway
    (replaced : workspace.document.replaceCallee place (direct name) = .ok between)
    (refused : between.removeArgument place 0 = .error error) : (uncurryCall path).run workspace =
      (.error (.edit error), { workspace with document := between }) := by
  subst at_place
  simp only [uncurryCall, Pass.run_bind, Pass.run_table, Pass.run_document, full,
    Pass.run_replaceCallee_ok replaced, @Pass.run_removeArgument_error ⟨between, _, _⟩ _ _ _ refused]

theorem run_uncurryCall_done
    (replaced : workspace.document.replaceCallee place (direct name) = .ok between)
    (removed : between.removeArgument place 0 = .ok after) :
    (uncurryCall path).run workspace = (.ok true, { workspace with document := after }) := by
  subst at_place
  simp only [uncurryCall, Pass.run_bind, Pass.run_table, Pass.run_document, full,
    Pass.run_replaceCallee_ok replaced, @Pass.run_removeArgument_ok ⟨between, _, _⟩ _ _ _ removed,
    Pass.run_pure]

end

/-- What is looked up of a call that is ready is saturated where the call is a site. -/
theorem Ready.saturated?_eq (ready : Ready document call)
    (present : ∀ value ∈ call.values, value.info? ≠ none) :
    saturated? table (document.treeAt ⟨call.whole.id, []⟩) =
      (site? table call.tree).map (·.name) := by
  obtain ⟨callee, values, _, looked, callee_eq, values_eq⟩ := ready.found
  have node : document.treeAt ⟨call.whole.id, []⟩ = .node .call _ call.whole :=
    congrArg (·.getD .missing) looked
  have same : saturated? table (.node .call [callee, .node .args values call.list] call.whole) =
      saturated? table call.tree := saturated?_congr callee_eq values_eq
  rw [node, same, saturated?_tree present]

/-- A call that is no site is left alone. -/
theorem run_uncurryCall_none (ready : Ready workspace.document call)
    (present : ∀ value ∈ call.values, value.info? ≠ none)
    (at_call : path.node.mark.id = call.whole.id)
    (found : site? workspace.table call.tree = none) :
    (uncurryCall path).run workspace = (.ok false, workspace) := by
  have plain : saturated? workspace.table _ = none := (ready.saturated?_eq present).trans (by
    rw [found]
    rfl)
  exact run_uncurryCall_plain (by rw [at_call]) plain

/-- A call of a site is uncurried if the new callee is an expression. -/
theorem run_uncurryCall_some (ready : Ready workspace.document call)
    (present : ∀ value ∈ call.values, value.info? ≠ none)
    (at_call : path.node.mark.id = call.whole.id)
    (found : site? workspace.table call.tree = some site)
    (original : site.callee.inserted = false ∧ site.first.inserted = false ∧
      site.second.inserted = false)
    (apart : (workspace.document.patches ++ (site.map Mark.span).patches).Pairwise
      fun a b => a.range.overlaps b.range = false) :
    match parseFragment (direct site.name) with
    | .error failure => (uncurryCall path).run workspace = (.error (.source failure), workspace)
    | .ok _ => ∃ after, (uncurryCall path).run workspace =
          (.ok true, { workspace with document := after }) ∧
        Uncurried workspace.table workspace.document after ∧
        after.source = workspace.document.source ∧
        after.patches = workspace.document.patches ++ (site.map Mark.span).patches ∧
        ∀ other, Ready workspace.document other → call.Apart other → Ready after other := by
  have full : saturated? workspace.table _ = some site.name :=
    (ready.saturated?_eq present).trans (by rw [found]; rfl)
  cases parses : parseFragment (direct site.name) with
  | error failure =>
    have refused := replaceCallee_refused ready found original.1 parses fun patch member =>
      (List.pairwise_append.1 apart).2.2 patch member _ List.mem_cons_self
    exact run_uncurryCall_refused (by rw [at_call]) full refused
  | ok parsed =>
    obtain ⟨between, after, replaced, removed, source, patches, kept⟩ :=
      exists_uncurried ready found original parses apart
    exact ⟨after, run_uncurryCall_done (by rw [at_call]) full replaced removed,
      ⟨call, site, between, ready, found, replaced, removed⟩, source, patches, kept⟩

/-- Why the first of some sites is refused whose new callee is no expression. -/
def refusal? {α : Type} (sites : List (Site α)) : Option SourceFailure :=
  sites.findSome? fun site =>
    match parseFragment (direct site.name) with
    | .error failure => some failure
    | .ok _ => none

/-- The pass uncurries the calls of all sites in their order, up to one that is refused. -/
theorem run_count {calls : List Call} {paths : List NodePath}
    (at_calls : paths.map (·.node.mark.id) = calls.map (·.whole.id))
    (ready : ∀ call ∈ calls, Ready workspace.document call)
    (apart : calls.Pairwise Call.Apart)
    (present : ∀ call ∈ calls, ∀ value ∈ call.values, value.info? ≠ none)
    {sites : List (Site Mark)}
    (found : calls.filterMap (fun call => site? workspace.table call.tree) = sites)
    (original : ∀ site ∈ sites, site.callee.inserted = false ∧ site.first.inserted = false ∧
      site.second.inserted = false)
    (disjoint : (workspace.document.patches ++
      sites.flatMap fun site => (site.map Mark.span).patches).Pairwise
        fun a b => a.range.overlaps b.range = false) :
    match refusal? sites with
    | some failure => ∃ after,
        (Pass.count uncurryCall paths).run workspace = (.error (.source failure), after)
    | none => ∃ after, (Pass.count uncurryCall paths).run workspace =
          (.ok sites.length, { workspace with document := after }) ∧
        UncurriedTimes workspace.table sites.length workspace.document after ∧
        after.source = workspace.document.source ∧
        after.patches = workspace.document.patches ++
          (sites.flatMap fun site => (site.map Mark.span).patches) ∧
        ∀ other, Ready workspace.document other → (∀ call ∈ calls, call.Apart other) →
          Ready after other := by
  induction calls generalizing paths workspace sites with
  | nil =>
    obtain rfl := List.map_eq_nil_iff.1 at_calls
    subst found
    exact ⟨workspace.document, rfl, .none _, rfl, by simp, fun _ other _ => other⟩
  | cons call calls ih =>
    obtain ⟨path, paths, rfl, at_call, at_calls⟩ := List.map_eq_cons_iff.1 at_calls
    have here := ready call List.mem_cons_self
    have later := fun call member => ready call (List.mem_cons_of_mem _ member)
    rw [List.pairwise_cons] at apart
    have present_later := fun call member => present call (List.mem_cons_of_mem _ member)
    rw [List.filterMap_cons] at found
    cases is : site? workspace.table call.tree with
    | none =>
      rw [is] at found
      have step := run_uncurryCall_none here (present call List.mem_cons_self) at_call is
      have rest := ih at_calls later apart.2 present_later found original disjoint
      simp only [Pass.count, Pass.run_bind, step]
      cases refused : refusal? sites with
      | some failure =>
        rw [refused] at rest
        obtain ⟨after, run⟩ := rest
        exact ⟨after, by simp only [run]⟩
      | none =>
        rw [refused] at rest
        obtain ⟨after, run, times, source, patches, kept⟩ := rest
        refine ⟨after, by simp [run], times, source, patches, fun other there apart => ?_⟩
        exact kept other there fun call member => apart call (List.mem_cons_of_mem _ member)
    | some site =>
      rw [is] at found
      subst found
      rw [List.flatMap_cons, ← List.append_assoc] at disjoint
      have step := run_uncurryCall_some here (present call List.mem_cons_self) at_call is
        (original site List.mem_cons_self) (List.pairwise_append.1 disjoint).1
      simp only [refusal?, List.findSome?_cons, Pass.count, Pass.run_bind]
      cases parses : parseFragment (direct site.name) with
      | error failure =>
        rw [parses] at step
        exact ⟨workspace, by simp only [step]⟩
      | ok parsed =>
        rw [parses] at step
        obtain ⟨between, run, uncurried, source, patches, kept⟩ := step
        have ready' : ∀ call ∈ calls,
            Ready (Workspace.document { workspace with document := between }) call :=
          fun other member => kept other (later other member) (apart.1 other member)
        have rest := ih at_calls ready' apart.2 present_later rfl
          (fun site member => original site (List.mem_cons_of_mem _ member))
          (by rw [patches]; exact disjoint)
        simp only [run]
        change match refusal? _ with | some failure => _ | none => _
        cases refused : refusal? (calls.filterMap fun call => site? workspace.table call.tree) with
        | some failure =>
          rw [refused] at rest
          obtain ⟨after, run⟩ := rest
          exact ⟨after, by simp only [run]⟩
        | none =>
          rw [refused] at rest
          obtain ⟨after, run, times, source', patches', kept'⟩ := rest
          refine ⟨after, by simp [run], .call uncurried times, source'.trans source, ?_,
            fun other there apart => ?_⟩
          · rw [patches', patches, List.flatMap_cons, List.append_assoc]
          · exact kept' other (kept other there (apart call List.mem_cons_self))
              fun call member => apart call (List.mem_cons_of_mem _ member)

end Curry

end Uncurry
