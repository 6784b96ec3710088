import Uncurry.Proofs.Curry.Shapes
import Uncurry.Proofs.Curry.Uncurrying
import Uncurry.Proofs.Document.FirstEdits

/-!
# Injecting the stubs

The stubs come in as statements of a list, so they change no call of the program, and they bring no
site along.
-/
namespace Uncurry.Curry

open Uncurry.Tree (Keeps face)

variable {table : ArityTable} {target : NodeId}
  {change : List DocumentTree → List DocumentTree} {tree : DocumentTree}
  {children : List DocumentTree} {label : Label} {mark : Mark} {kind : LeafKind} {text : Text}

theorem eq_leaf_of_modifyChildren (h : tree.modifyChildren target change = .leaf kind text mark) :
    tree = .leaf kind text mark := by
  cases tree with
  | missing => exact h
  | leaf => exact h
  | node label children mark =>
    rw [Tree.modifyChildren] at h
    split at h <;> cases h

theorem eq_node_of_modifyChildren
    (h : tree.modifyChildren target change = .node label children mark) :
    ∃ old, tree = .node label old mark ∧
      (mark.id ≠ target → children = old.map (Tree.modifyChildren target change)) := by
  cases tree with
  | missing => cases h
  | leaf => cases h
  | node label' old mark' =>
    rw [Tree.modifyChildren] at h
    split at h
    · rename_i here
      cases h
      exact ⟨old, rfl, fun elsewhere => absurd here elsewhere⟩
    · obtain ⟨rfl, rfl, rfl⟩ := Tree.node.inj h
      exact ⟨old, rfl, fun _ => Tree.modifyChildrenAmong_eq target old⟩

/-- A number is not that of a call or an argument list. -/
def Elsewhere (target : NodeId) (trees : List DocumentTree) : Prop :=
  ∀ label children mark, Tree.node label children mark ∈ Tree.partsAmong trees →
    mark.id = target → label ≠ .call ∧ label ≠ .args

theorem Elsewhere.call {whole : Mark} (h : Elsewhere target [.node .call children whole]) :
    whole.id ≠ target :=
  fun here => (h .call children whole List.mem_cons_self here).1 rfl

theorem Elsewhere.args {callee : DocumentTree} {values : List DocumentTree} {list whole : Mark}
    (h : Elsewhere target [.node .call [callee, .node .args values list] whole]) :
    list.id ≠ target :=
  fun here => (h .args values list (by simp) here).2 rfl

/-- A site is a call. -/
theorem site?_of_ne {α : Type} {label : Label} (other : label ≠ .call) (children : List (Tree α))
    (info : α) : site? table (.node label children info) = none := by
  rw [Option.eq_none_iff_forall_ne_some]
  intro site found
  obtain ⟨_, _, _, _, _, shape, _⟩ := site?_eq_some found
  exact other (Tree.node.inj shape).1

/-- A change elsewhere keeps a call a site. -/
theorem site?_modifyChildren (elsewhere : Elsewhere target [tree]) :
    site? table (tree.modifyChildren target change) = site? table tree := by
  cases found : site? table tree with
  | some site =>
    obtain ⟨applied, second, later, list, whole, rfl, arity, known, info⟩ := site?_eq_some found
    rw [Tree.modifyChildren, if_neg elsewhere.call]
    simp only [Tree.modifyChildrenAmong, Tree.modifyChildren, if_neg elsewhere.args,
      Tree.modifyChildrenAmong_eq]
    refine site?_of_shape (by simpa using arity) (by simpa using known) ?_
    exact (congrArg (·.2.2) (Tree.face_modifyChildren target second)).trans info
  | none =>
    rw [Option.eq_none_iff_forall_ne_some]
    intro site there
    obtain ⟨applied, second, later, list, whole, shape, arity, known, info⟩ := site?_eq_some there
    obtain ⟨children, rfl, below⟩ := eq_node_of_modifyChildren shape
    obtain ⟨callee, rest, rfl, callee_eq, rest_eq⟩ :=
      List.map_eq_cons_iff.1 (below elsewhere.call).symm
    obtain ⟨args, rest, rfl, args_eq, none_eq⟩ := List.map_eq_cons_iff.1 rest_eq
    obtain rfl := List.map_eq_nil_iff.1 none_eq
    obtain rfl := eq_leaf_of_modifyChildren callee_eq
    obtain ⟨values, rfl, inside⟩ := eq_node_of_modifyChildren args_eq
    obtain ⟨first, rest, rfl, first_eq, others_eq⟩ :=
      List.map_eq_cons_iff.1 (inside elsewhere.args).symm
    obtain rfl := eq_leaf_of_modifyChildren first_eq
    obtain ⟨second, later, rfl, rfl, rfl⟩ := List.map_eq_cons_iff.1 others_eq
    have info := (congrArg (·.2.2) (Tree.face_modifyChildren target second)).symm.trans info
    rw [site?_of_shape (by simpa using arity) (by simpa using known) info] at found
    cases found

theorem Elsewhere.mono {trees more : List DocumentTree} (h : Elsewhere target trees)
    (sub : Tree.partsAmong more ⊆ Tree.partsAmong trees) : Elsewhere target more :=
  fun label children mark inside => h label children mark (sub inside)

mutual

/-- A change elsewhere that brings no sites along keeps all sites. -/
theorem sites_modifyChildren
    (brings : ∀ children, sitesAmong table (change children) = sitesAmong table children) :
    (tree : DocumentTree) → Elsewhere target [tree] →
    sites table (tree.modifyChildren target change) = sites table tree
  | .missing, _ => rfl
  | .leaf _ _ _, _ => rfl
  | .node label children mark, elsewhere => by
    have site : site? table ((Tree.node label children mark).modifyChildren target change) = _ :=
      site?_modifyChildren elsewhere
    rw [Tree.modifyChildren] at site ⊢
    split
    · rename_i here
      rw [if_pos here] at site
      rw [sites_node, sites_node, site, brings]
    · rename_i other
      rw [if_neg other] at site
      rw [sites_node, sites_node, site, sitesAmong_modifyChildren brings children]
      exact elsewhere.mono (by simp)

theorem sitesAmong_modifyChildren
    (brings : ∀ children, sitesAmong table (change children) = sitesAmong table children) :
    (trees : List DocumentTree) → Elsewhere target trees →
    sitesAmong table (Tree.modifyChildrenAmong target change trees) = sitesAmong table trees
  | [], _ => rfl
  | tree :: trees, elsewhere => by
    rw [Tree.modifyChildrenAmong, sitesAmong_cons, sitesAmong_cons,
      sites_modifyChildren brings tree (elsewhere.mono (by simp)),
      sitesAmong_modifyChildren brings trees (elsewhere.mono (by simp))]

end

/-- A change elsewhere keeps the shape of a call. -/
theorem Shaped.modifyChildren (h : Shaped tree) (elsewhere : Elsewhere target [tree]) :
    Shaped (tree.modifyChildren target change) := by
  intro labelled
  have same : tree.label? = some .call :=
    (congrArg (·.1) (Tree.face_modifyChildren target tree)).symm.trans labelled
  obtain ⟨callee, values, list, whole, rfl, present⟩ := h same
  rw [Tree.modifyChildren, if_neg elsewhere.call]
  simp only [Tree.modifyChildrenAmong, Tree.modifyChildren, if_neg elsewhere.args,
    Tree.modifyChildrenAmong_eq]
  refine ⟨_, _, list, whole, rfl, fun value member absent => ?_⟩
  obtain ⟨old, inside, rfl⟩ := List.mem_map.1 member
  exact present old inside
    ((congrArg (·.2.2) (Tree.face_modifyChildren target old)).symm.trans absent)

/-- A document whose tree has the calls of a program and perhaps others that are no sites. -/
structure Prepared (program : SyntaxTree) (document : Document) : Prop where
  cut : document.cut = []
  numbered : document.Numbered
  shaped : ∀ part ∈ document.tree.parts, Shaped part
  sites_eq : ∀ table, (sites table document.tree).map (Site.map Mark.span) = sites table program
  original : ∀ table, ∀ site ∈ sites table document.tree, site.callee.inserted = false ∧
    site.first.inserted = false ∧ site.second.inserted = false

/-- Nodes that have their shape are so as parts. -/
theorem shaped_parts {α : Type} {tree : Tree α} (h : ∀ node ∈ tree.nodes, Shaped node) :
    ∀ part ∈ tree.parts, Shaped part := by
  intro part inside labelled
  refine h part ?_ labelled
  rw [Tree.nodes_eq_parts, List.mem_filter, labelled]
  exact ⟨inside, rfl⟩

/-- The marks of a site are those of parts. -/
theorem site_marks {α : Type} {tree : Tree α} {site : Site α} (found : site ∈ sites table tree) :
    ∀ info ∈ [site.callee, site.first, site.second],
      ∃ part ∈ tree.parts, part.info? = some info := by
  obtain ⟨node, inside, is⟩ := List.mem_filterMap.1 found
  obtain ⟨applied, second, later, list, whole, rfl, _, _, info⟩ := site?_eq_some is
  rw [Tree.nodes_eq_parts] at inside
  have below := Tree.parts_subset tree (List.mem_filter.1 inside).1
  intro known member
  simp only [List.mem_cons, List.not_mem_nil, or_false] at member
  rcases member with rfl | rfl | rfl
  · exact ⟨.leaf (.token .identifier) applied site.callee, below (by simp), rfl⟩
  · exact ⟨.leaf (.token .identifier) site.name site.first, below (by simp), rfl⟩
  · have self := Tree.self_mem_parts info
    exact ⟨second, below (by simp [self]), info⟩

/-- A document without edits is prepared. -/
theorem prepared_ofTree {source : Text} {program : SyntaxTree}
    (parsed : parseProgram source = .ok program) :
    Prepared program (Document.ofTree source program) := by
  have same : (Document.ofTree source program).tree.map Mark.span = program :=
    Tree.map_number false 0 program
  refine ⟨rfl, Document.numbered_ofTree source program, shaped_parts ?_, fun table => ?_,
    fun table site found => ?_⟩
  · intro node inside
    refine Shaped.of_map (f := Mark.span) (parsed_shaped parsed _ ?_)
    rw [← same, Tree.nodes_map]
    exact List.mem_map_of_mem inside
  · rw [← sites_map, same]
  · have marks (mark : Mark) (member : mark ∈ [site.callee, site.first, site.second]) :
        mark.inserted = false := by
      obtain ⟨part, inside, marked⟩ := site_marks found mark member
      have known := Tree.number_inserted false 0 program part inside
      rw [marked] at known
      exact Option.some.inj known
    exact ⟨marks _ (by simp), marks _ (by simp), marks _ (by simp)⟩

variable {source : Text} {program : SyntaxTree} {path : NodePath} {workspace : Workspace}

/-- The stubs are a program in which no name is one of `A0` to `A9`. -/
theorem stubs_plain : (match parseProgram stubs with
    | .ok tree =>
      tree.nodes.all fun node => ((node.child 0).identifier?.bind applicationArity?).isNone
    | .error _ => false) = true := by
  decide +kernel

/-- A site has one of `A0` to `A9` for its callee. -/
theorem site?_of_callee {α : Type} {tree : Tree α}
    (plain : (tree.child 0).identifier?.bind applicationArity? = none) :
    site? table tree = none := by
  rw [Option.eq_none_iff_forall_ne_some]
  intro site found
  obtain ⟨applied, _, _, _, _, rfl, arity, _⟩ := site?_eq_some found
  change applicationArity? applied = none at plain
  rw [plain] at arity
  cases arity

/-- The statements of the stubs have no sites. -/
theorem exists_stubs : ∃ trees span, parseProgram stubs = .ok (.node .program trees span) ∧
    ∀ table, sitesAmong table trees = [] := by
  have plain := stubs_plain
  cases parsed : parseProgram stubs with
  | error failure =>
    rw [parsed] at plain
    cases plain
  | ok tree =>
    obtain ⟨known⟩ := exists_parsed parsed
    obtain ⟨trees, span, rfl⟩ : ∃ trees span, tree = .node .program trees span :=
      ⟨_, _, known.tree_eq⟩
    refine ⟨trees, span, rfl, fun table => List.filterMap_eq_nil_iff.2 fun node inside => ?_⟩
    rw [parsed] at plain
    have callee := List.all_eq_true.1 plain node
      (Tree.nodes_node .. ▸ List.mem_cons_of_mem _ inside)
    exact site?_of_callee (Option.isNone_iff_eq_none.1 callee)

/-- A label of a parent and a node say whether the stubs may come in there. -/
private def receives (place : Option Label × NodeRef) : Bool :=
  place.1.any Label.isStatementList && declarationLabels.contains place.2.label

/-- The path of the declaration that the stubs are put before leads to it. -/
theorem firstDeclaration?_node (document : Document) :
    (firstDeclaration? document).map (·.node) = (receiver? document.tree).bind Tree.ref? := by
  have first : firstDeclaration? document = document.tree.paths.find?
      (receives ∘ fun path => (path.parent.map (·.label), path.node)) := by
    rw [firstDeclaration?, Document.find, List.find?_filter]
    refine congrArg (List.find? · _) (funext fun path => ?_)
    cases h : path.parent <;> simp [receives, h, Bool.and_comm]
  have visited : receiver? document.tree = ((document.tree.visits none).find? fun visit =>
      (visit.2.ref?.map (visit.1, ·)).any receives).map (·.2) := by
    rw [receiver?]
    refine congrArg (Option.map _) (congrArg (List.find? · _) (funext fun visit => ?_))
    obtain ⟨parent, node⟩ := visit
    cases node <;> simp [Tree.ref?, Tree.label?, receives]
  have paths := congrArg (List.find? receives) (Tree.pathsFrom_map none 0 document.tree)
  rw [List.find?_map, List.find?_filterMap] at paths
  have nodes := congrArg (Option.map (·.2)) paths
  rw [Option.map_map] at nodes
  rw [first, visited, Option.bind_map]
  refine nodes.trans ?_
  rw [Option.map_bind]
  refine congrArg (Option.bind _) (funext fun visit => ?_)
  simp [Function.comp_def]

/-- Trees that are shaped without their numbers are so with them. -/
theorem shaped_partsAmong {α β : Type} {f : α → β} {trees : List (Tree α)}
    (h : ∀ node ∈ Tree.nodesAmong (Tree.mapAll f trees), Shaped node) :
    ∀ part ∈ Tree.partsAmong trees, Shaped part := by
  intro part inside labelled
  refine Shaped.of_map (h (part.map f) ?_) labelled
  rw [Tree.nodesAmong_map, Tree.nodesAmong_eq_parts]
  refine List.mem_map_of_mem (List.mem_filter.2 ⟨inside, ?_⟩)
  rw [labelled]
  rfl

theorem sitesAmong_map {α β : Type} (f : α → β) (trees : List (Tree α)) :
    sitesAmong table (Tree.mapAll f trees) = (sitesAmong table trees).map (Site.map f) := by
  induction trees with
  | nil => rfl
  | cons tree trees ih =>
    rw [Tree.mapAll, sitesAmong_cons, sitesAmong_cons, sites_map, ih, List.map_append]

/-- Statements without sites may come into a list of statements of a prepared document. -/
theorem Prepared.insert {document : Document} (h : Prepared program document) {above : NodeRef}
    (inside : Tree.node above.label children above.mark ∈ document.tree.parts)
    (listed : above.label.isStatementList = true) {trees : List SyntaxTree}
    (plain : ∀ table, sitesAmong table trees = [])
    (shaped : ∀ node ∈ Tree.nodesAmong trees, Shaped node) (index : Nat) (patch : Patch) :
    Prepared program (document.inserted above.mark.id index trees patch) := by
  have same := Tree.mapAll_numberAll true document.nextId trees
  generalize hs : (Tree.numberAll true document.nextId trees).1 = statements at same
  have forest : document.forest = [document.tree] := by rw [Document.forest, h.cut]
  have unique : (Tree.idsAmong [document.tree]).Nodup := forest ▸ h.numbered.unique
  have in_forest : Tree.node above.label children above.mark ∈ Tree.partsAmong [document.tree] := by
    simpa using inside
  have elsewhere : Elsewhere above.mark.id [document.tree] := by
    intro label below mark there here
    have labels := congrArg Tree.label?
      (Tree.eq_of_id unique there in_forest (congrArg some here) rfl)
    obtain rfl := Option.some.inj labels
    constructor <;> exact fun is => by rw [is] at listed; cases listed
  have brings (table : ArityTable) (below : List DocumentTree) :
      sitesAmong table (below.take index ++ statements ++ below.drop index) =
        sitesAmong table below := by
    have none : sitesAmong table statements = [] := by
      rw [← List.map_eq_nil_iff (f := Site.map Mark.span), ← sitesAmong_map, same, plain]
    rw [sitesAmong_append, sitesAmong_append, none, List.append_nil, ← sitesAmong_append,
      List.take_append_drop]
  have sites_same (table : ArityTable) :=
    sites_modifyChildren (brings table) document.tree elsewhere
  have tree : (document.inserted above.mark.id index trees patch).tree =
      document.tree.modifyChildren above.mark.id fun below =>
        below.take index ++ statements ++ below.drop index := by
    rw [← hs]
    rfl
  refine ⟨?_, (h.numbered.frame_insert (forest ▸ in_forest) index trees patch).numbered, ?_, ?_, ?_⟩
  · change Tree.modifyChildrenAmong above.mark.id _ document.cut = []
    rw [h.cut]
    rfl
  · intro part member
    rw [tree] at member
    rcases Tree.mem_parts_modifyChildren _ document.tree part member with
      ⟨old, there, rfl⟩ | ⟨label, below, mark, there, _, member⟩
    · refine (h.shaped old there).modifyChildren (elsewhere.mono ?_)
      simpa using Tree.parts_subset document.tree there
    · have deeper {part : DocumentTree} (member : part ∈ Tree.partsAmong below) : Shaped part :=
        h.shaped part (Tree.parts_subset document.tree there (List.mem_cons_of_mem _ member))
      rw [Tree.partsAmong_append, Tree.partsAmong_append, List.mem_append, List.mem_append]
        at member
      rcases member with (member | member) | member
      · exact deeper (Tree.partsAmong_subset (List.take_subset index below) member)
      · exact shaped_partsAmong (same.symm ▸ shaped) part member
      · exact deeper (Tree.partsAmong_subset (List.drop_subset index below) member)
  · intro table
    rw [tree]
    exact (congrArg (List.map _) (sites_same table)).trans (h.sites_eq table)
  · intro table site found
    rw [tree] at found
    exact h.original table site (sites_same table ▸ found)

/-- The stubs are inserted line by line. -/
theorem stubPatch_eq (source : Text) (start : Location) :
    stubPatch source start = Document.insertionPatch source stubs start.offset := by
  rw [stubPatch, Document.insertionPatch, stubBlock_eq, margin_eq]

/-- The stubs come in before the declaration that is found for them. -/
theorem exists_inserted (parsed : parseProgram source = .ok program)
    (found : firstDeclaration? (Document.ofTree source program) = some path) :
    ∃ insertion, (Document.ofTree source program).insertBefore path stubs = .ok insertion ∧
      Prepared program insertion.document ∧ insertion.document.source = source ∧
      insertion.document.patches = [stubPatch source path.node.mark.span.start] := by
  have prepared := prepared_ofTree parsed
  obtain ⟨trees, span, parses, plain⟩ := exists_stubs
  have shaped : ∀ node ∈ Tree.nodesAmong trees, Shaped node := fun node inside =>
    parsed_shaped parses node (Tree.nodes_node .. ▸ List.mem_cons_of_mem _ inside)
  have listed := List.find?_some found
  obtain ⟨above, parent, listed⟩ := (Option.any_eq_true _ _).1 listed
  have member := (List.mem_filter.1 (List.mem_of_find?_eq_some found)).1
  obtain ⟨children, insertion, inside, inserted, document⟩ :=
    Document.insertBefore_found member parent listed parses
  refine ⟨insertion, inserted, ?_⟩
  rw [stubPatch_eq, document]
  exact ⟨prepared.insert inside listed plain shaped _ _, rfl, rfl⟩

/-- Injecting the stubs prepares a document and records their patch where they have a place. -/
theorem run_injectStubs (parsed : parseProgram source = .ok program)
    (document : workspace.document = Document.ofTree source program) :
    ∃ after log, injectStubs.run workspace =
        (.ok (receiver? program).isSome, ⟨after, workspace.table, log⟩) ∧
      Prepared program after ∧ after.source = source ∧
      after.patches = ((receiver? program).bind Tree.info?).toList.map
        fun span => stubPatch source span.start := by
  have same : (Document.ofTree source program).tree.map Mark.span = program :=
    Tree.map_number false 0 program
  have there := firstDeclaration?_node (Document.ofTree source program)
  have mapped := receiver?_map Mark.span (Document.ofTree source program).tree
  rw [same] at mapped
  cases receiver : receiver? (Document.ofTree source program).tree with
  | none =>
    rw [receiver, Option.bind_none, Option.map_eq_none_iff, ← document] at there
    rw [mapped, receiver]
    have run : ∃ log, injectStubs.run workspace =
        (.ok false, ⟨workspace.document, workspace.table, log⟩) := by
      constructor
      simp only [injectStubs, Pass.run_bind, Pass.run_document, there, Pass.run_log, Pass.run_pure]
      rfl
    obtain ⟨log, run⟩ := run
    exact ⟨workspace.document, log, run, document ▸ prepared_ofTree parsed, document ▸ rfl,
      document ▸ rfl⟩
  | some node =>
    obtain ⟨label, children, mark, rfl⟩ : ∃ label children mark,
        node = .node label children mark := by
      obtain ⟨visit, found, rfl⟩ := Option.map_eq_some_iff.1 receiver
      have labelled := List.find?_some found
      rw [Bool.and_eq_true] at labelled
      cases h : visit.2 with
      | node label children mark => exact ⟨label, children, mark, rfl⟩
      | missing => rw [h] at labelled; cases labelled.2
      | leaf => rw [h] at labelled; cases labelled.2
    rw [receiver] at there mapped
    obtain ⟨path, found, place⟩ := Option.map_eq_some_iff.1 there
    obtain ⟨insertion, inserted, prepared, source_eq, patches⟩ := exists_inserted parsed found
    rw [place] at patches
    rw [← document] at found inserted
    rw [mapped]
    have run : ∃ log, injectStubs.run workspace =
        (.ok true, ⟨insertion.document, workspace.table, log⟩) := by
      obtain ⟨log, run⟩ := Pass.run_insertBefore_ok inserted
      exact ⟨log, by simp only [injectStubs, Pass.run_bind, Pass.run_document, found, run,
        Pass.run_pure]⟩
    obtain ⟨log, run⟩ := run
    exact ⟨insertion.document, log, run, prepared, source_eq, patches⟩

end Uncurry.Curry
