import Uncurry.Proofs.Curry.Injection
import Uncurry.Proofs.Document.Steps

/-!
# What the transformation makes of a program

`transform_eq` says of every source how its transformation ends.
-/
namespace Uncurry

/-- A pass succeeds and leaves the document alone. -/
def Pass.Quiet {α : Type} (pass : Pass α) : Prop :=
  ∀ workspace, ∃ a table log,
    pass.run workspace = (.ok a, ⟨workspace.document, table, log⟩)

namespace Pass.Quiet

variable {α β : Type}

theorem pure (a : α) : Quiet (Pure.pure a : Pass α) :=
  fun workspace => ⟨a, workspace.table, workspace.log, rfl⟩

theorem bind {pass : Pass α} {next : α → Pass β} (h : Quiet pass) (h' : ∀ a, Quiet (next a)) :
    Quiet (pass >>= next) := by
  intro workspace
  obtain ⟨a, table, log, run⟩ := h workspace
  obtain ⟨b, table', log', run'⟩ := h' a ⟨workspace.document, table, log⟩
  exact ⟨b, table', log', by rw [run_bind, run]; exact run'⟩

theorem document : Quiet Pass.document :=
  fun workspace => ⟨workspace.document, workspace.table, workspace.log, rfl⟩

theorem table : Quiet Pass.table :=
  fun workspace => ⟨workspace.table, workspace.table, workspace.log, rfl⟩

theorem log (level : LogLevel) (logger : Logger) (message : Text) :
    Quiet (Pass.log level logger message) :=
  fun _ => ⟨_, _, _, rfl⟩

theorem record (name : Text) (arity : Int) : Quiet (Pass.record name arity) := fun workspace =>
  have ⟨log, run⟩ := run_record name arity workspace
  ⟨(), _, log, run⟩

theorem forM {step : α → Pass Unit} (h : ∀ a, Quiet (step a)) (items : List α) :
    Quiet (items.forM step) := by
  induction items with
  | nil => exact pure ()
  | cons item items ih => exact bind (h item) fun _ => ih

theorem count {step : α → Pass Bool} (h : ∀ a, Quiet (step a)) (items : List α) :
    Quiet (Pass.count step items) := by
  induction items with
  | nil => exact pure 0
  | cons item items ih => exact bind (h item) fun _ => bind ih fun _ => pure _

end Pass.Quiet

namespace Curry

theorem collectArities_quiet : collectArities.Quiet :=
  .bind .document fun _ => .bind (.forM (fun _ => .record _ _) _) fun _ =>
    .bind .table fun _ => .log _ _ _

theorem recordAlias_quiet (name target : Text) : (recordAlias name target).Quiet := by
  refine .bind .table fun table => ?_
  cases table.get? target with
  | none => exact .pure false
  | some arity => exact .bind (.record name arity) fun _ => .pure true

theorem propagateAliases_quiet : propagateAliases.Quiet :=
  .bind .document fun _ => .bind (.count (fun _ => recordAlias_quiet _ _) _) fun _ =>
    .bind (.log _ _ _) fun _ => .pure _

variable {source : Text} {program : SyntaxTree} {document : Document} {table : ArityTable}

/-- The calls of a document, given by a list of nodes that have their shape. -/
theorem exists_calls_of_nodes {nodes : List DocumentTree}
    (h : ∀ node ∈ nodes, node.label? = some .call ∧ Shaped node) :
    ∃ calls : List Call, nodes = calls.map Call.tree ∧
      ∀ call ∈ calls, ∀ value ∈ call.values, value.info? ≠ none := by
  induction nodes with
  | nil => exact ⟨[], rfl, by simp⟩
  | cons node nodes ih =>
    obtain ⟨calls, rfl, present⟩ := ih fun other member => h other (List.mem_cons_of_mem _ member)
    obtain ⟨labelled, shaped⟩ := h node List.mem_cons_self
    obtain ⟨callee, values, list, whole, rfl, present'⟩ := shaped labelled
    refine ⟨⟨callee, values, list, whole⟩ :: calls, rfl, fun call member => ?_⟩
    rcases List.mem_cons.1 member with rfl | member
    · exact present'
    · exact present call member

/-- The calls of a tree are found by the paths to its calls. -/
theorem find_call_eq {calls : List Call}
    (nodes : document.tree.nodes.filter (·.label? = some .call) = calls.map Call.tree) :
    (document.find [.call]).map (·.node.mark.id) = calls.map (·.whole.id) := by
  have refs := congrArg (List.filterMap fun ref : NodeRef =>
    if ref.label = .call then some ref.mark.id else none) (Tree.paths_map_node document.tree)
  have ids := congrArg (List.filterMap fun part => part.ref?.map (·.mark.id)) nodes
  rw [List.filterMap_map] at refs ids
  rw [List.filterMap_filterMap] at refs
  rw [List.filterMap_filter] at ids
  refine Eq.trans ?_ (refs.trans (Eq.trans ?_ (ids.trans ?_)))
  · rw [Document.find, Document.paths, ← List.filterMap_eq_map, List.filterMap_filter]
    refine congrArg (List.filterMap · _) (funext fun path => ?_)
    simp
  · refine congrArg (List.filterMap · _) (funext fun node => ?_)
    cases node <;> simp [Tree.ref?, Tree.label?]
  · rw [← List.filterMap_eq_map]
    rfl

/-- The calls that the last pass walks over. -/
theorem Prepared.exists_calls (h : Prepared program document) : ∃ calls : List Call,
    (document.find [.call]).map (·.node.mark.id) = calls.map (·.whole.id) ∧
    (∀ call ∈ calls, Ready document call) ∧ calls.Pairwise Call.Apart ∧
    (∀ call ∈ calls, ∀ value ∈ call.values, value.info? ≠ none) ∧
    ∀ table, calls.filterMap (fun call => site? table call.tree) =
      sites table document.tree := by
  have forest : document.forest = [document.tree] := by rw [Document.forest, h.cut]
  have parts : Tree.partsAmong document.forest = document.tree.parts := by simp [forest]
  have labelled : ∀ node ∈ document.tree.nodes.filter (·.label? = some .call),
      node.label? = some .call ∧ Shaped node := by
    intro node member
    obtain ⟨member, labelled⟩ := List.mem_filter.1 member
    rw [Tree.nodes_eq_parts] at member
    exact ⟨by simpa using labelled, h.shaped node (List.mem_filter.1 member).1⟩
  obtain ⟨calls, nodes, present⟩ := exists_calls_of_nodes labelled
  have sublist : (calls.map Call.tree).Sublist (Tree.partsAmong document.forest) := by
    rw [← nodes, parts, Tree.nodes_eq_parts]
    exact List.filter_sublist.trans List.filter_sublist
  have inside (call : Call) (member : call ∈ calls) :
      call.tree ∈ Tree.partsAmong document.forest :=
    sublist.subset (List.mem_map_of_mem member)
  have args_inside (call : Call) (member : call ∈ calls) :
      .node .args call.values call.list ∈ Tree.partsAmong document.forest :=
    Tree.parts_subset_among _ (inside call member) (by simp [Call.tree])
  have own (call other : Call) (member : call ∈ calls) (member' : other ∈ calls) :
      call.whole.id ≠ other.list.id := by
    intro same
    cases Tree.eq_of_id h.numbered.unique (inside call member) (args_inside other member')
      (congrArg some same) rfl
  refine ⟨calls, ?_, fun call member => ?_, ?_, present, fun table => ?_⟩
  · exact find_call_eq nodes
  · have numbered {part : DocumentTree} {id : NodeId}
        (inside : part ∈ Tree.partsAmong document.forest) (same : part.id? = some id) :
        id < document.nextId :=
      h.numbered.fresh id (List.mem_filterMap.2 ⟨part, inside, same⟩)
    exact ⟨.of_unique h.numbered.unique (inside call member) rfl,
      .of_unique h.numbered.unique (args_inside call member) rfl, numbered (inside call member) rfl,
      numbered (args_inside call member) rfl⟩
  · have ids : (Tree.partsAmong document.forest).Pairwise fun a b =>
        ∀ id ∈ a.id?, ∀ id' ∈ b.id?, id ≠ id' := List.pairwise_filterMap.1 h.numbered.unique
    have both := (ids.and (Tree.childIds_disjoint h.numbered.unique)).sublist sublist
    rw [List.pairwise_map] at both
    refine both.imp_of_mem fun {call other} member member' apart id among => ?_
    simp only [List.mem_cons, List.not_mem_nil, or_false] at among
    rcases among with rfl | rfl
    · exact ⟨(apart.1 _ rfl _ rfl).symm, own other call member' member⟩
    · refine ⟨(own call other member member').symm, fun same => ?_⟩
      have below (call : Call) : call.list.id ∈ Tree.childIds call.tree :=
        List.mem_filterMap.2 ⟨.node .args call.values call.list, by simp [Call.tree, Tree.children],
          rfl⟩
      exact apart.2 (below call) (same ▸ below other)
  · have found := congrArg (List.filterMap (site? table)) nodes
    rw [List.filterMap_map, List.filterMap_filter] at found
    refine found.symm.trans (congrArg (List.filterMap · _) (funext fun node => ?_))
    split
    · rfl
    · rename_i other
      cases node with
      | missing => rfl
      | leaf => rfl
      | node label children mark =>
        exact (site?_of_ne (fun is => other (by simp [Tree.label?, is])) children mark).symm

/-- The arity table that the first two passes leave. -/
def arities (source : Text) (program : SyntaxTree) : ArityTable :=
  ((collectArities >>= fun _ => propagateAliases).run
    (.ofDocument (.ofTree source program))).2.table

/-- The passes in front of the one that uncurries the calls. -/
def firstPasses : Pass Bool := do
  collectArities
  let _ ← propagateAliases
  injectStubs

/-- These passes succeed, and prepare the document for the edits to come. -/
theorem exists_start (parsed : parseProgram source = .ok program) : ∃ start,
    firstPasses.run (.ofDocument (.ofTree source program)) =
        (.ok (receiver? program).isSome, start) ∧
      Prepared program start.document ∧ start.document.source = source ∧
      start.document.patches ++ (sites start.table program).flatMap Site.patches =
        edits source start.table program ∧
      start.table = arities source program := by
  obtain ⟨_, table, log, collect⟩ := collectArities_quiet (.ofDocument (.ofTree source program))
  obtain ⟨copied, table', log', propagate⟩ := propagateAliases_quiet
    ⟨(Workspace.ofDocument (.ofTree source program)).document, table, log⟩
  obtain ⟨between, log'', inject, prepared, source_eq, patches⟩ := run_injectStubs parsed
    (rfl : (Workspace.mk (Workspace.ofDocument (.ofTree source program)).document table'
      log').document = .ofTree source program)
  refine ⟨⟨between, table', log''⟩, ?_, prepared, source_eq, ?_, ?_⟩
  · simp only [firstPasses, Pass.run_bind, collect, propagate, inject]
  · rw [patches]
    rfl
  · rw [arities, Pass.run_bind, collect]
    exact (congrArg (·.2.table) propagate).symm

/-- The edits of a program do not overlap. -/
theorem edits_apart (parsed : parseProgram source = .ok program) (table : ArityTable) :
    (edits source table program).Pairwise fun a b => a.range.overlaps b.range = false := by
  obtain ⟨known⟩ := exists_parsed parsed
  obtain ⟨sorted, perm, ascending⟩ := known.exists_sorted table
  exact perm.symm.pairwise ascending.pairwise_apart fun {a b} h => by rwa [Range.overlaps_comm]

/-- The edits of a program can be made. -/
theorem apply_edits (parsed : parseProgram source = .ok program) (table : ArityTable) :
    Patch.apply source (edits source table program) =
      .ok (Patch.edited (edits source table program) 0 source) := by
  obtain ⟨known⟩ := exists_parsed parsed
  obtain ⟨sorted, perm, ascending⟩ := known.exists_sorted table
  exact Patch.apply_eq perm ascending

theorem refusal?_map {α β : Type} (f : α → β) (sites : List (Site α)) :
    refusal? (sites.map (Site.map f)) = refusal? sites := by
  rw [refusal?, List.findSome?_map]
  rfl

/-- The last pass, on a document with the calls of a program. -/
theorem run_uncurryCalls {workspace : Workspace} (h : Prepared program workspace.document)
    (disjoint : (workspace.document.patches ++
      (sites workspace.table program).flatMap Site.patches).Pairwise
        fun a b => a.range.overlaps b.range = false) :
    match refusal? (sites workspace.table program) with
    | some failure => ∃ after, uncurryCalls.run workspace = (.error (.source failure), after)
    | none => ∃ after log, uncurryCalls.run workspace =
          (.ok (sites workspace.table program).length, ⟨after, workspace.table, log⟩) ∧
        UncurriedTimes workspace.table (sites workspace.table program).length workspace.document
          after ∧
        after.source = workspace.document.source ∧
        after.patches = workspace.document.patches ++
          (sites workspace.table program).flatMap Site.patches := by
  obtain ⟨calls, at_calls, ready, apart, present, found⟩ := h.exists_calls
  have same := h.sites_eq workspace.table
  have spans : (sites workspace.table workspace.document.tree).flatMap
      (fun site => (site.map Mark.span).patches) =
        (sites workspace.table program).flatMap Site.patches := by
    rw [← same, List.flatMap_map]
  rw [← spans] at disjoint
  have run := run_count at_calls ready apart present (found workspace.table)
    (h.original workspace.table) disjoint
  rw [← spans, ← same, refusal?_map, List.length_map]
  cases refused : refusal? (sites workspace.table workspace.document.tree) with
  | some failure =>
    rw [refused] at run
    obtain ⟨after, run⟩ := run
    exact ⟨after, by simp only [uncurryCalls, Pass.run_bind, Pass.run_document, run]⟩
  | none =>
    rw [refused] at run
    obtain ⟨after, run, times, source_eq, patches_eq, _⟩ := run
    have all : ∃ log, uncurryCalls.run workspace =
        (.ok (sites workspace.table workspace.document.tree).length,
          ⟨after, workspace.table, log⟩) := by
      constructor
      simp only [uncurryCalls, Pass.run_bind, Pass.run_document, run, Pass.logCount, Pass.run_log,
        Pass.run_pure]
      rfl
    obtain ⟨log, all⟩ := all
    exact ⟨after, log, all, times, source_eq, patches_eq⟩

/-- A program is transformed unless a new callee is no expression; its output is the source with
all edits made. -/
theorem transform_eq (parsed : parseProgram source = .ok program) : (transform source).1 =
    match refusal? (sites (arities source program) program) with
    | some failure => .error (.source failure)
    | none => .ok ⟨Patch.edited (edits source (arities source program) program) 0 source,
        arities source program, (receiver? program).isSome,
        (sites (arities source program) program).length⟩ := by
  obtain ⟨start, run, prepared, source_eq, patches, table⟩ := exists_start parsed
  have uncurry := run_uncurryCalls prepared (patches ▸ edits_apart parsed start.table)
  rw [patches, table] at uncurry
  have passes : allPasses = firstPasses >>= fun injected => uncurryCalls >>= fun count =>
      Pass.document >>= fun document => Pass.ofExcept (document.toSource.mapError .edit) >>=
        fun output => Pass.table >>= fun table => pure ⟨output, table, injected, count⟩ := by
    simp only [allPasses, firstPasses, bind_assoc]
  rw [transform, Document.parse, parsed]
  change (allPasses.run (.ofDocument (.ofTree source program))).1 = _
  rw [passes, Pass.run_bind, run]
  cases refused : refusal? (sites (arities source program) program) with
  | some failure =>
    rw [refused] at uncurry
    obtain ⟨after, uncurry⟩ := uncurry
    simp only [Pass.run_bind, uncurry]
  | none =>
    rw [refused] at uncurry
    obtain ⟨after, log, uncurry, _, source_eq', patches'⟩ := uncurry
    have output : after.toSource =
        .ok (Patch.edited (edits source (arities source program) program) 0 source) := by
      rw [Document.toSource, patches', source_eq', source_eq]
      exact apply_edits parsed _
    simp only [Pass.run_bind, uncurry, Pass.run_document, Pass.run_ofExcept, output,
      Except.mapError, Pass.run_table, Pass.run_pure]

/-- Only a program is transformed. -/
theorem exists_program {result : Transformed} (h : (transform source).1 = .ok result) :
    ∃ program, parseProgram source = .ok program := by
  cases parsed : parseProgram source with
  | ok program => exact ⟨program, rfl⟩
  | error failure =>
    rw [transform, Document.parse, parsed] at h
    cases h

/-- What comes of a program that is transformed. -/
theorem exists_result {result : Transformed} (h : (transform source).1 = .ok result) :
    ∃ program, parseProgram source = .ok program ∧
      result = ⟨Patch.edited (edits source (arities source program) program) 0 source,
        arities source program, (receiver? program).isSome,
        (sites (arities source program) program).length⟩ := by
  obtain ⟨program, parsed⟩ := exists_program h
  rw [transform_eq parsed] at h
  cases refused : refusal? (sites (arities source program) program) with
  | some failure =>
    rw [refused] at h
    cases h
  | none =>
    rw [refused] at h
    exact ⟨program, parsed, (Except.ok.inj h).symm⟩

/-- The output of a transformation can be evaluated without sorting the edits. -/
theorem exists_transformed {output : Text}
    (edited : (parseProgram source).toOption.any (fun program =>
      let table := arities source program
      (refusal? (sites table program)).isNone &&
        Patch.edited (edits source table program) 0 source = output) = true) :
    ∃ result, (transform source).1 = .ok result ∧ result.output = output := by
  obtain ⟨program, accepted, run⟩ := (Option.any_eq_true _ _).1 edited
  simp only [Bool.and_eq_true, Option.isNone_iff_eq_none, decide_eq_true_eq] at run
  have ok := transform_eq (eq_ok_of_toOption accepted)
  rw [run.1] at ok
  exact ⟨_, ok, run.2⟩

/-- A program with a site inside an argument of another one and a declaration in a block. -/
def nested : Text :=
  Text.ofString "g();\n\x7b var f = F2(g);\n  A2(f, A2(f, a, b), c) \x7d"

/-- What `nested` becomes. -/
def nestedOutput : Text :=
  Text.ofString "g();\n\x7b " ++ stubs ++
    Text.ofString "\nvar f = F2(g);\n  f.f(f.f(a, b), c) \x7d"

theorem nested_edited : (parseProgram nested).toOption.any (fun program =>
    let table := arities nested program
    (refusal? (sites table program)).isNone && (sites table program).length = 2 &&
      Patch.edited (edits nested table program) 0 nested = nestedOutput) = true := by
  decide +kernel

/-- `nested` is transformed, with two calls uncurried. -/
theorem exists_nested : ∃ program result, parseProgram nested = .ok program ∧
    (transform nested).1 = .ok result ∧ result.uncurried = 2 ∧ result.output = nestedOutput := by
  obtain ⟨program, accepted, run⟩ := (Option.any_eq_true _ _).1 nested_edited
  simp only [Bool.and_eq_true, Option.isNone_iff_eq_none, decide_eq_true_eq] at run
  have parsed := eq_ok_of_toOption accepted
  have ok := transform_eq parsed
  rw [run.1.1] at ok
  exact ⟨program, _, parsed, ok, run.1.2, run.2⟩

/-- The output of a transformation is the source with the stubs before the first declaration in a
list of statements, each of their lines behind the indentation of that declaration, and with the
callee replaced and the first argument left out at each site; every other character is kept in its
place. -/
theorem transform_output {result : Transformed} (h : (transform source).1 = .ok result) :
    ∃ program, parseProgram source = .ok program ∧
      result.table = arities source program ∧
      result.output = Patch.edited (edits source (arities source program) program) 0 source ∧
      result.uncurried = (sites (arities source program) program).length ∧
      result.stubsInjected = (receiver? program).isSome := by
  obtain ⟨program, parsed, rfl⟩ := exists_result h
  exact ⟨program, parsed, rfl, rfl, rfl, rfl⟩

/-- A program with a site inside an argument of another one and a declaration in a block, each line
of which starts with two spaces. -/
def enclosed : Text := Text.joinLines
  [Text.ofString "g();",
   Text.ofString "\x7b",
   Text.ofString "  var f = F2(g);",
   Text.ofString "  A2(f, A2(f, a, b), c);",
   Text.ofString "\x7d"]

/-- What `enclosed` becomes: the lines of the stubs are in the block, behind two spaces each. -/
def enclosedOutput : Text := Text.joinLines
  [Text.ofString "g();",
   Text.ofString "\x7b",
   Text.ofString "  __assumeDataProperty(global, \"requestAnimationFrame\", __abstractOrUndefined(\"function\"));",
   Text.ofString "  __assumeDataProperty(global, \"cancelAnimationFrame\", __abstractOrUndefined(\"function\"));",
   Text.ofString "  __assumeDataProperty(global, \"document\", __abstract(\x7b",
   Text.ofString "      hidden: __abstractOrUndefined(\"boolean\"),",
   Text.ofString "      mozHidden: __abstractOrUndefined(\"boolean\"),",
   Text.ofString "      msHidden: __abstractOrUndefined(\"boolean\"),",
   Text.ofString "      webkitHidden: __abstractOrUndefined(\"boolean\"),",
   Text.ofString "  \x7d));",
   Text.ofString "  var f = F2(g);",
   Text.ofString "  f.f(f.f(a, b), c);",
   Text.ofString "\x7d"]

theorem enclosed_edited : (parseProgram enclosed).toOption.any (fun program =>
    let table := arities enclosed program
    (refusal? (sites table program)).isNone && (sites table program).length = 2 &&
      (receiver? program).isSome &&
      Patch.edited (edits enclosed table program) 0 enclosed = enclosedOutput) = true := by
  decide +kernel

theorem transform_output_enclosed : ∃ program result, parseProgram enclosed = .ok program ∧
    (transform enclosed).1 = .ok result ∧ result.uncurried = 2 ∧ result.stubsInjected = true ∧
    result.output = enclosedOutput ∧
    result.output = Patch.edited (edits enclosed (arities enclosed program) program) 0 enclosed := by
  obtain ⟨program, accepted, run⟩ := (Option.any_eq_true _ _).1 enclosed_edited
  simp only [Bool.and_eq_true, Option.isNone_iff_eq_none, decide_eq_true_eq] at run
  have parsed := eq_ok_of_toOption accepted
  have ok := transform_eq parsed
  rw [run.1.1.1] at ok
  obtain ⟨known, again, _, output, _, injected⟩ := transform_output ok
  obtain rfl : program = known := Except.ok.inj (parsed.symm.trans again)
  exact ⟨program, _, parsed, ok, run.1.1.2, injected.trans run.1.2, run.2, output⟩

end Curry

end Uncurry
