import Uncurry.Proofs.Curry.Binders

/-!
# No edit is ever refused

Whatever the source, only the lexer and the parser make a transformation fail, and the passes meet
declarators and calls with just the children that they take apart.
-/
namespace Uncurry.Curry

open Uncurry.Tree (face)

variable {source : Text} {program : SyntaxTree} {document : Document} {workspace : Workspace}

/-- A declarator of a program has two children, and an initial value that is a call has two as
well. -/
def Unpacks (declarator : DocumentTree) : Prop :=
  ∃ target initial mark, declarator = .node .varDeclarator [target, initial] mark ∧
    (initial.label? = some .call → ∃ callee args whole, initial = .node .call [callee, args] whole)

/-- The declarators of a document without edits unpack. -/
theorem declarators_unpack (parsed : parseProgram source = .ok program) :
    ∀ declarator ∈ declarators (.ofTree source program), Unpacks declarator := by
  have prepared := prepared_ofTree parsed
  intro declarator member
  obtain ⟨inside, labelled⟩ := declarators_nodes parsed member
  obtain ⟨node, labelled'⟩ := map_declarator parsed member
  have two := parsed_declarator parsed node labelled'
  obtain ⟨children, mark, rfl⟩ : ∃ children mark, declarator = .node .varDeclarator children mark := by
    cases declarator with
    | missing => cases labelled
    | leaf => cases labelled
    | node label children mark => exact ⟨children, mark, by rw [Option.some.inj labelled]⟩
  have part := (List.mem_filter.1 (Tree.nodes_eq_parts _ ▸ inside)).1
  simp only [Tree.map, Tree.children, Tree.mapAll_eq, List.length_map] at two
  obtain ⟨target, initial, rfl⟩ := List.length_eq_two.1 two
  refine ⟨target, initial, mark, rfl, fun call => ?_⟩
  obtain ⟨mark, marked⟩ : ∃ mark, initial.info? = some mark := by
    cases initial with
    | missing => cases call
    | leaf => cases call
    | node label children mark => exact ⟨mark, rfl⟩
  have below : initial ∈ (Document.ofTree source program).tree.parts :=
    Tree.parts_subset _ part (by simp [Tree.self_mem_parts marked])
  obtain ⟨callee, values, list, whole, rfl, _⟩ := prepared.shaped initial below call
  exact ⟨callee, _, whole, rfl⟩

/-- Every call that the last pass comes to has a callee and an argument list then. -/
theorem Prepared.meets_call (h : Prepared program workspace.document)
    (disjoint : (workspace.document.patches ++
      (sites workspace.table program).flatMap Site.patches).Pairwise
        fun a b => a.range.overlaps b.range = false)
    {before after : List NodePath} {path : NodePath}
    (paths : workspace.document.find [.call] = before ++ path :: after) {count : Nat}
    {between : Workspace} (run : (Pass.count uncurryCall before).run workspace = (.ok count, between)) :
    ∃ callee values list whole, between.document.node path.node.mark.id =
      .node .call [callee, .node .args values list] whole := by
  obtain ⟨calls, at_calls, ready, apart, present, found⟩ := h.exists_calls
  rw [paths, List.map_append, List.map_cons] at at_calls
  obtain ⟨first, rest, rfl, at_first, at_rest⟩ := List.map_eq_append_iff.1 at_calls.symm
  obtain ⟨call, later, rfl, at_call, _⟩ := List.map_eq_cons_iff.1 at_rest
  have all := found workspace.table
  rw [List.filterMap_append] at all
  have member (site : Site Mark)
      (inside : site ∈ first.filterMap fun call => site? workspace.table call.tree) :
      site ∈ sites workspace.table workspace.document.tree := all ▸ List.mem_append_left _ inside
  have disjoint' : (workspace.document.patches ++
      (first.filterMap fun call => site? workspace.table call.tree).flatMap
        fun site => (site.map Mark.span).patches).Pairwise
          fun a b => a.range.overlaps b.range = false := by
    rw [← h.sites_eq, ← all, List.flatMap_map, List.flatMap_append, ← List.append_assoc] at disjoint
    exact disjoint.sublist (List.sublist_append_left _ _)
  rw [List.pairwise_append] at apart
  have passed := run_count at_first.symm (fun call inside => ready call (by simp [inside])) apart.1
    (fun call inside => present call (by simp [inside])) rfl
    (fun site inside => h.original _ site (member site inside)) disjoint'
  have here : Ready between.document call := by
    cases refused : refusal? (first.filterMap fun call => site? workspace.table call.tree) with
    | some failure =>
      rw [refused] at passed
      obtain ⟨_, failed⟩ := passed
      cases run.symm.trans failed
    | none =>
      rw [refused] at passed
      obtain ⟨document, ran, _, _, _, kept⟩ := passed
      obtain rfl := (Prod.mk.inj (run.symm.trans ran)).2
      exact kept call (ready call (by simp)) fun other inside =>
        apart.2.2 other inside call List.mem_cons_self
  obtain ⟨callee, values, _, looked, _⟩ := here.found
  rw [← at_call]
  exact ⟨callee, values, call.list, call.whole, congrArg (·.getD .missing) looked⟩

/-- No edit is ever refused: a transformation fails in the lexer or in the parser alone. What the
passes take apart has the children that they take: two of every declarator and of every call, when
they come to it. -/
theorem transform_safe (source : Text) :
    (∀ error, (transform source).1 ≠ .error (.edit error)) ∧
    ∀ program, parseProgram source = .ok program →
      (∀ table, (edits source table program).Pairwise
        fun a b => a.range.overlaps b.range = false) ∧
      (∀ declarator ∈ declarators (.ofTree source program), Unpacks declarator) ∧
      ∃ injected start,
        firstPasses.run (.ofDocument (.ofTree source program)) = (.ok injected, start) ∧
        ∀ before path after, start.document.find [.call] = before ++ path :: after →
          ∀ count between, (Pass.count uncurryCall before).run start = (.ok count, between) →
            ∃ callee values list whole, between.document.node path.node.mark.id =
              .node .call [callee, .node .args values list] whole := by
  refine ⟨fun error failed => ?_, fun program parsed => ⟨edits_apart parsed,
    declarators_unpack parsed, ?_⟩⟩
  · cases parsed : parseProgram source with
    | error failure =>
      rw [transform, Document.parse, parsed] at failed
      cases failed
    | ok program =>
      rw [transform_eq parsed] at failed
      split at failed <;> cases failed
  · obtain ⟨start, run, prepared, _, patches, _⟩ := exists_start parsed
    refine ⟨_, start, run, fun before path after paths count between ran => ?_⟩
    exact prepared.meets_call (patches ▸ edits_apart parsed start.table) paths ran

theorem transform_safe_nested : ∃ program, parseProgram nested = .ok program ∧
    (∀ declarator ∈ declarators (.ofTree nested program), Unpacks declarator) ∧
    (edits nested (arities nested program) program).Pairwise
      fun a b => a.range.overlaps b.range = false := by
  obtain ⟨program, _, parsed, _⟩ := exists_nested
  obtain ⟨apart, unpack, _⟩ := (transform_safe nested).2 program parsed
  exact ⟨program, parsed, unpack, apart _⟩

end Uncurry.Curry
