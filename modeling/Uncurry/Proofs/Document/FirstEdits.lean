import Uncurry.Proofs.Document.Editing
import Uncurry.Proofs.Document.Removals

/-!
# The first edit of a document

Nothing is in the way of the first edit. Every argument of a call can be removed, and every snippet
that is a program can be inserted before a child of a list of statements. The source with the edit
need not be read as the tree with the edit, though: a comma may be left without an argument before
it, and the expression that a case is about counts as one of its statements.
-/
namespace Uncurry.Document

variable {source snippet : Text} {document : Document} {path : NodePath} {tree program : SyntaxTree}
  {above : NodeRef}

/-- Every argument of a call of a document without edits can be removed. The source loses the range
that goes with the argument, and the tree the argument. -/
theorem removeArgument_first (read : Document.parse source = .ok document)
    (found : path ∈ document.find [.call]) : ∃ callee arguments list whole spans,
    document.node path.node.mark.id = .node .call [callee, .node .args arguments list] whole ∧
    Listing arguments spans ∧ ∀ index < arguments.length,
      let range := rangeWith spans (List.range arguments.length) index
      ∃ edited, document.removeArgument ⟨path.node.mark.id, []⟩ index = .ok edited ∧
        edited.toSource = .ok (source.take range.start ++ source.drop range.stop) ∧
        edited.tree = document.tree.modifyChildren list.id (·.eraseIdx index) := by
  have reached := Reached.parsed read
  obtain ⟨callee, arguments, list, whole, spans, known, same, inside, listing⟩ :=
    exists_arguments read (reached.numbered.label_of_find found)
  refine ⟨callee, arguments, list, whole, spans, known, listing, fun index bound => ?_⟩
  have ranged := listing.argumentRange_eq (fun p => List.mem_range.1)
    (by rwa [List.length_range] : index < (List.range arguments.length).length)
  rw [pick_range] at ranged
  have fresh : document.patches = [] := by
    obtain ⟨tree, _, rfl⟩ := exists_ofTree read
    rfl
  have called : document.treeAt ⟨path.node.mark.id, []⟩ = _ := known
  have free : document.Free (rangeWith spans (List.range arguments.length) index) := by
    rw [Free, fresh]
    exact List.forall_mem_nil _
  have removed := removeArgument_eq called bound ranged free
  refine ⟨_, removed, ?_, rfl⟩
  obtain ⟨ranged, within⟩ := (reached.removeArgument removed).sound.compatible.within
    ⟨rangeWith spans (List.range arguments.length) index, []⟩
    (List.mem_append_right _ List.mem_cons_self)
  have source_eq := reached.sound.source_eq
  change Patch.apply document.source (document.patches ++ [_]) = _
  rw [fresh, source_eq, List.nil_append, Patch.apply_single ranged within]
  rfl

theorem removeArgument_first_threefold : ∃ document path callee arguments list whole spans,
    Document.parse threefold = .ok document ∧ path ∈ document.find [.call] ∧
    document.node path.node.mark.id = .node .call [callee, .node .args arguments list] whole ∧
    Listing arguments spans ∧ ∀ index < arguments.length,
      ∃ edited, document.removeArgument ⟨path.node.mark.id, []⟩ index = .ok edited := by
  have made : (Document.parse threefold).toOption.any (fun document =>
      (document.find [.call]).head?.isSome) = true := by
    decide +kernel
  obtain ⟨document, read, some⟩ := (Option.any_eq_true _ _).1 made
  obtain ⟨path, found⟩ := Option.isSome_iff_exists.1 some
  have read := eq_ok_of_toOption read
  have found := List.mem_of_head? found
  obtain ⟨callee, arguments, list, whole, spans, known, listing, removes⟩ :=
    removeArgument_first read found
  refine ⟨document, path, callee, arguments, list, whole, spans, read, found, known, listing,
    fun index bound => ?_⟩
  obtain ⟨edited, removed, _⟩ := removes index bound
  exact ⟨edited, removed⟩

/-- A call with a comma behind its only argument. -/
def trailing : Text := Text.ofString "f(a,);"

/-- With the only argument the comma behind it does not go, and the source is no program then. -/
theorem removeArgument_trailing : ∃ document path edited failure,
    Document.parse trailing = .ok document ∧ path ∈ document.find [.call] ∧
    document.removeArgument ⟨path.node.mark.id, []⟩ 0 = .ok edited ∧
    edited.toSource = .ok (Text.ofString "f(,);") ∧
    parseProgram (Text.ofString "f(,);") = .error failure := by
  have made : (Document.parse trailing).toOption.any (fun document =>
      (document.find [.call]).head?.any fun path =>
        (document.removeArgument ⟨path.node.mark.id, []⟩ 0).toOption.any fun edited =>
          decide (edited.toSource.toOption = some (Text.ofString "f(,);"))) = true := by
    decide +kernel
  have fails : (parseProgram (Text.ofString "f(,);")).toOption.isNone = true := by decide +kernel
  obtain ⟨document, read, made⟩ := (Option.any_eq_true _ _).1 made
  obtain ⟨path, found, made⟩ := (Option.any_eq_true _ _).1 made
  obtain ⟨edited, removed, made⟩ := (Option.any_eq_true _ _).1 made
  obtain ⟨failure, refused⟩ := exists_error fails
  exact ⟨document, path, edited, failure, eq_ok_of_toOption read, List.mem_of_head? found,
    eq_ok_of_toOption removed, eq_ok_of_toOption (of_decide_eq_true made), refused⟩

/-- The patch that puts a snippet before a statement that starts at an offset. -/
def insertionPatch (source snippet : Text) (start : Nat) : Patch :=
  let indentation := indentationAt source start
  ⟨⟨start, start⟩, indented indentation snippet ++ CodePoint.ofChar '\n' :: indentation⟩

/-- What the insertion of a snippet into a document without edits comes to. -/
theorem insertBefore_found (found : path ∈ (ofTree source tree).paths)
    (parent : path.parent = some above) (listed : above.label.isStatementList = true)
    (parses : parseProgram snippet = .ok program) : ∃ children insertion,
    .node above.label children above.mark ∈ (ofTree source tree).tree.parts ∧
    (ofTree source tree).insertBefore path snippet = .ok insertion ∧
    insertion.document = (ofTree source tree).inserted above.mark.id
      (children.findIdx (·.hasId path.node.mark.id)) program.children
      (insertionPatch source snippet path.node.mark.span.start.offset) := by
  rcases Tree.holds_of_pathsFrom _ found with
    ⟨none, _⟩ | ⟨above', parent', children, child, inside, below, same⟩
  · rw [none] at parent
    cases parent
  obtain rfl : above = above' := Option.some.inj (parent.symm.trans parent')
  obtain ⟨grandchildren, rfl⟩ := Tree.eq_node_of_ref? same
  have numbered := numbered_ofTree source tree
  have inside' : .node above.label children above.mark ∈ (ofTree source tree).tree.parts := by
    simpa using inside
  have child_inside := Tree.parts_subset _ inside' (List.mem_cons_of_mem _
    (Tree.parts_subset_among children (Tree.mem_partsAmong below rfl) List.mem_cons_self))
  have child_at := numbered.node_eq (List.mem_append_left _ child_inside) rfl
  have above_at := numbered.node_eq (List.mem_append_left _ inside') rfl
  have parent' : path.parent.filter (·.label.isStatementList) = some above := by
    rw [parent]
    simp [listed]
  have index : children.findIdx? (·.hasId path.node.mark.id) =
      some (children.findIdx (·.hasId path.node.mark.id)) :=
    List.findIdx?_eq_some_of_exists ⟨_, below, Tree.hasId_iff.2 rfl⟩
  have original : path.node.mark.inserted = false :=
    Option.some.inj (Tree.number_inserted false 0 tree _ child_inside)
  have ranged : editable (.node path.node.label grandchildren path.node.mark) =
      .ok ⟨path.node.mark.span.start.offset, path.node.mark.span.stop.offset⟩ := by
    change (if path.node.mark.inserted = true then _ else _) = _
    rw [original]
    rfl
  have child_at : (ofTree source tree).node path.node.mark.id = _ := child_at
  have above_at : (ofTree source tree).node above.mark.id = _ := above_at
  have added (range : Range) (text : Text) : (ofTree source tree).addPatch range text = .ok
      { ofTree source tree with patches := [⟨range, text⟩] } := rfl
  have made : ∃ insertion, (ofTree source tree).insertBefore path snippet = .ok insertion ∧
      insertion.document = (ofTree source tree).inserted above.mark.id
        (children.findIdx (·.hasId path.node.mark.id)) program.children
        (insertionPatch source snippet path.node.mark.span.start.offset) := by
    rw [insertBefore]
    simp only [parent', child_at, ranged, above_at, Tree.children, index, parses, added,
      Except.mapError, bind, Except.bind, pure, Except.pure]
    exact ⟨_, rfl, rfl⟩
  obtain ⟨insertion, made⟩ := made
  exact ⟨children, insertion, inside', made⟩

/-- A snippet that is a program can be inserted before every child of a list of statements in a
document without edits. The source gets the snippet with the indentation of the child, and the tree
its statements. -/
theorem insertBefore_first (read : Document.parse source = .ok document)
    (found : path ∈ document.paths) (parent : path.parent = some above)
    (listed : above.label.isStatementList = true) (parses : parseProgram snippet = .ok program) :
    ∃ children insertion, .node above.label children above.mark ∈ document.tree.parts ∧
      document.insertBefore path snippet = .ok insertion ∧
      let start := path.node.mark.span.start.offset
      let index := children.findIdx (·.hasId path.node.mark.id)
      insertion.document.toSource = .ok (source.take start ++
        ((insertionPatch source snippet start).text ++ source.drop start)) ∧
      ∃ statements, statements.map (Tree.map Mark.span) = program.children ∧
        insertion.document.tree = document.tree.modifyChildren above.mark.id fun children =>
          children.take index ++ statements ++ children.drop index := by
  have reached := Reached.parsed read
  obtain ⟨tree, accepted, rfl⟩ := exists_ofTree read
  obtain ⟨children, insertion, inside, inserted, after⟩ :=
    insertBefore_found found parent listed parses
  have later := reached.attempted (.insertBefore path snippet) fun path' is => by
    obtain rfl := Option.some.inj is
    exact knows_of_mem_paths found
  rw [attempt, edit, inserted] at later
  change Reached source insertion.document at later
  rw [after] at later
  obtain ⟨ranged, within⟩ := later.sound.compatible.within _
    (List.mem_append_right _ List.mem_cons_self)
  refine ⟨children, insertion, inside, inserted, ?_, _, ?_, congrArg Document.tree after⟩
  · rw [after]
    exact Patch.apply_single ranged within
  · rw [← Tree.mapAll_eq, Tree.mapAll_numberAll]

/-- Two statements, the second one behind some blanks. -/
def indentedCall : Text := Text.ofString "a;\n  f(b);"

theorem insertBefore_first_indentedCall : ∃ document path insertion,
    Document.parse indentedCall = .ok document ∧ path ∈ document.paths ∧
    document.insertBefore path (Text.ofString "x();\ny();") = .ok insertion ∧
    insertion.document.toSource = .ok (Text.ofString "a;\n  x();\n  y();\n  f(b);") := by
  have made : (Document.parse indentedCall).toOption.any (fun document =>
      (document.find [.exprStmt]).getLast?.any fun path => path.parent.any fun above =>
        above.label.isStatementList &&
        decide (path.node.mark.span.start.offset = 5)) = true := by
    decide +kernel
  have parses : (parseProgram (Text.ofString "x();\ny();")).toOption.isSome = true := by
    decide +kernel
  obtain ⟨document, read, made⟩ := (Option.any_eq_true _ _).1 made
  obtain ⟨path, found, made⟩ := (Option.any_eq_true _ _).1 made
  obtain ⟨above, parent, made⟩ := (Option.any_eq_true _ _).1 made
  obtain ⟨program, accepted⟩ := Option.isSome_iff_exists.1 parses
  obtain ⟨listed, start⟩ := Bool.and_eq_true_iff.1 made
  have found : path ∈ document.paths := (List.mem_filter.1 (List.mem_of_getLast? found)).1
  obtain ⟨_, insertion, _, inserted, source, _⟩ := insertBefore_first (eq_ok_of_toOption read) found
    parent listed (eq_ok_of_toOption accepted)
  refine ⟨document, path, insertion, eq_ok_of_toOption read, found, inserted, source.trans ?_⟩
  rw [of_decide_eq_true start]
  exact congrArg Except.ok (by decide +kernel)

/-- The expression that a case of a switch is about. -/
def switching : Text := Text.ofString "switch (a) \x7b case f(b): c; \x7d"

/-- A statement is inserted before the expression that a case is about, which is a child of a list of
statements but none of them. The source is no program then. -/
theorem insertBefore_case : ∃ document path insertion program failure,
    Document.parse switching = .ok document ∧ path ∈ document.paths ∧
    parseProgram (Text.ofString "x();") = .ok program ∧
    document.insertBefore path (Text.ofString "x();") = .ok insertion ∧
    insertion.document.toSource =
      .ok (Text.ofString "switch (a) \x7b case x();\nf(b): c; \x7d") ∧
    parseProgram (Text.ofString "switch (a) \x7b case x();\nf(b): c; \x7d") = .error failure := by
  have made : (Document.parse switching).toOption.any (fun document =>
      (document.find [.call]).head?.any fun path =>
        (document.insertBefore path (Text.ofString "x();")).toOption.any fun insertion =>
          decide (insertion.document.toSource.toOption =
            some (Text.ofString "switch (a) \x7b case x();\nf(b): c; \x7d"))) = true := by
    decide +kernel
  have parses : (parseProgram (Text.ofString "x();")).toOption.isSome = true := by decide +kernel
  have fails : (parseProgram
      (Text.ofString "switch (a) \x7b case x();\nf(b): c; \x7d")).toOption.isNone = true := by
    decide +kernel
  obtain ⟨document, read, made⟩ := (Option.any_eq_true _ _).1 made
  obtain ⟨path, found, made⟩ := (Option.any_eq_true _ _).1 made
  obtain ⟨insertion, inserted, made⟩ := (Option.any_eq_true _ _).1 made
  obtain ⟨program, accepted⟩ := Option.isSome_iff_exists.1 parses
  have listed : path ∈ document.paths := (List.mem_filter.1 (List.mem_of_head? found)).1
  obtain ⟨failure, refused⟩ := exists_error fails
  exact ⟨document, path, insertion, program, failure, eq_ok_of_toOption read, listed,
    eq_ok_of_toOption accepted, eq_ok_of_toOption inserted,
    eq_ok_of_toOption (of_decide_eq_true made), refused⟩

end Uncurry.Document
