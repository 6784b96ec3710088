import Uncurry.Proofs.Document.Numbering

/-!
# Edit after edit

A document is reached from a parsed source by trying edits, of which any may fail. `Step` says once
what an edit does that succeeds; what all documents have in common that are reached follows from it
by induction.
-/
namespace Uncurry

/-- An edit of a document, with all that it is told. -/
inductive Edit
  | replaceCallee (place : Place) (callee : Text)
  | removeArgument (place : Place) (index : Int)
  | insertBefore (path : NodePath) (snippet : Text)

/-- The path that an edit is given. -/
def Edit.path? : Edit → Option NodePath
  | insertBefore path _ => some path
  | _ => none

theorem Except.bind_eq_ok {ε α β : Type} {result : Except ε α} {next : α → Except ε β} {b : β}
    (h : (result >>= next) = .ok b) : ∃ a, result = .ok a ∧ next a = .ok b := by
  cases result with
  | error failure => cases h
  | ok a => exact ⟨a, rfl, h⟩

theorem Except.mapError_eq_ok {ε ε' α : Type} {result : Except ε α} {f : ε → ε'} {a : α}
    (h : result.mapError f = .ok a) : result = .ok a := by
  cases result with
  | error failure => cases h
  | ok b => exact congrArg Except.ok (Except.ok.inj h)

namespace Document

/-- The result of an edit. -/
def edit (document : Document) : Edit → Except Failure Document
  | .replaceCallee place callee => document.replaceCallee place callee
  | .removeArgument place index => (document.removeArgument place index).mapError .edit
  | .insertBefore path snippet => (document.insertBefore path snippet).map (·.document)

/-- The document after an edit was tried. An edit that fails changes nothing. -/
def attempt (document : Document) (edit : Edit) : Document :=
  (document.edit edit).toOption.getD document

/-- The nodes of a path are nodes of the document, cut out or not, as are those of all paths that
were found in it at any time. -/
def Knows (document : Document) (path : NodePath) : Prop :=
  ∀ ref ∈ path.node :: path.parent.toList,
    ∃ part ∈ Tree.partsAmong document.forest, part.ref? = some ref

/-- The documents that come from a source by edits, successful or not, in any order. -/
inductive Reached (source : Text) : Document → Prop
  | parsed {document : Document} : Document.parse source = .ok document → Reached source document
  | attempted {document : Document} (edit : Edit) : Reached source document →
      (∀ path ∈ edit.path?, document.Knows path) → Reached source (document.attempt edit)

/-- A patch of a range that overlaps no recorded one. -/
def Free (document : Document) (range : Range) : Prop :=
  ∀ patch ∈ document.patches, patch.range.overlaps range = false

/-- What an edit does that succeeds. -/
inductive Step (document : Document) : Document → Prop
  | callee {old : DocumentTree} {rest : List DocumentTree} {whole : Mark} {range : Range}
      {callee : Text} {parsed : SyntaxTree} :
      .node .call (old :: rest) whole ∈ Tree.partsAmong document.forest →
      editable old = .ok range → parseFragment callee = .ok parsed → document.Free range →
      Step document (document.changed whole.id (·.set 0 (parsed.number true document.nextId).1) old
        ⟨range, callee⟩ (parsed.number true document.nextId).2)
  | argument {callee : DocumentTree} {values rest : List DocumentTree} {label : Label}
      {list whole : Mark} {index : Nat} {range : Range} :
      .node .call (callee :: .node label values list :: rest) whole ∈
        Tree.partsAmong document.forest →
      index < values.length → argumentRange values index = .ok range → document.Free range →
      Step document (document.changed list.id (·.eraseIdx index) (values.getD index .missing)
        ⟨range, []⟩ document.nextId)
  | statements {statement : DocumentTree} {children : List DocumentTree} {label : Label}
      {parent : Mark} {id : NodeId} {index : Nat} {range : Range} {snippet text : Text}
      {parsed : SyntaxTree} :
      label.isStatementList = true →
      .node label children parent ∈ Tree.partsAmong document.forest →
      children.findIdx? (·.hasId id) = some index → statement.id? = some id →
      statement ∈ Tree.partsAmong document.forest → editable statement = .ok range →
      parseProgram snippet = .ok parsed → document.Free ⟨range.start, range.start⟩ →
      Step document (document.inserted parent.id index parsed.children
        ⟨⟨range.start, range.start⟩, text⟩)

variable {source : Text} {document after : Document} {tree part : DocumentTree}
  {trees : List DocumentTree} {id : NodeId} {mark : Mark} {place : Place} {range : Range}

/-- A child of a part is a part, unless it is missing. -/
theorem mem_of_child (index : Nat) (inside : tree ∈ Tree.partsAmong trees ∨ tree = .missing) :
    tree.child index ∈ Tree.partsAmong trees ∨ tree.child index = .missing := by
  by_cases missing : tree.child index = .missing
  · exact .inr missing
  · left
    have member : tree.child index ∈ tree.children := by
      unfold Tree.child at missing ⊢
      rw [List.getD_eq_getElem?_getD] at missing ⊢
      cases at_index : tree.children[index]? with
      | none => simp [at_index] at missing
      | some child => exact List.mem_of_getElem? at_index
    cases tree with
    | missing => cases member
    | leaf => cases member
    | node label children mark =>
      have above := inside.resolve_right (by simp)
      apply Tree.parts_subset_among trees above
      rw [Tree.parts_node]
      apply List.mem_cons_of_mem
      cases known : (Tree.node label children mark).child index with
      | missing => exact absurd known missing
      | leaf => exact Tree.mem_partsAmong (known ▸ member) rfl
      | node => exact Tree.mem_partsAmong (known ▸ member) rfl

/-- What is reached from a part is a part, unless it is missing. -/
theorem mem_of_descend (path : List Nat) (inside : tree ∈ Tree.partsAmong trees ∨ tree = .missing) :
    tree.descend path ∈ Tree.partsAmong trees ∨ tree.descend path = .missing := by
  induction path generalizing tree with
  | nil => exact inside
  | cons index path ih => exact ih (mem_of_child index inside)

/-- A node that stands in a place is a part. -/
theorem mem_of_treeAt {label : Label} {children : List DocumentTree}
    (found : document.treeAt place = .node label children mark) :
    .node label children mark ∈ Tree.partsAmong document.forest := by
  have start : document.node place.node ∈ Tree.partsAmong document.forest ∨
      document.node place.node = .missing := by
    unfold node
    cases looked : Tree.withIdAmong? place.node (document.tree :: document.cut) with
    | none => exact .inr rfl
    | some part => exact .inl (lookup_eq_some looked).1
  have inside := mem_of_descend place.path start
  rw [treeAt] at found
  rw [found] at inside
  exact inside.resolve_right (by simp)

theorem add_free {range : Range} {text : Text}
    (added : document.addPatch range text = .ok after) :
    document.Free range ∧
      after = { document with patches := document.patches ++ [⟨range, text⟩] } := by
  obtain ⟨patches, recorded, same⟩ := Except.bind_eq_ok added
  unfold Patch.add at recorded
  cases found : document.patches.find? (fun existing => existing.range.overlaps range) with
  | some existing =>
    simp only [found] at recorded
    cases recorded
  | none =>
    simp only [found] at recorded
    obtain rfl := Except.ok.inj recorded
    obtain rfl := Except.ok.inj same
    exact ⟨fun patch member => by simpa using List.find?_eq_none.1 found patch member, rfl⟩

/-- What the replacement of a callee does where it succeeds. -/
theorem replaceCallee_eq_ok {callee : Text}
    (made : document.replaceCallee place callee = .ok after) : ∃ old rest whole range parsed,
    document.treeAt place = .node .call (old :: rest) whole ∧ editable old = .ok range ∧
    parseFragment callee = .ok parsed ∧ document.Free range ∧
    after = document.changed whole.id (·.set 0 (parsed.number true document.nextId).1) old
      ⟨range, callee⟩ (parsed.number true document.nextId).2 := by
  unfold replaceCallee at made
  split at made
  · rename_i old rest whole found
    obtain ⟨range, ranged, made⟩ := Except.bind_eq_ok made
    obtain ⟨parsed, parses, made⟩ := Except.bind_eq_ok made
    obtain ⟨between, added, made⟩ := Except.bind_eq_ok made
    obtain ⟨free, rfl⟩ := add_free (Except.mapError_eq_ok added)
    obtain rfl := Except.ok.inj made
    exact ⟨old, rest, whole, range, parsed, found, Except.mapError_eq_ok ranged,
      Except.mapError_eq_ok parses, free, rfl⟩
  · cases made

/-- What the removal of an argument does where it succeeds. -/
theorem removeArgument_eq_ok {index : Int}
    (made : document.removeArgument place index = .ok after) : ∃ callee label values list rest whole
    range, document.treeAt place = .node .call (callee :: .node label values list :: rest) whole ∧
    index.toNat < values.length ∧ argumentRange values index.toNat = .ok range ∧
    document.Free range ∧
    after = document.changed list.id (·.eraseIdx index.toNat) (values.getD index.toNat .missing)
      ⟨range, []⟩ document.nextId := by
  unfold removeArgument at made
  split at made
  · rename_i callee label values list rest whole found
    split at made
    · cases made
    · rename_i bounds
      obtain ⟨range, ranged, made⟩ := Except.bind_eq_ok made
      obtain ⟨between, added, made⟩ := Except.bind_eq_ok made
      obtain ⟨free, rfl⟩ := add_free added
      obtain rfl := Except.ok.inj made
      exact ⟨callee, label, values, list, rest, whole, range, found, by omega, ranged, free, rfl⟩
  · cases made

theorem step_of_replaceCallee {callee : Text}
    (made : document.replaceCallee place callee = .ok after) : Step document after := by
  obtain ⟨old, rest, whole, range, parsed, found, ranged, parses, free, rfl⟩ :=
    replaceCallee_eq_ok made
  exact .callee (mem_of_treeAt found) ranged parses free

theorem step_of_removeArgument {index : Int}
    (made : document.removeArgument place index = .ok after) : Step document after := by
  obtain ⟨callee, label, values, list, rest, whole, range, found, bound, ranged, free, rfl⟩ :=
    removeArgument_eq_ok made
  exact .argument (mem_of_treeAt found) bound ranged free

/-- What has a range is a part. -/
theorem mem_of_editable (ranged : editable (document.node id) = .ok range) :
    document.node id ∈ Tree.partsAmong document.forest ∧ (document.node id).id? = some id := by
  cases known : (document.node id).info? with
  | none =>
    rw [editable, known] at ranged
    cases ranged
  | some mark => exact mem_of_node known

/-- What the insertion of statements does where it succeeds. -/
theorem insertBefore_eq_ok {path : NodePath} {snippet : Text} {insertion : Insertion}
    (numbered : Numbered document) (known : document.Knows path)
    (made : document.insertBefore path snippet = .ok insertion) : ∃ label children parent index
    range text parsed, label.isStatementList = true ∧
    .node label children parent ∈ Tree.partsAmong document.forest ∧
    children.findIdx? (·.hasId path.node.mark.id) = some index ∧
    editable (document.node path.node.mark.id) = .ok range ∧ parseProgram snippet = .ok parsed ∧
    document.Free ⟨range.start, range.start⟩ ∧
    insertion.document = document.inserted parent.id index parsed.children
      ⟨⟨range.start, range.start⟩, text⟩ ∧
    insertion.statements = (Tree.numberAll true document.nextId parsed.children).1 := by
  unfold insertBefore at made
  split at made
  · rename_i parent filtered
    obtain ⟨above, listed⟩ := Option.filter_eq_some_iff.1 filtered
    obtain ⟨part, inside_above, same_above⟩ := known parent (by simp [above])
    obtain ⟨children, rfl⟩ := Tree.eq_node_of_ref? same_above
    have parent_at := numbered.node_eq inside_above rfl
    obtain ⟨range, ranged, made⟩ := Except.bind_eq_ok made
    rw [parent_at] at made
    dsimp only [Tree.children] at made
    split at made
    · rename_i index place
      obtain ⟨parsed, parses, made⟩ := Except.bind_eq_ok made
      obtain ⟨between, added, made⟩ := Except.bind_eq_ok made
      obtain ⟨free, rfl⟩ := add_free (Except.mapError_eq_ok added)
      obtain rfl := Except.ok.inj made
      exact ⟨parent.label, children, parent.mark, index, range, _, parsed, listed, inside_above,
        place, Except.mapError_eq_ok ranged, Except.mapError_eq_ok parses, free, rfl, rfl⟩
    · cases made
  · cases made

theorem step_of_insertBefore {path : NodePath} {snippet : Text} {insertion : Insertion}
    (numbered : Numbered document) (known : document.Knows path)
    (made : document.insertBefore path snippet = .ok insertion) :
    Step document insertion.document := by
  obtain ⟨label, children, parent, index, range, text, parsed, listed, above, place, ranged, parses,
    free, done, _⟩ := insertBefore_eq_ok numbered known made
  obtain ⟨inside, same⟩ := mem_of_editable ranged
  rw [done]
  exact .statements listed above place same inside ranged parses free

/-- An edit does a step or changes nothing. -/
theorem step_or_eq (numbered : Numbered document) (edit : Edit)
    (known : ∀ path ∈ edit.path?, document.Knows path) :
    Step document (document.attempt edit) ∨ document.attempt edit = document := by
  unfold attempt
  cases made : document.edit edit with
  | error failure => exact .inr rfl
  | ok after =>
    left
    cases edit with
    | replaceCallee place callee => exact step_of_replaceCallee made
    | removeArgument place index => exact step_of_removeArgument (Except.mapError_eq_ok made)
    | insertBefore path snippet =>
      rw [Document.edit] at made
      cases inserted : document.insertBefore path snippet with
      | error failure =>
        rw [inserted] at made
        cases made
      | ok insertion =>
        rw [inserted] at made
        obtain rfl := Except.ok.inj made
        exact step_of_insertBefore numbered (known path rfl) inserted

theorem exists_ofTree (read : Document.parse source = .ok document) :
    ∃ tree, parseProgram source = .ok tree ∧ document = Document.ofTree source tree := by
  rw [Document.parse] at read
  cases accepted : parseProgram source with
  | error failure =>
    rw [accepted] at read
    cases read
  | ok tree =>
    rw [accepted] at read
    exact ⟨tree, rfl, (Except.ok.inj read).symm⟩

/-- Every step changes the children of one node. -/
theorem Step.frame (numbered : Numbered document) (made : Step document after) :
    ∃ target change, Frame target change document after := by
  cases made with
  | @callee old rest whole range callee parsed inside _ _ _ =>
    exact ⟨_, _, numbered.frame_set inside parsed _⟩
  | @argument callee values rest label list whole index range inside bound _ _ =>
    have below : Tree.node label values list ∈ Tree.partsAmong document.forest :=
      Tree.parts_subset_among _ inside (by simp)
    exact ⟨_, _, numbered.frame_eraseIdx below bound _⟩
  | @statements statement children label parent id index range snippet text parsed _ inside =>
    exact ⟨_, _, numbered.frame_insert inside index parsed.children _⟩

/-- The numbers of every document that is reached are apart. -/
theorem Reached.numbered (reached : Reached source document) : Numbered document := by
  induction reached with
  | parsed read =>
    obtain ⟨tree, _, rfl⟩ := exists_ofTree read
    exact numbered_ofTree source tree
  | attempted edit _ known ih =>
    rcases step_or_eq ih edit known with made | same
    · obtain ⟨_, _, frame⟩ := made.frame ih
      exact frame.numbered
    · rwa [same]

theorem Reached.replaceCallee {callee : Text} (reached : Reached source document)
    (made : document.replaceCallee place callee = .ok after) : Reached source after := by
  have attempted := reached.attempted (.replaceCallee place callee) fun _ given => by cases given
  rwa [attempt, edit, made] at attempted

theorem Reached.removeArgument {index : Int} (reached : Reached source document)
    (made : document.removeArgument place index = .ok after) : Reached source after := by
  have attempted := reached.attempted (.removeArgument place index) fun _ given => by cases given
  rwa [attempt, edit, made] at attempted

/-- What holds of documents without edits and is kept by each step holds of all that are reached. -/
theorem Reached.induction {Holds : Document → Prop}
    (parsed : ∀ tree, parseProgram source = .ok tree → Holds (Document.ofTree source tree))
    (step : ∀ document after, Numbered document → Holds document → Step document after →
      Holds after)
    (reached : Reached source document) : Holds document := by
  induction reached with
  | parsed read =>
    obtain ⟨tree, accepted, rfl⟩ := exists_ofTree read
    exact parsed tree accepted
  | attempted edit reached known ih =>
    rcases step_or_eq reached.numbered edit known with made | same
    · exact step _ _ reached.numbered ih made
    · rwa [same]

/-- A path that is found in a document is known in it. -/
theorem knows_of_mem_paths {path : NodePath} (found : path ∈ document.paths) :
    document.Knows path := by
  have inside : document.tree.parts ⊆ Tree.partsAmong document.forest :=
    List.subset_append_left _ _
  have below (ref : NodeRef) (within : ∃ part ∈ Tree.partsAmong [document.tree],
      part.ref? = some ref) : ∃ part ∈ Tree.partsAmong document.forest, part.ref? = some ref := by
    obtain ⟨part, member, same⟩ := within
    rw [Tree.partsAmong_cons, Tree.partsAmong_nil, List.append_nil] at member
    exact ⟨part, inside member, same⟩
  have self {tree : DocumentTree} {trees : List DocumentTree} {ref : NodeRef}
      (member : tree ∈ trees) (same : tree.ref? = some ref) :
      ∃ part ∈ Tree.partsAmong trees, part.ref? = some ref := by
    obtain ⟨children, rfl⟩ := Tree.eq_node_of_ref? same
    exact ⟨_, Tree.mem_partsAmong member rfl, same⟩
  rcases Tree.holds_of_pathsFrom document.tree found with
    ⟨parent, same⟩ | ⟨above, parent, children, child, holds, member, same⟩
  · intro ref is
    rw [parent] at is
    obtain rfl := List.mem_singleton.1 is
    exact below _ (self List.mem_cons_self same)
  · intro ref is
    rw [parent] at is
    apply below
    rcases List.mem_cons.1 is with rfl | is
    · obtain ⟨part, deeper, is⟩ := self member same
      exact ⟨part, Tree.parts_subset_among _ holds (List.mem_cons_of_mem _ deeper), is⟩
    · obtain rfl := List.mem_singleton.1 is
      exact ⟨_, holds, rfl⟩

/-- A path that is known stays so. -/
theorem Knows.attempt {path : NodePath} (known : document.Knows path)
    (reached : Reached source document) (edit : Edit)
    (told : ∀ path ∈ edit.path?, document.Knows path) : (document.attempt edit).Knows path := by
  rcases step_or_eq reached.numbered edit told with made | same
  · obtain ⟨target, change, frame⟩ := made.frame reached.numbered
    intro ref is
    obtain ⟨part, inside, same⟩ := known ref is
    obtain ⟨children, rfl⟩ := Tree.eq_node_of_ref? same
    have old : ref.mark.id ∈ Tree.idsAmong document.forest :=
      List.mem_filterMap.2 ⟨_, inside, rfl⟩
    obtain ⟨found, here, numbered⟩ := List.mem_filterMap.1 (frame.kept old)
    have looked := frame.node ref.mark.id old
    rw [reached.numbered.node_eq inside rfl, frame.numbered.node_eq here numbered] at looked
    refine ⟨found, here, ?_⟩
    rw [looked, Tree.modifyChildren]
    split <;> rfl
  · rwa [same]

/-- Edits may be tried one after the other. -/
theorem Reached.all (reached : Reached source document) {edits : List Edit}
    (known : ∀ edit ∈ edits, ∀ path ∈ edit.path?, document.Knows path) :
    Reached source (edits.foldl attempt document) := by
  induction edits generalizing document with
  | nil => exact reached
  | cons edit later ih =>
    have here := known edit List.mem_cons_self
    refine ih (.attempted edit reached here) fun other member path given => ?_
    exact (known other (List.mem_cons_of_mem _ member) path given).attempt reached edit here

end Document

end Uncurry
