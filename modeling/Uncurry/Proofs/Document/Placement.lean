import Uncurry.Proofs.Document.Spans
import Uncurry.Proofs.Document.Steps

/-!
# Where the parts of a document stand

An edit addresses the source by the ranges of parts. A part is placed if its range lies within the
source and the ranges of its children stand in the order of the text. All parts of a parsed program
are placed, and edits keep them so: what they bring in has no range, and what they take away leaves
the rest in order. The same goes for all that is said of a part and the outlines of its children, as
long as fewer children do no harm: `Reached.kept`.
-/
namespace Uncurry

/-- The offsets of a span. -/
def Span.range (span : Span) : Range := ⟨span.start.offset, span.stop.offset⟩

/-- The range of the source that a mark stands for. Inserted parts have none. -/
def Mark.range? (mark : Mark) : Option Range :=
  if mark.inserted then none else some mark.span.range

/-- What is seen of a tree that stands for a range. -/
structure Outline where
  label? : Option Label
  range : Range

/-- A range neither starts nor stops behind another one. -/
def Range.Precedes (a b : Range) : Prop := a.start ≤ b.start ∧ a.stop ≤ b.stop

/-- A range of a text of some length. -/
def Range.Within (range : Range) (stop : Nat) : Prop :=
  range.start ≤ range.stop ∧ range.stop ≤ stop

namespace Tree

variable {α β : Type} {extent : α → Option Range} {stop : Nat}

/-- The range of a tree, given those that its information stands for. -/
def range? (extent : α → Option Range) (tree : Tree α) : Option Range := tree.info?.bind extent

/-- The ranges of some trees. -/
def ranges (extent : α → Option Range) (trees : List (Tree α)) : List Range :=
  trees.filterMap (range? extent)

/-- The outlines of the trees that stand for a range. -/
def outlines (extent : α → Option Range) (trees : List (Tree α)) : List Outline :=
  trees.filterMap fun tree => (tree.range? extent).map (⟨tree.label?, ·⟩)

/-- A part lies within a text, and its children in the order of the text. -/
structure Placed (extent : α → Option Range) (stop : Nat) (part : Tree α) : Prop where
  own : ∀ range ∈ part.range? extent, range.Within stop
  ordered : (ranges extent part.children).Pairwise Range.Precedes

@[simp] theorem outlines_append (trees more : List (Tree α)) :
    outlines extent (trees ++ more) = outlines extent trees ++ outlines extent more :=
  List.filterMap_append

theorem mem_outlines {trees : List (Tree α)} {outline : Outline} :
    outline ∈ outlines extent trees ↔ ∃ tree ∈ trees, tree.label? = outline.label? ∧
      tree.range? extent = some outline.range := by
  rw [outlines, List.mem_filterMap]
  refine exists_congr fun tree => and_congr_right fun _ => ?_
  cases tree.range? extent <;> cases outline <;> simp

theorem ranges_eq (trees : List (Tree α)) :
    ranges extent trees = (outlines extent trees).map Outline.range := by
  rw [ranges, outlines, List.map_filterMap]
  refine List.filterMap_congr fun tree _ => ?_
  cases tree.range? extent <;> rfl

end Tree

/-- The range that a span stands for. -/
def Span.range? (span : Span) : Option Range := some span.range

variable {taken : List Token} {tree part : SyntaxTree} {start stop : Nat}

open Uncurry.Tree (Placed ranges infos)

theorem Tree.ranges_eq_infos (trees : List SyntaxTree) :
    ranges Span.range? trees = (infos trees).map Span.range := by
  rw [ranges, infos, List.map_filterMap]
  refine List.filterMap_congr fun tree _ => ?_
  cases tree <;> rfl

theorem Tree.ranges_pairwise {trees : List SyntaxTree}
    (precede : (infos trees).Pairwise Span.Precedes) :
    (ranges Span.range? trees).Pairwise Range.Precedes := by
  rw [Tree.ranges_eq_infos]
  exact precede.map _ fun _ _ h => h

/-- What is spelled in a text is placed in it. -/
theorem Tree.SpelledIn.placed (h : part.SpelledIn taken)
    (ordered : Token.Ordered stop start taken) : Placed Span.range? stop part := by
  obtain ⟨span, known, _, ranged, stops⟩ := h.ranged ordered
  constructor
  · intro range own
    rw [Tree.range?, known] at own
    obtain rfl := Option.some.inj own
    exact ⟨Nat.le_of_lt ranged, stops⟩
  · rcases h with ⟨own, inside, spelled⟩ | ⟨kind, token, _, rfl⟩
    · cases part with
      | node label children span =>
        exact Tree.ranges_pairwise (spelled.spread (ordered.of_infix inside)).precede
      | _ => exact .nil
    · exact .nil

/-- All parts of a program are placed in its source. -/
theorem Parsed.placed {source : Text} (parsed : Parsed source tree) :
    ∀ part ∈ tree.parts, Placed Span.range? source.length part := by
  intro part inside
  rw [parsed.tree_eq, Tree.parts_node] at inside
  rcases List.mem_cons.1 inside with rfl | inside
  · obtain ⟨within, apart⟩ := parsed.infos_trees
    refine ⟨fun range own => ?_, Tree.ranges_pairwise (apart.imp_of_mem fun ha hb before =>
      before.precedes (within _ ha).1 (within _ hb).1)⟩
    obtain rfl := Option.some.inj own
    refine ⟨?_, Nat.le_of_eq parsed.whole.2⟩
    rw [Span.range, parsed.whole.1]
    exact Nat.zero_le _
  · exact (parsed.spelledIn part inside).placed parsed.code_ordered

namespace Tree

variable {P : DocumentTree → Prop} {part : DocumentTree} {trees children : List DocumentTree}
  {label : Label} {mark : Mark} {change : List DocumentTree → List DocumentTree}

theorem range?_number (next : NodeId) {tree : SyntaxTree}
    (inside : part ∈ (tree.number false next).1.parts) :
    part.range? Mark.range? = (part.map Mark.span).range? Span.range? := by
  obtain ⟨mark, known, plain⟩ :=
    Option.map_eq_some_iff.1 (number_inserted false next tree part inside)
  rw [range?, range?, info?_map, known, Option.bind_some, Option.map_some, Option.bind_some,
    Mark.range?, plain]
  rfl

/-- What is numbered looks like what it was. -/
theorem exists_of_number (next : NodeId) {tree : SyntaxTree}
    (inside : part ∈ (tree.number false next).1.parts) : ∃ known ∈ tree.parts,
      part.label? = known.label? ∧ part.range? Mark.range? = known.range? Span.range? ∧
        outlines Mark.range? part.children = outlines Span.range? known.children := by
  refine ⟨part.map Mark.span, ?_, (label?_map _ _).symm, range?_number next inside, ?_⟩
  · rw [← map_number false next tree, parts_map]
    exact List.mem_map_of_mem inside
  · have below : (part.map Mark.span).children = part.children.map (map Mark.span) := by
      cases part with
      | node => exact mapAll_eq _ _
      | _ => rfl
    rw [below, outlines, outlines, List.filterMap_map]
    refine List.filterMap_congr fun child member => ?_
    rw [Function.comp_apply, label?_map]
    cases known : child.info? with
    | none =>
      rw [range?, range?, info?_map, known]
      rfl
    | some mark =>
      have deeper := parts_subset _ inside (partsAmong_children part (mem_partsAmong member known))
      rw [range?_number next deeper]

/-- What is numbered is placed where it was. -/
theorem Placed.of_number (next : NodeId) {tree : SyntaxTree}
    (placed : ∀ part ∈ tree.parts, Placed Span.range? stop part) :
    ∀ part ∈ (tree.number false next).1.parts, Placed Mark.range? stop part := by
  intro part inside
  obtain ⟨known, there, _, range_eq, outlines_eq⟩ := exists_of_number next inside
  constructor
  · rw [range_eq]
    exact (placed known there).own
  · rw [ranges_eq, outlines_eq, ← ranges_eq]
    exact (placed known there).ordered

/-- A part that stands for no range, nor do its children. -/
def Foreign (part : DocumentTree) : Prop :=
  part.range? Mark.range? = none ∧ outlines Mark.range? part.children = []

theorem range?_eq_none_of_inserted (inserted : part.info?.map Mark.inserted = some true) :
    part.range? Mark.range? = none := by
  obtain ⟨mark, known, inserted⟩ := Option.map_eq_some_iff.1 inserted
  rw [range?, known, Option.bind_some, Mark.range?, if_pos inserted]

/-- Inserted trees have no outlines. -/
theorem outlines_inserted
    (inserted : ∀ part ∈ partsAmong trees, part.info?.map Mark.inserted = some true) :
    outlines Mark.range? trees = [] := by
  refine List.filterMap_eq_nil_iff.2 fun tree member => Option.map_eq_none_iff.2 ?_
  cases known : tree.info? with
  | none =>
    rw [range?, known]
    rfl
  | some mark => exact range?_eq_none_of_inserted (inserted tree (mem_partsAmong member known))

/-- Inserted parts are foreign. -/
theorem foreign_inserted
    (inserted : ∀ part ∈ partsAmong trees, part.info?.map Mark.inserted = some true) :
    ∀ part ∈ partsAmong trees, Foreign part := fun part inside =>
  ⟨range?_eq_none_of_inserted (inserted part inside), outlines_inserted fun deeper member =>
    inserted deeper (parts_subset_among trees inside (partsAmong_children part member))⟩

/-- What foreign parts are, and what a part stays if of the outlines of its children some are
left. -/
structure Hereditary (P : DocumentTree → Prop) : Prop where
  foreign (part : DocumentTree) : Foreign part → P part
  fewer (label : Label) (children trees : List DocumentTree) (mark : Mark) :
    (outlines Mark.range? trees).Sublist (outlines Mark.range? children) →
      P (node label children mark) → P (node label trees mark)

theorem Placed.hereditary : Hereditary (Placed Mark.range? stop) where
  foreign part foreign := by
    constructor
    · rw [foreign.1]
      simp
    · rw [ranges_eq, foreign.2]
      exact .nil
  fewer label children trees mark left placed := by
    refine ⟨placed.own, placed.ordered.sublist ?_⟩
    rw [ranges_eq, ranges_eq]
    exact left.map Outline.range

theorem range?_modifyChildren (id : NodeId) (tree : DocumentTree) :
    (tree.modifyChildren id change).range? Mark.range? = tree.range? Mark.range? := by
  have same : (tree.modifyChildren id change).info? = tree.info? :=
    congrArg (·.2.2) (face_modifyChildren id tree)
  rw [range?, same, range?]

/-- A change below leaves the outlines. -/
theorem outlines_modifyChildrenAmong (id : NodeId) (trees : List DocumentTree) :
    outlines Mark.range? (modifyChildrenAmong id change trees) = outlines Mark.range? trees := by
  rw [outlines, outlines, modifyChildrenAmong_eq, List.filterMap_map]
  refine List.filterMap_congr fun tree _ => ?_
  rw [Function.comp_apply, range?_modifyChildren, label?_modifyChildren]

/-- A change of children that leaves some of their outlines and brings in foreign parts at most. -/
structure Orderly (change : List DocumentTree → List DocumentTree) : Prop where
  left (children : List DocumentTree) :
    (outlines Mark.range? (change children)).Sublist (outlines Mark.range? children)
  brings (children : List DocumentTree) : ∀ part ∈ partsAmong (change children),
    part ∈ partsAmong children ∨ Foreign part

/-- Leaving out a child is orderly. -/
theorem Orderly.eraseIdx (index : Nat) : Orderly (·.eraseIdx index) where
  left children := (List.eraseIdx_sublist children index).filterMap _
  brings _ _ member := .inl (partsAmong_subset List.eraseIdx_subset member)

/-- Putting an inserted tree in the place of the first child is orderly. -/
theorem Orderly.set {tree : DocumentTree}
    (inserted : ∀ part ∈ partsAmong [tree], part.info?.map Mark.inserted = some true) :
    Orderly (·.set 0 tree) := by
  constructor
  · intro children
    cases children with
    | nil => exact .refl _
    | cons child children =>
      rw [List.set_cons_zero, ← List.singleton_append, outlines_append, outlines_inserted inserted,
        List.nil_append]
      exact (List.sublist_cons_self child children).filterMap _
  · intro children part member
    cases children with
    | nil => exact .inl member
    | cons child children =>
      rw [List.set_cons_zero, ← List.singleton_append, partsAmong_append, List.mem_append] at member
      rcases member with new | old
      · exact .inr (foreign_inserted inserted part new)
      · exact .inl (List.mem_append_right _ old)

/-- Putting inserted trees between the children is orderly. -/
theorem Orderly.insert (index : Nat)
    (inserted : ∀ part ∈ partsAmong trees, part.info?.map Mark.inserted = some true) :
    Orderly fun children => children.take index ++ trees ++ children.drop index := by
  constructor
  · intro children
    rw [outlines_append, outlines_append, outlines_inserted inserted, List.append_nil,
      ← outlines_append, List.take_append_drop]
  · intro children part member
    rw [partsAmong_append, partsAmong_append, List.mem_append, List.mem_append] at member
    rcases member with (front | new) | back
    · exact .inl (partsAmong_subset (List.take_subset index children) front)
    · exact .inr (foreign_inserted inserted part new)
    · exact .inl (partsAmong_subset (List.drop_subset index children) back)

/-- Parts stay what they are when the children of a node are changed in an orderly way. -/
theorem Hereditary.modifyChildren (hereditary : Hereditary P) (orderly : Orderly change)
    (target : NodeId) (all : ∀ part ∈ partsAmong trees, P part) :
    ∀ part ∈ partsAmong (modifyChildrenAmong target change trees), P part := by
  intro part inside
  rcases mem_partsAmong_modifyChildren target trees part inside with
    ⟨old, there, rfl⟩ | ⟨label, children, mark, there, _, below⟩
  · have known := all old there
    cases old with
    | missing => exact known
    | leaf => exact known
    | node label children mark =>
      rw [Tree.modifyChildren]
      split
      · exact hereditary.fewer label children _ mark (orderly.left children) known
      · refine hereditary.fewer label children _ mark ?_ known
        rw [outlines_modifyChildrenAmong]
  · rcases orderly.brings children part below with old | new
    · exact all part (parts_subset_among trees there (List.mem_cons_of_mem _ old))
    · exact hereditary.foreign part new

end Tree

namespace Document

variable {P : DocumentTree → Prop} {source : Text} {document after : Document} {tree : DocumentTree}
  {range : Range}

/-- A change that cuts something out of the children of a node keeps what is hereditary. -/
theorem kept_changed {label : Label} {children : List DocumentTree} {mark : Mark}
    {change : List DocumentTree → List DocumentTree} {old : DocumentTree} {patch : Patch}
    {next : NodeId} (hereditary : Tree.Hereditary P) (orderly : Tree.Orderly change)
    (all : ∀ part ∈ Tree.partsAmong document.forest, P part)
    (inside : .node label children mark ∈ Tree.partsAmong document.forest)
    (cut : old.parts ⊆ Tree.partsAmong children) :
    ∀ part ∈ Tree.partsAmong (document.changed mark.id change old patch next).forest, P part := by
  intro part member
  rcases mem_changed cut member with changed | deeper
  · exact hereditary.modifyChildren orderly mark.id all part changed
  · exact all part (Tree.parts_subset_among _ inside (List.mem_cons_of_mem _ deeper))

/-- Whatever an edit does, it keeps what is hereditary. -/
theorem Step.kept (hereditary : Tree.Hereditary P)
    (all : ∀ part ∈ Tree.partsAmong document.forest, P part) (made : Step document after) :
    ∀ part ∈ Tree.partsAmong after.forest, P part := by
  cases made with
  | @callee old rest whole range callee parsed inside _ _ _ =>
    have new : ∀ part ∈ Tree.partsAmong [(parsed.number true document.nextId).1],
        part.info?.map Mark.inserted = some true := by
      simpa using Tree.number_inserted true document.nextId parsed
    exact kept_changed hereditary (.set new) all inside (List.subset_append_left old.parts _)
  | @argument callee values rest label list whole index range inside bound _ _ =>
    have args : Tree.node label values list ∈ Tree.partsAmong document.forest :=
      Tree.parts_subset_among _ inside (by simp)
    refine kept_changed hereditary (.eraseIdx index) all args ?_
    rw [← List.getElem_eq_getD (h := bound)]
    exact fun part member => Tree.mem_partsAmong_iff.2 ⟨_, List.getElem_mem bound, member⟩
  | @statements _ children label parent _ index _ _ _ parsed =>
    have new := Tree.numberAll_inserted true document.nextId parsed.children
    exact hereditary.modifyChildren (.insert index new) parent.id all

/-- What is hereditary and holds of all parts of the program holds of all parts ever after. -/
theorem Reached.kept (hereditary : Tree.Hereditary P)
    (program : ∀ tree, parseProgram source = .ok tree → ∀ part ∈ (tree.number false 0).1.parts,
      P part) (reached : Reached source document) :
    ∀ part ∈ Tree.partsAmong document.forest, P part := by
  refine reached.induction (fun tree accepted part inside => ?_) fun _ _ _ all made =>
    made.kept hereditary all
  rw [forest, Tree.partsAmong_cons] at inside
  exact program tree accepted part (by simpa [ofTree] using inside)

theorem editable_eq_ok : editable tree = .ok range ↔ tree.range? Mark.range? = some range := by
  rw [editable, Tree.range?]
  cases tree.info? with
  | none => simp
  | some mark =>
    by_cases inserted : mark.inserted = true
    · simp [Mark.range?, inserted]
    · simp [Mark.range?, inserted, Span.range]

/-- The range that goes with an argument starts or stops where an argument next to it does, or both
where the argument does itself. -/
theorem argumentRange_eq_ok {values : List DocumentTree} {index : Nat}
    (bound : index < values.length) (ranged : argumentRange values index = .ok range) :
    ∃ own, values[index].range? Mark.range? = some own ∧
      ((∃ _ : index + 1 < values.length, ∃ next, values[index + 1].range? Mark.range? = some next ∧
          range = ⟨own.start, next.start⟩) ∨
        (0 < index ∧ ∃ last, values[index - 1].range? Mark.range? = some last ∧
          range = ⟨last.stop, own.stop⟩) ∨
        range = own) := by
  have known {i : Nat} {range : Range} (bound : i < values.length)
      (is : editable (values.getD i .missing) = .ok range) :
      values[i].range? Mark.range? = some range := by
    rw [← List.getElem_eq_getD (h := bound)] at is
    exact editable_eq_ok.1 is
  unfold argumentRange at ranged
  obtain ⟨own, is, ranged⟩ := Except.bind_eq_ok ranged
  refine ⟨own, known bound is, ?_⟩
  split at ranged
  · rename_i more
    obtain ⟨next, is', ranged⟩ := Except.bind_eq_ok ranged
    exact .inl ⟨more, next, known more is', (Except.ok.inj ranged).symm⟩
  · split at ranged
    · rename_i _ later
      obtain ⟨last, is', ranged⟩ := Except.bind_eq_ok ranged
      exact .inr (.inl ⟨later, last, known (by omega) is', (Except.ok.inj ranged).symm⟩)
    · exact .inr (.inr (Except.ok.inj ranged).symm)

/-- The range that goes with an argument lies within the source if the arguments are placed. -/
theorem argumentRange_within {values : List DocumentTree} {index stop : Nat}
    (own : ∀ value ∈ values, ∀ range ∈ value.range? Mark.range?, range.Within stop)
    (ordered : (ranges Mark.range? values).Pairwise Range.Precedes) (bound : index < values.length)
    (ranged : argumentRange values index = .ok range) : range.Within stop := by
  rw [ranges, List.pairwise_filterMap, List.pairwise_iff_getElem] at ordered
  have within {i : Nat} {range : Range} (bound : i < values.length)
      (is : values[i].range? Mark.range? = some range) : range.Within stop :=
    own _ (List.getElem_mem bound) range is
  obtain ⟨here, is, bounds⟩ := argumentRange_eq_ok bound ranged
  rcases bounds with ⟨more, next, is', rfl⟩ | ⟨later, last, is', rfl⟩ | rfl
  · have precedes := ordered index (index + 1) bound more (by omega) here is next is'
    exact ⟨precedes.1, Nat.le_trans (within more is').1 (within more is').2⟩
  · have precedes := ordered (index - 1) index (by omega) bound (by omega) last is' here is
    exact ⟨precedes.2, (within bound is).2⟩
  · exact within bound is

end Document

end Uncurry
