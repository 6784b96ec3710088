import Uncurry.Proofs.Document.Placement

/-!
# How the parts of a document lie in each other

The children of a part lie within it, arguments stand one behind the other, and a statement list
starts with a token of its own, behind which its statements stand. All parts of a parsed program are
nested in this way, and edits keep them so.
-/
namespace Uncurry

/-- A range lies within another one. -/
def Range.Holds (outer inner : Range) : Prop :=
  outer.start ≤ inner.start ∧ inner.stop ≤ outer.stop

theorem Range.Holds.refl (range : Range) : range.Holds range := ⟨Nat.le_refl _, Nat.le_refl _⟩

theorem Range.Holds.trans {a b c : Range} (h : a.Holds b) (h' : b.Holds c) : a.Holds c :=
  ⟨Nat.le_trans h.1 h'.1, Nat.le_trans h'.2 h.2⟩

/-- What overlaps a range overlaps all ranges that hold it. -/
theorem Range.Holds.overlaps {outer inner range : Range} (h : outer.Holds inner)
    (inside : inner.overlaps range = true) : outer.overlaps range = true := by
  simp only [Range.overlaps, Bool.and_eq_true, decide_eq_true_eq] at inside ⊢
  exact ⟨Nat.lt_of_le_of_lt h.1 inside.1, Nat.lt_of_lt_of_le inside.2 h.2⟩

theorem Range.overlaps_self {range : Range} (nonempty : range.start < range.stop) :
    range.overlaps range = true := by
  simpa [Range.overlaps] using nonempty

namespace Tree

variable {α : Type} {extent : α → Option Range} {tree part : Tree α} {range : Range}

/-- The children of a part lie within it and are no programs. In a statement list they stand behind
the token that it starts with, and arguments stand one behind the other. -/
structure Nested (extent : α → Option Range) (part : Tree α) : Prop where
  inner : ∀ outline ∈ outlines extent part.children, outline.label? ≠ some .program ∧
    outline.range.start < outline.range.stop ∧
      ∃ whole, part.range? extent = some whole ∧ whole.Holds outline.range
  listing : ∀ label ∈ part.label?, label.isStatementList = true → label ≠ .program →
    ∀ whole ∈ part.range? extent, ∀ outline ∈ outlines extent part.children,
      whole.start < outline.range.start
  arguments : part.label? = some .args →
    (outlines extent part.children).Pairwise fun a b => a.range.stop ≤ b.range.start

/-- What is deep in a tree lies within it, and is no program. -/
theorem holds_of_mem (tree : Tree α) (nested : ∀ part ∈ tree.parts, Nested extent part)
    (inside : part ∈ tree.parts) (own : part.range? extent = some range) :
    (∃ whole, tree.range? extent = some whole ∧ whole.Holds range) ∧
      (part = tree ∨ part.label? ≠ some .program) := by
  match tree with
  | missing => cases inside
  | leaf kind text info =>
    obtain rfl := List.mem_singleton.1 inside
    exact ⟨⟨range, own, .refl range⟩, .inl rfl⟩
  | node label children info =>
    rcases List.mem_cons.1 inside with rfl | inside
    · exact ⟨⟨range, own, .refl range⟩, .inl rfl⟩
    · obtain ⟨child, member, deeper⟩ := mem_partsAmong_iff.1 inside
      obtain ⟨⟨between, known, holds⟩, named⟩ := holds_of_mem child (fun part lower =>
        nested part (List.mem_cons_of_mem _ (mem_partsAmong_iff.2 ⟨child, member, lower⟩))) deeper
          own
      obtain ⟨labelled, _, whole, above, within⟩ := (nested _ List.mem_cons_self).inner
        ⟨child.label?, between⟩ (mem_outlines.2 ⟨child, member, rfl, known⟩)
      refine ⟨⟨whole, above, within.trans holds⟩, .inr ?_⟩
      rcases named with rfl | other
      · exact labelled
      · exact other
termination_by sizeOf tree
decreasing_by exact sizeOf_child member

end Tree

open Uncurry.Tree (Nested infos outlines mem_outlines)

variable {taken : List Token} {tree part : SyntaxTree} {label : Label} {children : List SyntaxTree}
  {span : Span}

/-- No part of a program but the root is one. -/
theorem Tree.SpelledIn.label_ne (h : part.SpelledIn taken) : part.label? ≠ some .program := by
  intro labelled
  rcases h with ⟨own, _, spelled⟩ | ⟨_, _, _, rfl⟩
  · cases part with
    | node label children span =>
      obtain ⟨pieces, _, _, _, _, fits, _⟩ := spelled.of_node
      obtain rfl := Option.some.inj labelled
      exact (fits.listing rfl).1 rfl
    | _ => cases labelled
  · cases labelled

theorem Tree.nested_node (named : ∀ child ∈ children, child.label? ≠ some .program)
    (within : ∀ inner ∈ infos children, span.Holds inner ∧ inner.Nonempty)
    (listing : label.isStatementList = true → label ≠ .program →
      ∀ inner ∈ infos children, span.start.offset < inner.start.offset)
    (arguments : label = .args → (infos children).Pairwise Span.Before) :
    Nested Span.range? (.node label children span) := by
  have known {outline : Outline} (seen : outline ∈ outlines Span.range? children) :
      outline.label? ≠ some .program ∧ ∃ inner ∈ infos children, outline.range = inner.range := by
    obtain ⟨child, member, label, ranged⟩ := mem_outlines.1 seen
    obtain ⟨inner, carried, ranged⟩ := Option.bind_eq_some_iff.1 ranged
    exact ⟨label ▸ named child member, inner, List.mem_filterMap.2 ⟨child, member, carried⟩,
      (Option.some.inj ranged).symm⟩
  constructor
  · intro outline seen
    obtain ⟨labelled, inner, member, same⟩ := known seen
    obtain ⟨holds, nonempty⟩ := within inner member
    rw [same]
    exact ⟨labelled, nonempty, span.range, rfl, holds⟩
  · rintro _ ⟨⟩ listed other _ ⟨⟩ outline seen
    obtain ⟨_, inner, member, same⟩ := known seen
    rw [same]
    exact listing listed other inner member
  · rintro ⟨⟩
    have apart := (arguments rfl).map Span.range (S := fun a b => a.stop ≤ b.start) fun _ _ h => h
    rwa [← Tree.ranges_eq_infos, Tree.ranges_eq, List.pairwise_map] at apart

/-- No child of a part of a program is one. -/
theorem Parsed.label_ne {source : Text} (parsed : Parsed source tree) (inside : part ∈ tree.parts) :
    ∀ child ∈ part.children, child.label? ≠ some .program := by
  intro child member
  cases carried : child.info? with
  | none =>
    cases child with
    | missing => nofun
    | _ => cases carried
  | some inner =>
    have below := Tree.mem_partsAmong member carried
    refine (parsed.spelledIn child ?_).label_ne
    rw [parsed.tree_eq, Tree.parts_node] at inside
    rcases List.mem_cons.1 inside with rfl | inside
    · exact below
    · exact Tree.parts_subset_among _ inside (Tree.partsAmong_children part below)

/-- The parts of a program are nested. -/
theorem Parsed.nested {source : Text} (parsed : Parsed source tree) :
    ∀ part ∈ tree.parts, Nested Span.range? part := by
  intro part inside
  have named := parsed.label_ne inside
  rw [parsed.tree_eq, Tree.parts_node] at inside
  rcases List.mem_cons.1 inside with rfl | inside
  · refine Tree.nested_node named (fun inner member => ?_) (fun _ other => absurd rfl other) nofun
    obtain ⟨starts, stops⟩ := parsed.whole
    obtain ⟨nonempty, within⟩ := parsed.infos_trees.1 inner member
    exact ⟨⟨by rw [starts]; exact Nat.zero_le _, by rwa [stops]⟩, nonempty⟩
  · rcases parsed.spelledIn part inside with ⟨own, within, spelled⟩ | ⟨kind, token, _, rfl⟩
    · cases part with
      | node label children span =>
        have spread := spelled.spread (parsed.code_ordered.of_infix within)
        refine Tree.nested_node named spread.within (fun listed _ => (spread.listing listed).2) ?_
        rintro rfl
        refine spread.apart.resolve_right fun doubled => ?_
        cases doubled with
        | leaf _ _ _ echoes => cases echoes
      | _ => exact ⟨nofun, nofun, nofun⟩
    · exact ⟨nofun, nofun, nofun⟩

namespace Tree

theorem Nested.hereditary : Hereditary (Nested Mark.range?) where
  foreign part foreign := by
    refine ⟨?_, ?_, ?_⟩
    all_goals simp [foreign.2]
  fewer label children trees mark left nested :=
    ⟨fun outline seen => nested.inner outline (left.subset seen),
      fun label is listed other whole own outline seen =>
        nested.listing label is listed other whole own outline (left.subset seen),
      fun args => (nested.arguments args).sublist left⟩

/-- What is numbered is nested as it was. -/
theorem Nested.of_number (next : NodeId) {program : SyntaxTree}
    (nested : ∀ part ∈ program.parts, Nested Span.range? part) :
    ∀ part ∈ (program.number false next).1.parts, Nested Mark.range? part := by
  intro part inside
  obtain ⟨known, there, label_eq, range_eq, outlines_eq⟩ := exists_of_number next inside
  obtain ⟨inner, listing, arguments⟩ := nested known there
  constructor
  · rwa [outlines_eq, range_eq]
  · rwa [label_eq, range_eq, outlines_eq]
  · rwa [label_eq, outlines_eq]

end Tree

namespace Document

variable {source : Text} {document : Document} {tree : DocumentTree} {range : Range}

/-- What may be edited among the children of a part. -/
theorem nested_editable {label : Label} {children : List DocumentTree} {mark : Mark}
    (nested : Nested Mark.range? (.node label children mark)) (member : tree ∈ children)
    (ranged : editable tree = .ok range) :
    tree.label? ≠ some .program ∧ range.start < range.stop ∧
      ∃ whole, (Tree.node label children mark).range? Mark.range? = some whole ∧
        whole.Holds range :=
  nested.inner ⟨tree.label?, range⟩
    (mem_outlines.2 ⟨tree, member, rfl, editable_eq_ok.1 ranged⟩)

/-- The range that goes with an argument holds it, and lies within the argument list. -/
theorem argumentRange_holds {values : List DocumentTree} {list : Mark} {index : Nat}
    (nested : Nested Mark.range? (.node .args values list)) (bound : index < values.length)
    (ranged : argumentRange values index = .ok range) : ∃ own whole,
      values[index].range? Mark.range? = some own ∧ own.start < own.stop ∧ range.Holds own ∧
      (Tree.node .args values list).range? Mark.range? = some whole ∧ whole.Holds range := by
  have apart : (outlines Mark.range? values).Pairwise fun a b => a.range.stop ≤ b.range.start :=
    nested.arguments rfl
  rw [outlines, List.pairwise_filterMap, List.pairwise_iff_getElem] at apart
  have inner {i : Nat} (bound : i < values.length) {own : Range}
      (is : values[i].range? Mark.range? = some own) :=
    nested_editable nested (List.getElem_mem bound) (editable_eq_ok.2 is)
  have before {i j : Nat} (less : i < j) (bound : j < values.length) {own other : Range}
      (is : values[i].range? Mark.range? = some own)
      (is' : values[j].range? Mark.range? = some other) : own.stop ≤ other.start :=
    apart i j (by omega) bound less ⟨values[i].label?, own⟩ (by rw [is]; rfl)
      ⟨values[j].label?, other⟩ (by rw [is']; rfl)
  obtain ⟨own, is, bounds⟩ := argumentRange_eq_ok bound ranged
  obtain ⟨_, nonempty, whole, above, holds⟩ := inner bound is
  refine ⟨own, whole, is, nonempty, ?_⟩
  rcases bounds with ⟨more, next, is', rfl⟩ | ⟨later, last, is', rfl⟩ | rfl
  · obtain ⟨_, nonempty', _, above', holds'⟩ := inner more is'
    obtain rfl := Option.some.inj (above.symm.trans above')
    exact ⟨⟨Nat.le_refl _, before (Nat.lt_succ_self _) more is is'⟩, above, holds.1,
      Nat.le_trans (Nat.le_of_lt nonempty') holds'.2⟩
  · obtain ⟨_, nonempty', _, above', holds'⟩ := inner (by omega) is'
    obtain rfl := Option.some.inj (above.symm.trans above')
    exact ⟨⟨before (by omega) bound is' is, Nat.le_refl _⟩, above,
      Nat.le_trans holds'.1 (Nat.le_of_lt nonempty'), holds.2⟩
  · exact ⟨.refl range, above, holds⟩

/-- The parts of every document that is reached are nested. -/
theorem Reached.nested (reached : Reached source document) :
    ∀ part ∈ Tree.partsAmong document.forest, Nested Mark.range? part := by
  refine reached.kept Nested.hereditary fun tree accepted => ?_
  obtain ⟨parsed⟩ := exists_parsed accepted
  exact Nested.of_number 0 parsed.nested

end Document

end Uncurry
