import Uncurry.Proofs.Document.Merging
import Uncurry.Proofs.Document.Placement

/-!
# What comes out of a sequence of edits

A document is sound if its parts are placed in the source and its patches can be made together.
Every step keeps this, so whatever edits were tried, with whatever success, the patches merge with
the source: `toSource_reached`.
-/
namespace Uncurry.Document

open Uncurry.Tree (Placed ranges)

variable {source : Text} {document after : Document} {tree : DocumentTree} {range : Range}

/-- The parts of a document are placed in the source, and its patches can be made together. -/
structure Sound (source : Text) (document : Document) : Prop where
  source_eq : document.source = source
  placed : ∀ part ∈ Tree.partsAmong document.forest, Placed Mark.range? source.length part
  compatible : Patch.Compatible source.length document.patches

/-- What may be edited among the parts lies within the source. -/
theorem Sound.within (h : Sound source document)
    (known : tree.parts ⊆ Tree.partsAmong document.forest)
    (ranged : editable tree = .ok range) : range.Within source.length := by
  have own := editable_eq_ok.1 ranged
  obtain ⟨mark, marked, _⟩ := Option.bind_eq_some_iff.1 own
  exact (h.placed tree (known (Tree.self_mem_parts marked))).own range own

/-- Whatever an edit does, the document is sound behind it. -/
theorem Sound.step (h : Sound source document) (made : Step document after) :
    Sound source after := by
  have placed := made.kept Placed.hereditary h.placed
  cases made with
  | @callee old rest whole range callee parsed inside ranged _ free =>
    have known : old.parts ⊆ Tree.partsAmong document.forest := fun part member =>
      Tree.parts_subset_among _ inside (List.mem_cons_of_mem _ (List.mem_append_left _ member))
    exact ⟨h.source_eq, placed, h.compatible.snoc (h.within known ranged) free⟩
  | @argument callee values rest label list whole index range inside bound ranged free =>
    have args : Tree.node label values list ∈ Tree.partsAmong document.forest :=
      Tree.parts_subset_among _ inside (by simp)
    have known (value : DocumentTree) (member : value ∈ values) :
        value.parts ⊆ Tree.partsAmong document.forest := fun part deeper =>
      Tree.parts_subset_among _ args
        (List.mem_cons_of_mem _ (Tree.mem_partsAmong_iff.2 ⟨value, member, deeper⟩))
    have within : range.Within source.length := by
      refine argumentRange_within (fun value member range own => ?_) (h.placed _ args).ordered bound
        ranged
      exact h.within (known value member) (editable_eq_ok.2 own)
    exact ⟨h.source_eq, placed, h.compatible.snoc within free⟩
  | @statements statement children label parent id index range snippet text parsed _ _ _ _ inside
      ranged _ free =>
    have ⟨starts, stops⟩ := h.within (Tree.parts_subset_among _ inside) ranged
    exact ⟨h.source_eq, placed,
      h.compatible.snoc ⟨Nat.le_refl _, Nat.le_trans starts stops⟩ free⟩

/-- A document without edits is sound. -/
theorem sound_ofTree {program : SyntaxTree} (accepted : parseProgram source = .ok program) :
    Sound source (Document.ofTree source program) := by
  obtain ⟨parsed⟩ := exists_parsed accepted
  refine ⟨rfl, fun part inside => ?_, .nil _⟩
  exact Placed.of_number 0 parsed.placed part (by simpa [forest, ofTree] using inside)

theorem Reached.sound (reached : Reached source document) : Sound source document :=
  reached.induction (fun _ accepted => sound_ofTree accepted) fun _ _ _ h made => h.step made

/-- The patches of a sound document merge with its source. -/
theorem Sound.toSource_eq (h : Sound source document) :
    document.toSource = .ok (Patch.merged document.patches 0 source) := by
  rw [toSource, h.source_eq]
  exact Patch.apply_eq_merged h.compatible

/-- Whatever edits were tried, the patches lie within the source and do not overlap, and what is
made of the source is known: at each offset stand the texts inserted there in the order of
recording, then the text of the replacement that starts there, and every character that no patch
covers is left in its place. -/
theorem toSource_reached (reached : Reached source document) :
    (∀ patch ∈ document.patches,
      patch.range.start ≤ patch.range.stop ∧ patch.range.stop ≤ source.length) ∧
    document.patches.Pairwise (fun a b => a.range.overlaps b.range = false) ∧
    document.toSource = .ok (Patch.merged document.patches 0 source) := by
  have sound := reached.sound
  exact ⟨sound.compatible.within, sound.compatible.apart, sound.toSource_eq⟩

/-- A program with a single call. -/
def calling : Text := Text.ofString "f(a, b);"

/-- Edits of `calling` at its statement and its call, which has number 2. The second replacement of
the callee is refused. -/
def callingEdits (statement : NodePath) : List Edit :=
  [.insertBefore statement (Text.ofString "x;"), .replaceCallee ⟨2, []⟩ (Text.ofString "g.h"),
    .replaceCallee ⟨2, []⟩ (Text.ofString "k"), .removeArgument ⟨2, []⟩ 1,
    .insertBefore statement (Text.ofString "y;"), .removeArgument ⟨2, []⟩ 0]

theorem calling_edited : (Document.parse calling).toOption.any (fun document =>
    (document.find [.exprStmt]).head?.any fun statement =>
      let edited := (callingEdits statement).foldl attempt document
      edited.patches.length = 5 &&
        Patch.merged edited.patches 0 calling = Text.ofString "x;\ny;\ng.h();") = true := by
  decide +kernel

theorem toSource_reached_calling : ∃ document, Reached calling document ∧
    document.patches.length = 5 ∧
    document.toSource = .ok (Text.ofString "x;\ny;\ng.h();") := by
  obtain ⟨document, read, run⟩ := (Option.any_eq_true _ _).1 calling_edited
  obtain ⟨statement, found, run⟩ := (Option.any_eq_true _ _).1 run
  simp only [Bool.and_eq_true, decide_eq_true_eq] at run
  obtain ⟨count, text⟩ := run
  have known : document.Knows statement :=
    knows_of_mem_paths (List.mem_filter.1 (List.mem_of_head? found)).1
  have reached : Reached calling ((callingEdits statement).foldl attempt document) := by
    refine (Reached.parsed (eq_ok_of_toOption read)).all fun edit member path given => ?_
    simp only [callingEdits, List.mem_cons, List.not_mem_nil, or_false] at member
    rcases member with rfl | rfl | rfl | rfl | rfl | rfl
    all_goals cases given
    all_goals exact known
  obtain ⟨_, _, output⟩ := toSource_reached reached
  exact ⟨_, reached, count, text ▸ output⟩

end Uncurry.Document
