import Uncurry.Proofs.Curry.Calls
import Uncurry.Proofs.Curry.Shapes
import Uncurry.Proofs.Document.Nesting
import Mathlib.Data.List.GetD
import Mathlib.Data.List.InsertIdx

/-!
# Arguments removed one after the other

An argument is removed with the comma between it and the next one that is left, or the one before
it if it is the last. Where an argument in between was removed earlier, the two ranges overlap, and
the removal is refused. `tryRemovals_left` says what any sequence of removals makes of a call, which
of them are refused, and that there is an order in which any choice of arguments can be removed.
-/
namespace Uncurry

open Uncurry.Tree (Nested outlines)

/-- Whether the argument at some index, given the positions of those that are left, still has the
neighbor from which it is separated by the comma that goes with it. The only one left needs none. -/
def detachable (left : List Nat) (index : Nat) : Bool :=
  if index + 1 < left.length then left.getD (index + 1) 0 = left.getD index 0 + 1
  else index = 0 || left.getD index 0 = left.getD (index - 1) 0 + 1

/-- The positions that are left when the removal of the argument at some index was tried. -/
def leftBehind (left : List Nat) (index : Int) : List Nat :=
  if 0 ≤ index ∧ index < left.length ∧ detachable left index.toNat then
    left.eraseIdx index.toNat
  else left

/-- The range that goes with the argument at some index, given the positions of those that are left
and where the arguments stand. -/
def rangeWith (spans : Nat → Range) (left : List Nat) (index : Nat) : Range :=
  if index + 1 < left.length then
    ⟨(spans (left.getD index 0)).start, (spans (left.getD (index + 1) 0)).start⟩
  else if 0 < index then
    ⟨(spans (left.getD (index - 1) 0)).stop, (spans (left.getD index 0)).stop⟩
  else spans (left.getD index 0)

/-- Ranges one behind the other. -/
structure Lined (spans : Nat → Range) (count : Nat) : Prop where
  nonempty : ∀ p < count, (spans p).start < (spans p).stop
  ordered : ∀ p q, p < q → q < count → (spans p).stop ≤ (spans q).start

/-- What the patches of removals have to do with the positions that are left: a patch spares what is
left, it replaces some argument, and it is there for every argument that is gone. -/
structure Thinned (spans : Nat → Range) (count : Nat) (left : List Nat) (patches : List Patch) :
    Prop where
  sorted : left.Pairwise (· < ·)
  bound : ∀ p ∈ left, p < count
  spares : ∀ patch ∈ patches, ∀ p ∈ left,
    (spans p).stop ≤ patch.range.start ∨ patch.range.stop ≤ (spans p).start
  replaces : ∀ patch ∈ patches, ∃ p < count, patch.range.Holds (spans p)
  gone : ∀ p < count, p ∉ left → ∃ patch ∈ patches, patch.range.Holds (spans p)

section

variable {spans : Nat → Range} {count index p q : Nat} {left : List Nat} {patches : List Patch}

theorem Lined.lt_of_stop_le (lined : Lined spans count) (hp : p < count) (hq : q < count)
    (h : (spans p).stop ≤ (spans q).start) : p < q := by
  by_contra not_lt
  rcases Nat.lt_or_eq_of_le (Nat.not_lt.1 not_lt) with less | rfl
  · have := lined.ordered q p less hp
    have := lined.nonempty p hp
    have := lined.nonempty q hq
    omega
  · have := lined.nonempty q hq
    omega

theorem Lined.precedes (lined : Lined spans count) (le : p ≤ q) (hq : q < count) :
    (spans p).Precedes (spans q) := by
  rcases Nat.lt_or_eq_of_le le with less | rfl
  · have := lined.ordered p q less hq
    have := lined.nonempty p (Nat.lt_trans less hq)
    have := lined.nonempty q hq
    exact ⟨by omega, by omega⟩
  · exact ⟨Nat.le_refl _, Nat.le_refl _⟩

namespace Thinned

theorem getD_mem {left : List Nat} (inside : index < left.length) : left.getD index 0 ∈ left := by
  rw [← List.getElem_eq_getD (h := inside)]
  exact List.getElem_mem inside

theorem getD_lt (h : Thinned spans count left patches) {i j : Nat} (less : i < j)
    (inside : j < left.length) : left.getD i 0 < left.getD j 0 := by
  rw [← List.getElem_eq_getD (h := Nat.lt_trans less inside), ← List.getElem_eq_getD (h := inside)]
  exact List.pairwise_iff_getElem.1 h.sorted i j _ inside less

/-- No position that is left lies between two that are next to each other. -/
theorem le_or_le (h : Thinned spans count left patches) (inside : index + 1 < left.length)
    (member : p ∈ left) : p ≤ left.getD index 0 ∨ left.getD (index + 1) 0 ≤ p := by
  obtain ⟨j, here, same⟩ := List.getElem_of_mem member
  rw [@List.getElem_eq_getD _ _ _ here 0] at same
  subst same
  rcases Nat.lt_trichotomy j index with less | rfl | more
  · exact .inl (Nat.le_of_lt (h.getD_lt less (Nat.lt_of_succ_lt inside)))
  · exact .inl (Nat.le_refl _)
  · rcases Nat.lt_or_eq_of_le (Nat.succ_le_of_lt more) with later | rfl
    · exact .inr (Nat.le_of_lt (h.getD_lt later here))
    · exact .inr (Nat.le_refl _)

/-- A range from one argument that is left to the next one is free exactly if no argument was
removed in between. -/
theorem free_iff_gap (h : Thinned spans count left patches) (lined : Lined spans count)
    (inside : index + 1 < left.length) (range : Range)
    (starts : (spans (left.getD index 0)).start ≤ range.start ∧
      range.start ≤ (spans (left.getD index 0)).stop)
    (stops : (spans (left.getD (index + 1) 0)).start ≤ range.stop ∧
      range.stop ≤ (spans (left.getD (index + 1) 0)).stop) :
    (∀ patch ∈ patches, patch.range.overlaps range = false) ↔
      left.getD (index + 1) 0 = left.getD index 0 + 1 := by
  have here := getD_mem (Nat.lt_of_succ_lt inside)
  have next := getD_mem inside
  have less := h.getD_lt (Nat.lt_add_one index) inside
  have bound := h.bound _ next
  constructor
  · intro free
    by_contra apart
    have between : left.getD index 0 + 1 < left.getD (index + 1) 0 :=
      Nat.lt_of_le_of_ne less (Ne.symm apart)
    have inner := Nat.lt_trans between bound
    obtain ⟨patch, recorded, holds⟩ := h.gone _ inner fun member => by
      have := h.le_or_le inside member
      omega
    have overlapping : (spans (left.getD index 0 + 1)).overlaps range = true := by
      have := lined.ordered _ _ (Nat.lt_add_one (left.getD index 0)) inner
      have := lined.ordered _ _ between bound
      have := lined.nonempty _ inner
      simp only [Range.overlaps, Bool.and_eq_true, decide_eq_true_eq]
      omega
    exact Bool.false_ne_true ((free patch recorded).symm.trans (holds.overlaps overlapping))
  · intro adjacent patch recorded
    rw [Range.overlaps, Bool.and_eq_false_iff, decide_eq_false_iff_not, decide_eq_false_iff_not]
    rcases h.spares patch recorded _ here with behind | before
    · rcases h.spares patch recorded _ next with behind' | before'
      · left
        omega
      · obtain ⟨r, hr, holds⟩ := h.replaces patch recorded
        have := lined.lt_of_stop_le (h.bound _ here) hr (Nat.le_trans behind holds.1)
        have := lined.lt_of_stop_le hr bound (Nat.le_trans holds.2 before')
        omega
    · right
      omega

/-- A removal overlaps no earlier one exactly if the argument still has the neighbor that it needs.
-/
theorem free_iff (h : Thinned spans count left patches) (lined : Lined spans count)
    (inside : index < left.length) :
    (∀ patch ∈ patches, patch.range.overlaps (rangeWith spans left index) = false) ↔
      detachable left index = true := by
  have nonempty {i : Nat} (here : i < left.length) :=
    Nat.le_of_lt (lined.nonempty _ (h.bound _ (getD_mem here)))
  rw [rangeWith, detachable]
  split
  · rename_i more
    rw [decide_eq_true_eq]
    exact h.free_iff_gap lined more _ ⟨Nat.le_refl _, nonempty inside⟩
      ⟨Nat.le_refl _, nonempty more⟩
  · split
    · rename_i later
      obtain ⟨before, rfl⟩ := Nat.exists_eq_succ_of_ne_zero (Nat.ne_of_gt later)
      have here := Nat.lt_of_succ_lt inside
      simpa using h.free_iff_gap lined inside ⟨_, _⟩ ⟨nonempty here, Nat.le_refl _⟩
        ⟨nonempty inside, Nat.le_refl _⟩
    · rename_i first
      obtain rfl : index = 0 := by omega
      refine iff_of_true (fun patch recorded => ?_) (by simp)
      have := h.spares patch recorded _ (getD_mem inside)
      rw [Range.overlaps, Bool.and_eq_false_iff, decide_eq_false_iff_not, decide_eq_false_iff_not]
      omega

/-- What stays when one position is taken out lies in front of it or behind it. -/
theorem of_mem_eraseIdx (h : Thinned spans count left patches) (inside : index < left.length)
    (member : p ∈ left.eraseIdx index) : p ∈ left ∧
      (p < left.getD index 0 ∧ (0 < index → p ≤ left.getD (index - 1) 0) ∨
        left.getD index 0 < p ∧ index + 1 < left.length ∧ left.getD (index + 1) 0 ≤ p) := by
  have kept := List.mem_of_mem_eraseIdx member
  obtain ⟨j, here, other, same⟩ := List.mem_eraseIdx_iff_getElem.1 member
  rw [@List.getElem_eq_getD _ _ _ here 0] at same
  subst same
  refine ⟨kept, ?_⟩
  rcases Nat.lt_or_gt_of_ne other with less | more
  · have := h.getD_lt less inside
    refine .inl ⟨this, fun later => ?_⟩
    have before : index - 1 + 1 < left.length := by omega
    have := h.le_or_le before kept
    rw [Nat.sub_add_cancel later] at this
    omega
  · have below := h.getD_lt more here
    have next : index + 1 < left.length := by omega
    have := h.le_or_le next kept
    exact .inr ⟨below, next, by omega⟩

/-- The range that goes with an argument holds it. -/
theorem rangeWith_holds (h : Thinned spans count left patches) (lined : Lined spans count)
    (inside : index < left.length) :
    (rangeWith spans left index).Holds (spans (left.getD index 0)) := by
  have bound {i : Nat} (here : i < left.length) := h.bound _ (getD_mem here)
  rw [rangeWith]
  split
  · rename_i more
    exact ⟨Nat.le_refl _, lined.ordered _ _ (h.getD_lt (Nat.lt_add_one index) more) (bound more)⟩
  · split
    · have less := h.getD_lt (i := index - 1) (by omega) inside
      exact ⟨lined.ordered _ _ less (bound inside), Nat.le_refl _⟩
    · exact .refl _

/-- The range that goes with an argument spares the others that are left. -/
theorem rangeWith_spares (h : Thinned spans count left patches) (lined : Lined spans count)
    (inside : index < left.length) (member : p ∈ left.eraseIdx index) :
    (spans p).stop ≤ (rangeWith spans left index).start ∨
      (rangeWith spans left index).stop ≤ (spans p).start := by
  obtain ⟨kept, order⟩ := h.of_mem_eraseIdx inside member
  have bound := h.bound p kept
  rw [rangeWith]
  rcases order with ⟨less, before⟩ | ⟨less, more, next⟩
  · left
    have front := lined.ordered p _ less (h.bound _ (getD_mem inside))
    split
    · exact front
    · split
      · rename_i later
        exact (lined.precedes (before later) (h.bound _ (getD_mem (by omega)))).2
      · exact front
  · right
    rw [if_pos more]
    exact (lined.precedes next bound).1

/-- What a removal leaves. -/
theorem step (h : Thinned spans count left patches) (lined : Lined spans count)
    (inside : index < left.length) :
    Thinned spans count (left.eraseIdx index)
      (patches ++ [⟨rangeWith spans left index, []⟩]) where
  sorted := h.sorted.sublist (List.eraseIdx_sublist left index)
  bound p member := h.bound p (List.mem_of_mem_eraseIdx member)
  spares := by
    intro patch recorded p member
    rcases List.mem_append.1 recorded with old | new
    · exact h.spares patch old p (List.mem_of_mem_eraseIdx member)
    · obtain rfl := List.mem_singleton.1 new
      exact h.rangeWith_spares lined inside member
  replaces := by
    intro patch recorded
    rcases List.mem_append.1 recorded with old | new
    · exact h.replaces patch old
    · obtain rfl := List.mem_singleton.1 new
      exact ⟨_, h.bound _ (getD_mem inside), h.rangeWith_holds lined inside⟩
  gone := by
    intro p bound gone
    by_cases kept : p ∈ left
    · refine ⟨_, List.mem_append_right _ List.mem_cons_self, ?_⟩
      obtain ⟨j, here, rfl⟩ := List.getElem_of_mem kept
      obtain rfl : j = index := by
        by_contra other
        exact gone (List.mem_eraseIdx_iff_getElem.2 ⟨j, here, other, rfl⟩)
      rw [@List.getElem_eq_getD _ _ _ here 0]
      exact h.rangeWith_holds lined inside
    · obtain ⟨patch, recorded, holds⟩ := h.gone p bound kept
      exact ⟨patch, List.mem_append_left _ recorded, holds⟩

end Thinned

/-- Some removals, one after the other, all of arguments that can be detached. -/
inductive Detaches : List Nat → List Nat → List Nat → Prop
  | nil (left : List Nat) : Detaches left [] left
  | cons {left indices final : List Nat} {index : Nat} : index < left.length →
      detachable left index = true → Detaches (left.eraseIdx index) indices final →
      Detaches left (index :: indices) final

variable {front back : List Nat} {keep : Nat → Bool}

theorem Detaches.length_le {indices final : List Nat} (h : Detaches left indices final) :
    indices.length ≤ left.length := by
  induction h with
  | nil => exact Nat.zero_le _
  | cons inside _ _ ih =>
    rw [List.length_eraseIdx_of_lt inside] at ih
    rw [List.length_cons]
    omega

/-- An argument in front of the next one can be taken out. -/
theorem Detaches.middle {indices final : List Nat}
    (later : Detaches (front ++ (p + 1) :: back) indices final) :
    Detaches (front ++ p :: (p + 1) :: back) (front.length :: indices) final := by
  refine .cons (by simp) ?_ ?_
  · simp [detachable]
  · rwa [List.eraseIdx_append_of_length_le (Nat.le_refl _), Nat.sub_self, List.eraseIdx_cons_zero]

/-- From the first argument on, all can be taken out that are not kept, if the last one is. -/
theorem exists_detaches_middle (keep : Nat → Bool) (count first : Nat) (front : List Nat)
    (last : count ≠ 0 → keep (first + count - 1) = true) :
    ∃ indices, Detaches (front ++ List.range' first count) indices
      (front ++ (List.range' first count).filter keep) := by
  induction count generalizing first front with
  | zero => exact ⟨[], by simpa using Detaches.nil _⟩
  | succ count ih =>
    have last : keep (first + count) = true := last (Nat.succ_ne_zero count)
    have later (nonempty : count ≠ 0) : keep (first + 1 + count - 1) = true := by
      rwa [Nat.add_right_comm, Nat.add_sub_cancel]
    rw [List.range'_succ, List.filter_cons]
    cases kept : keep first with
    | true =>
      obtain ⟨indices, detaches⟩ := ih (first + 1) (front ++ [first]) later
      exact ⟨indices, by simpa using detaches⟩
    | false =>
      cases count with
      | zero => exact absurd (kept.symm.trans last) Bool.false_ne_true
      | succ count =>
        obtain ⟨indices, detaches⟩ := ih (first + 1) front later
        rw [List.range'_succ] at detaches ⊢
        exact ⟨_, .middle detaches⟩

/-- There is an order in which all arguments can be removed that are not to be kept: from the last
one on as long as they follow one another, and then from the first one on. -/
theorem exists_detaches (keep : Nat → Bool) (count : Nat) :
    ∃ indices, Detaches (List.range count) indices ((List.range count).filter keep) := by
  induction count with
  | zero => exact ⟨[], .nil _⟩
  | succ count ih =>
    cases kept : keep count with
    | true =>
      rw [List.range_eq_range']
      exact exists_detaches_middle keep (count + 1) 0 [] fun _ => by simpa using kept
    | false =>
      obtain ⟨indices, detaches⟩ := ih
      have erased : (List.range (count + 1)).eraseIdx count = List.range count := by
        rw [List.range_succ, List.eraseIdx_append_of_length_le (by simp)]
        simp
      have filtered : (List.range (count + 1)).filter keep = (List.range count).filter keep := by
        simp [List.range_succ, kept]
      rw [filtered]
      refine ⟨count :: indices, .cons (by simp) ?_ (erased ▸ detaches)⟩
      have at_position {i : Nat} (less : i < count + 1) : (List.range (count + 1)).getD i 0 = i := by
        rw [← List.getElem_eq_getD (h := by simpa using less), List.getElem_range]
      rw [detachable, if_neg (by simp), at_position (by omega), at_position (by omega)]
      cases count <;> simp


end

namespace Tree

variable {target : NodeId} {change change' : List DocumentTree → List DocumentTree}

mutual

/-- Two changes of the children of a node are one. -/
theorem modifyChildren_modifyChildren : (tree : DocumentTree) →
    (tree.modifyChildren target change).modifyChildren target change' =
      tree.modifyChildren target (change' ∘ change)
  | missing => rfl
  | leaf _ _ _ => rfl
  | node label children mark => by
    rw [modifyChildren, modifyChildren]
    split
    · rename_i here
      rw [modifyChildren, if_pos here]
      rfl
    · rename_i other
      rw [modifyChildren, if_neg other, modifyChildrenAmong_modifyChildrenAmong children]

theorem modifyChildrenAmong_modifyChildrenAmong : (trees : List DocumentTree) →
    modifyChildrenAmong target change' (modifyChildrenAmong target change trees) =
      modifyChildrenAmong target (change' ∘ change) trees
  | [] => rfl
  | tree :: trees => by
    rw [modifyChildrenAmong, modifyChildrenAmong, modifyChildrenAmong,
      modifyChildren_modifyChildren tree, modifyChildrenAmong_modifyChildrenAmong trees]

end

mutual

/-- A change that leaves the children of a node as they are changes nothing. -/
theorem modifyChildren_self : (tree : DocumentTree) →
    (∀ part ∈ tree.parts, part.id? = some target → change part.children = part.children) →
    tree.modifyChildren target change = tree
  | missing, _ => rfl
  | leaf _ _ _, _ => rfl
  | node label children mark, same => by
    rw [modifyChildren]
    split
    · rename_i here
      have own := same _ List.mem_cons_self (congrArg some here)
      exact congrArg (node label · mark) own
    · rw [modifyChildrenAmong_self children fun part inside =>
        same part (List.mem_cons_of_mem _ inside)]

theorem modifyChildrenAmong_self : (trees : List DocumentTree) →
    (∀ part ∈ partsAmong trees, part.id? = some target → change part.children = part.children) →
    modifyChildrenAmong target change trees = trees
  | [], _ => rfl
  | tree :: trees, same => by
    rw [modifyChildrenAmong,
      modifyChildren_self tree fun part inside => same part (List.mem_append_left _ inside),
      modifyChildrenAmong_self trees fun part inside => same part (List.mem_append_right _ inside)]

end

end Tree

namespace Document

variable {source : Text} {first document after : Document} {call : NodeId} {left final : List Nat}
  {arguments : List DocumentTree} {callee : DocumentTree} {list whole : Mark} {index : Nat}
  {spans : Nat → Range} {range : Range} {place : Place}

/-- The trees in some positions. -/
def pick (left : List Nat) (trees : List DocumentTree) : List DocumentTree :=
  left.map (trees.getD · .missing)

theorem pick_range (trees : List DocumentTree) : pick (List.range trees.length) trees = trees := by
  refine List.ext_getElem (by simp [pick]) fun i here there => ?_
  simp [pick, there]

theorem eraseIdx_pick (left : List Nat) (index : Nat) :
    (fun trees : List DocumentTree => trees.eraseIdx index) ∘ pick left =
      pick (left.eraseIdx index) := by
  funext trees
  exact List.eraseIdx_map ..

theorem getD_pick (inside : index < left.length) :
    (pick left arguments).getD index .missing = arguments.getD (left.getD index 0) .missing := by
  simp [pick, inside]

/-- Arguments that may be edited, with the ranges that they stand for. -/
structure Listing (arguments : List DocumentTree) (spans : Nat → Range) : Prop where
  editable : ∀ p < arguments.length, editable (arguments.getD p .missing) = .ok (spans p)
  lined : Lined spans arguments.length

/-- The range that goes with an argument, given the positions of those that are left. -/
theorem Listing.argumentRange_eq (listing : Listing arguments spans)
    (bound : ∀ p ∈ left, p < arguments.length) (inside : index < left.length) :
    argumentRange (pick left arguments) index = .ok (rangeWith spans left index) := by
  have known {i : Nat} (here : i < left.length) :
      Document.editable ((pick left arguments).getD i .missing) = .ok (spans (left.getD i 0)) := by
    rw [getD_pick here]
    exact listing.editable _ (bound _ (Thinned.getD_mem here))
  have length : (pick left arguments).length = left.length := List.length_map _
  rw [argumentRange, known inside, length, rangeWith]
  change (if _ then _ else if _ then _ else _) = _
  split
  · rename_i more
    rw [known more]
    rfl
  · split
    · rw [known (i := index - 1) (by omega)]
      rfl
    · rfl

/-- Arguments that may all be edited stand one behind the other. -/
theorem exists_listing (nested : Nested Mark.range? (.node .args arguments list))
    (ranged : ∀ argument ∈ arguments, ∃ range, editable argument = .ok range) :
    ∃ spans, Listing arguments spans := by
  have known {p : Nat} (bound : p < arguments.length) :
      (arguments.getD p .missing).range? Mark.range? =
        some (((arguments.getD p .missing).range? Mark.range?).getD ⟨0, 0⟩) := by
    rw [← List.getElem_eq_getD (h := bound)]
    obtain ⟨range, is⟩ := ranged _ (List.getElem_mem bound)
    rw [editable_eq_ok.1 is]
    rfl
  have apart : (outlines Mark.range? arguments).Pairwise fun a b => a.range.stop ≤ b.range.start :=
    nested.arguments rfl
  rw [outlines, List.pairwise_filterMap, List.pairwise_iff_getElem] at apart
  refine ⟨fun p => ((arguments.getD p .missing).range? Mark.range?).getD ⟨0, 0⟩,
    fun p bound => editable_eq_ok.2 (known bound), fun p bound => ?_, fun p q less bound => ?_⟩
  · have is := editable_eq_ok.2 (known bound)
    refine (nested_editable nested ?_ is).2.1
    rw [← List.getElem_eq_getD (h := bound)]
    exact List.getElem_mem bound
  · have before := Nat.lt_trans less bound
    have is := known before
    have is' := known bound
    rw [← List.getElem_eq_getD (h := before)] at is
    rw [← List.getElem_eq_getD (h := bound)] at is'
    have order := apart p q before bound less ⟨_, _⟩ (congrArg (Option.map (Outline.mk _)) is)
      ⟨_, _⟩ (congrArg (Option.map (Outline.mk _)) is')
    rw [← List.getElem_eq_getD (h := before), ← List.getElem_eq_getD (h := bound)]
    exact order

/-- A call of a program has arguments that may all be edited, one behind the other. -/
theorem exists_arguments (read : Document.parse source = .ok document)
    (labelled : (document.node call).label? = some .call) :
    ∃ callee arguments list whole spans,
      document.node call = .node .call [callee, .node .args arguments list] whole ∧
      whole.id = call ∧ document.node call ∈ Tree.partsAmong document.forest ∧
      Listing arguments spans := by
  obtain ⟨callee, arguments, rest, list, whole, known, same, inside⟩ :=
    (Reached.parsed read).exists_call labelled
  have nested := (Reached.parsed read).nested
  rw [known] at inside
  have args : .node .args arguments list ∈ Tree.partsAmong document.forest :=
    Tree.parts_subset_among _ inside (by simp)
  obtain ⟨tree, accepted, rfl⟩ := exists_ofTree read
  have all : Tree.partsAmong (ofTree source tree).forest = (tree.number false 0).1.parts := by
    simp [forest, ofTree]
  have shaped : Curry.Shaped (.node .call (callee :: .node .args arguments list :: rest) whole) := by
    refine Curry.Shaped.of_map (f := Mark.span) (Curry.parsed_shaped accepted _ ?_)
    rw [← Tree.map_number false 0 tree, Tree.nodes_eq_parts, Tree.parts_map, ← all]
    exact List.mem_filter.2 ⟨List.mem_map_of_mem inside, rfl⟩
  obtain ⟨_, _, _, _, shape, present⟩ := shaped rfl
  cases shape
  obtain ⟨spans, listing⟩ := exists_listing (nested _ args) fun argument member => by
    obtain ⟨mark, marked⟩ := Option.ne_none_iff_exists'.1 (present argument member)
    have part := Tree.parts_subset_among _ args
      (List.mem_cons_of_mem _ (Tree.mem_partsAmong member marked))
    have plain := Tree.number_inserted false 0 tree argument (all ▸ part)
    rw [marked] at plain
    refine ⟨mark.span.range, editable_eq_ok.2 ?_⟩
    rw [Tree.range?, marked, Option.bind_some, Mark.range?, Option.some.inj plain]
    rfl
  exact ⟨callee, arguments, list, whole, spans, known, same, known ▸ inside, listing⟩

/-- A removal adds its patch and takes the argument out. -/
theorem removeArgument_eq {label : Label} {rest : List DocumentTree}
    (found : document.treeAt place =
      .node .call (callee :: .node label arguments list :: rest) whole)
    (inside : index < arguments.length) (ranged : argumentRange arguments index = .ok range)
    (free : document.Free range) :
    document.removeArgument place index =
      .ok (document.changed list.id (·.eraseIdx index) (arguments.getD index .missing)
        ⟨range, []⟩ document.nextId) := by
  have bounds : ¬((index : Int) < 0 ∨ (arguments.length : Int) ≤ index) := by omega
  have added : document.addPatch range [] =
      .ok { document with patches := document.patches ++ [⟨range, []⟩] } := by
    have add : Patch.add document.patches ⟨range, []⟩ = _ := Patch.add_eq free
    rw [addPatch, add]
    rfl
  rw [removeArgument, found]
  simp only [if_neg bounds, Int.toNat_natCast, ranged, bind, Except.bind, added]
  rfl

/-- A removal is refused if its range overlaps that of a patch. -/
theorem removeArgument_overlap {label : Label} {rest : List DocumentTree}
    (found : document.treeAt place =
      .node .call (callee :: .node label arguments list :: rest) whole)
    (inside : index < arguments.length) (ranged : argumentRange arguments index = .ok range)
    (taken : ¬document.Free range) :
    ∃ existing, document.removeArgument place index = .error (.overlap range existing) := by
  have bounds : ¬((index : Int) < 0 ∨ (arguments.length : Int) ≤ index) := by omega
  cases search : document.patches.find? fun existing => existing.range.overlaps range with
  | none =>
    exact absurd (fun patch member => by simpa using List.find?_eq_none.1 search patch member) taken
  | some existing =>
    refine ⟨existing.range, ?_⟩
    rw [removeArgument, found]
    simp only [if_neg bounds, Int.toNat_natCast, ranged, bind, Except.bind, addPatch, Patch.add,
      search]

/-- The document behind some tries to remove an argument of a call. -/
def tryRemovals (document : Document) (call : NodeId) (indices : List Int) : Document :=
  indices.foldl (fun document index => document.attempt (.removeArgument ⟨call, []⟩ index)) document

/-- The document behind some removals of arguments of a call, all of which have to succeed. -/
def removals (document : Document) (call : NodeId) : List Nat → Except EditError Document
  | [] => .ok document
  | index :: later => do (← document.removeArgument ⟨call, []⟩ index).removals call later

/-- What a document has to do with the program when arguments of a call were removed and those in
some positions are left. -/
structure Thinning (source : Text) (first : Document) (call : NodeId) (list : Mark)
    (spans : Nat → Range) (count : Nat) (left : List Nat) (document : Document) : Prop where
  reached : Reached source document
  tree : document.tree = first.tree.modifyChildren list.id (pick left)
  node : document.node call = (first.node call).modifyChildren list.id (pick left)
  thinned : Thinned spans count left document.patches

/-- A removal of an argument that is not there is refused. -/
theorem removeArgument_outside {label : Label} {rest : List DocumentTree} {index : Int}
    (found : document.treeAt place =
      .node .call (callee :: .node label arguments list :: rest) whole)
    (outside : index < 0 ∨ (arguments.length : Int) ≤ index) :
    document.removeArgument place index = .error (.noSuchArgument index arguments.length) := by
  rw [removeArgument, found]
  simp only [if_pos outside]
  rfl

section

variable (called : first.node call = .node .call [callee, .node .args arguments list] whole)
  (listing : Listing arguments spans) (other : whole.id ≠ list.id)

include called other

/-- The call has the arguments that are left. -/
theorem Thinning.treeAt_eq {count : Nat}
    (h : Thinning source first call list spans count left document) :
    document.treeAt ⟨call, []⟩ = .node .call
      [callee.modifyChildren list.id (pick left), .node .args (pick left arguments) list] whole := by
  rw [treeAt, Tree.descend, h.node, called, Tree.modifyChildren, if_neg other,
    Tree.modifyChildrenAmong, Tree.modifyChildrenAmong, Tree.modifyChildren, if_pos rfl]
  rfl

include listing

/-- What becomes of a removal. -/
theorem Thinning.removeArgument
    (h : Thinning source first call list spans arguments.length left document)
    (inside : index < left.length) :
    if detachable left index then
      ∃ after, document.removeArgument ⟨call, []⟩ index = .ok after ∧
        Thinning source first call list spans arguments.length (left.eraseIdx index) after
    else ∃ range existing,
      document.removeArgument ⟨call, []⟩ index = .error (.overlap range existing) := by
  have found := h.treeAt_eq called other
  have ranged := listing.argumentRange_eq h.thinned.bound inside
  have free := h.thinned.free_iff listing.lined inside
  have length : (pick left arguments).length = left.length := List.length_map _
  split
  · rename_i can
    have removed := removeArgument_eq found (by rwa [length]) ranged (free.2 can)
    have args : .node .args (pick left arguments) list ∈ Tree.partsAmong document.forest :=
      Tree.parts_subset_among _ (mem_of_treeAt found) (by simp)
    have frame := h.reached.numbered.frame_eraseIdx args (by rwa [length])
      ⟨rangeWith spans left index, []⟩
    refine ⟨_, removed, h.reached.removeArgument removed, ?_, ?_,
      h.thinned.step listing.lined inside⟩
    · change document.tree.modifyChildren list.id (·.eraseIdx index) = _
      rw [h.tree, Tree.modifyChildren_modifyChildren, eraseIdx_pick]
    · have stands : call ∈ Tree.idsAmong document.forest := by
        have marked : (document.node call).info? = some whole :=
          congrArg Tree.info? (found : document.node call = _)
        exact List.mem_filterMap.2 ⟨_, mem_of_node marked⟩
      rw [frame.node call stands, h.node, Tree.modifyChildren_modifyChildren, eraseIdx_pick]
  · rename_i cannot
    obtain ⟨existing, refused⟩ := removeArgument_overlap found (by rwa [length]) ranged
      fun all => cannot (free.1 all)
    exact ⟨_, existing, refused⟩

/-- Removals of arguments that can be detached succeed one after the other. -/
theorem Thinning.detaches {indices : List Nat}
    (h : Thinning source first call list spans arguments.length left document)
    (detaches : Detaches left indices final) :
    ∃ after, document.removals call indices = .ok after ∧
      Thinning source first call list spans arguments.length final after := by
  induction detaches generalizing document with
  | nil => exact ⟨document, rfl, h⟩
  | cons inside can _ ih =>
    have made := h.removeArgument called listing other inside
    rw [if_pos can] at made
    obtain ⟨between, removed, h'⟩ := made
    obtain ⟨after, others, h''⟩ := ih h'
    exact ⟨after, by rw [removals, removed]; exact others, h''⟩

/-- What is left when a removal was tried. -/
theorem Thinning.attempt (h : Thinning source first call list spans arguments.length left document)
    (index : Int) :
    Thinning source first call list spans arguments.length (leftBehind left index)
      (document.attempt (.removeArgument ⟨call, []⟩ index)) := by
  rw [Document.attempt, edit, leftBehind]
  by_cases inside : 0 ≤ index ∧ index < left.length
  · obtain ⟨position, rfl⟩ := Int.eq_ofNat_of_zero_le inside.1
    have made := h.removeArgument called listing other (Int.ofNat_lt.1 inside.2)
    split at made
    · rename_i can
      obtain ⟨after, removed, h'⟩ := made
      rw [if_pos ⟨inside.1, inside.2, can⟩, removed]
      exact h'
    · rename_i cannot
      obtain ⟨range, existing, refused⟩ := made
      rw [if_neg fun all => cannot all.2.2, refused]
      exact h
  · rw [if_neg fun all => inside ⟨all.1, all.2.1⟩,
      removeArgument_outside (h.treeAt_eq called other) (by rw [pick, List.length_map]; omega)]
    exact h

/-- What is left when some removals were tried. -/
theorem Thinning.tries (h : Thinning source first call list spans arguments.length left document)
    (indices : List Int) :
    Thinning source first call list spans arguments.length (indices.foldl leftBehind left)
      (document.tryRemovals call indices) := by
  induction indices generalizing left document with
  | nil => exact h
  | cons index later ih => exact ih (h.attempt called listing other index)

end

/-- A call that is found is a call. -/
theorem Numbered.label_of_find {path : NodePath} (h : Numbered document)
    (found : path ∈ document.find [.call]) :
    (document.node path.node.mark.id).label? = some .call := by
  have member : path.node ∈ document.calls := List.mem_map_of_mem found
  obtain ⟨labelled, seen⟩ := mem_calls.1 member
  obtain ⟨part, inside, is⟩ := List.mem_filterMap.1 seen
  obtain ⟨children, rfl⟩ := Tree.eq_node_of_ref? is
  rw [h.node_eq (List.mem_append_left _ inside) rfl, ← labelled]
  rfl

/-- Before any removal all arguments are left. -/
theorem thinning_parsed (read : Document.parse source = .ok document)
    (called : document.node call = .node .call [callee, .node .args arguments list] whole)
    (inside : document.node call ∈ Tree.partsAmong document.forest) :
    Thinning source document call list spans arguments.length (List.range arguments.length)
      document := by
  have unique := (Reached.parsed read).numbered.unique
  rw [called] at inside
  have args : .node .args arguments list ∈ Tree.partsAmong document.forest :=
    Tree.parts_subset_among _ inside (by simp)
  have same : ∀ part ∈ Tree.partsAmong document.forest, part.id? = some list.id →
      pick (List.range arguments.length) part.children = part.children := by
    intro part member numbered
    obtain rfl := Tree.eq_of_id unique member args numbered rfl
    exact pick_range arguments
  refine ⟨.parsed read, ?_, ?_, ?_⟩
  · exact (Tree.modifyChildren_self _ fun part member =>
      same part (List.mem_append_left _ member)).symm
  · rw [called]
    exact (Tree.modifyChildren_self _ fun part member =>
      same part (Tree.parts_subset_among _ inside member)).symm
  · have fresh : document.patches = [] := by
      obtain ⟨tree, _, rfl⟩ := exists_ofTree read
      rfl
    rw [fresh]
    exact ⟨List.pairwise_lt_range, fun p => List.mem_range.1, nofun, nofun,
      fun p bound gone => absurd (List.mem_range.2 bound) gone⟩

/-- What a sequence of removals does to a call of a program, whatever indices it is told. The
arguments in the positions `left` are left. Another removal within their range succeeds if the
argument still has the neighbor from which the comma separates it that goes with it, and is refused
if not, since this comma is gone. Only the positions that are left tell what the tree is, and any
choice of arguments can be removed in some order. -/
theorem tryRemovals_left {path : NodePath} (read : Document.parse source = .ok document)
    (found : path ∈ document.find [.call]) : ∃ callee arguments list whole,
    let call := path.node.mark.id
    let left (indices : List Int) := indices.foldl leftBehind (List.range arguments.length)
    document.node call = .node .call [callee, .node .args arguments list] whole ∧
    (∀ indices, let after := document.tryRemovals call indices
      after.tree = document.tree.modifyChildren list.id (pick (left indices)) ∧
      after.node call = (document.node call).modifyChildren list.id (pick (left indices)) ∧
      ∀ index < (left indices).length,
        if detachable (left indices) index then
          ∃ later, after.removeArgument ⟨call, []⟩ index = .ok later
        else ∃ range existing,
          after.removeArgument ⟨call, []⟩ index = .error (.overlap range existing)) ∧
    (∀ indices others, (∀ position, position ∈ left indices ↔ position ∈ left others) →
      (document.tryRemovals call indices).tree = (document.tryRemovals call others).tree) ∧
    (∀ keep : Nat → Bool, ∃ indices after, indices.length ≤ arguments.length ∧
      document.removals call indices = .ok after ∧
      after.tree = document.tree.modifyChildren list.id
        (pick ((List.range arguments.length).filter keep))) := by
  have reached := Reached.parsed read
  obtain ⟨callee, arguments, list, whole, spans, known, same, inside, listing⟩ :=
    exists_arguments read (reached.numbered.label_of_find found)
  have other : whole.id ≠ list.id := by
    intro shared
    rw [known] at inside
    have args : .node .args arguments list ∈ Tree.partsAmong document.forest :=
      Tree.parts_subset_among _ inside (by simp)
    cases Tree.eq_of_id reached.numbered.unique inside args (congrArg some shared) rfl
  have start : Thinning source document path.node.mark.id list spans arguments.length
      (List.range arguments.length) document := thinning_parsed read known inside
  have tries (indices : List Int) := start.tries known listing other indices
  refine ⟨callee, arguments, list, whole, known, fun indices => ⟨(tries indices).tree,
    (tries indices).node, fun index bound => ?_⟩, fun indices others alike => ?_, fun keep => ?_⟩
  · have made := (tries indices).removeArgument known listing other bound
    split at made
    · rename_i can
      obtain ⟨later, removed, _⟩ := made
      rw [if_pos can]
      exact ⟨later, removed⟩
    · rename_i cannot
      rw [if_neg cannot]
      exact made
  · have lefts : indices.foldl leftBehind (List.range arguments.length) =
        others.foldl leftBehind (List.range arguments.length) :=
      List.Perm.eq_of_pairwise (fun _ _ _ _ less more => absurd less (Nat.lt_asymm more))
        (tries indices).thinned.sorted (tries others).thinned.sorted
        ((List.perm_ext_iff_of_nodup ((tries indices).thinned.sorted.imp Nat.ne_of_lt)
          ((tries others).thinned.sorted.imp Nat.ne_of_lt)).2 alike)
    exact (tries indices).tree.trans (lefts ▸ (tries others).tree.symm)
  · obtain ⟨indices, detaches⟩ := exists_detaches keep arguments.length
    obtain ⟨after, removed, h⟩ := start.detaches known listing other detaches
    exact ⟨indices, after, by simpa using detaches.length_le, removed, h.tree⟩

/-- A call with three arguments. -/
def threefold : Text := Text.ofString "f(a, b, c);"

theorem threefold_edited : (Document.parse threefold).toOption.any (fun document =>
    (document.find [.call]).head?.any fun path =>
      decide (((document.node path.node.mark.id).child 1).children.length = 3) &&
      (document.removeArgument ⟨path.node.mark.id, []⟩ 1).toOption.any fun after =>
        decide (((after.node path.node.mark.id).child 1).children.length = 2) &&
        (match after.removeArgument ⟨path.node.mark.id, []⟩ 0 with
          | .error (.overlap range existing) => range = ⟨2, 8⟩ && existing = ⟨5, 8⟩
          | _ => false)) = true := by
  decide +kernel

/-- When the second of three arguments was removed, the first cannot be removed: the comma between
the two is gone already. -/
theorem removeArgument_refused : ∃ document path after,
    Document.parse threefold = .ok document ∧ path ∈ document.find [.call] ∧
    ((document.node path.node.mark.id).child 1).children.length = 3 ∧
    document.removeArgument ⟨path.node.mark.id, []⟩ 1 = .ok after ∧
    ((after.node path.node.mark.id).child 1).children.length = 2 ∧
    after.removeArgument ⟨path.node.mark.id, []⟩ 0 = .error (.overlap ⟨2, 8⟩ ⟨5, 8⟩) := by
  obtain ⟨document, read, run⟩ := (Option.any_eq_true _ _).1 threefold_edited
  obtain ⟨path, found, run⟩ := (Option.any_eq_true _ _).1 run
  rw [Bool.and_eq_true, decide_eq_true_eq] at run
  obtain ⟨after, removed, again⟩ := (Option.any_eq_true _ _).1 run.2
  rw [Bool.and_eq_true, decide_eq_true_eq] at again
  refine ⟨document, path, after, eq_ok_of_toOption read, List.mem_of_head? found, run.1,
    eq_ok_of_toOption removed, again.1, ?_⟩
  have refused := again.2
  split at refused
  · rename_i range existing overlapping
    simp only [Bool.and_eq_true, decide_eq_true_eq] at refused
    rw [overlapping, refused.1, refused.2]
  · cases refused

/-- Behind a refused removal the first and the third of three arguments are left. -/
theorem tryRemovals_left_threefold : ∃ document path list, Document.parse threefold = .ok document ∧
    path ∈ document.find [.call] ∧
    (document.tryRemovals path.node.mark.id [1, 0]).tree =
      document.tree.modifyChildren list (pick [0, 2]) := by
  obtain ⟨document, read, run⟩ := (Option.any_eq_true _ _).1 threefold_edited
  obtain ⟨path, found, run⟩ := (Option.any_eq_true _ _).1 run
  rw [Bool.and_eq_true, decide_eq_true_eq] at run
  replace read := eq_ok_of_toOption read
  replace found := List.mem_of_head? found
  obtain ⟨callee, arguments, list, whole, known, tries, _⟩ := tryRemovals_left read found
  rw [known] at run
  have three : arguments.length = 3 := run.1
  refine ⟨document, path, list.id, read, found, ((tries [1, 0]).1).trans ?_⟩
  rw [three]
  rfl

end Document

end Uncurry
