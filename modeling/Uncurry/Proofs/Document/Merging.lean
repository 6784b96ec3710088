import Uncurry.Proofs.Document.Splicing

/-!
# Patches in the order of recording

Patches are recorded in any order. Several insertions may stand in one place, and a replacement may
start where text is inserted. `merged` says what becomes of a source: at each offset come the
inserted texts in the order of recording and behind them the text of the replacement that starts
there. `apply_eq_merged` finds that patches which do not overlap are applied like this.
-/
namespace Uncurry.Patch

/-- Whether a patch inserts its text at an offset. -/
def insertsAt (patch : Patch) (offset : Nat) : Bool :=
  patch.range.start = offset && patch.range.stop = offset

/-- Whether a patch puts its text in the place of a range that starts at an offset. -/
def replacesAt (patch : Patch) (offset : Nat) : Bool :=
  patch.range.start = offset && offset < patch.range.stop

/-- The texts that are inserted at an offset, in the order of recording. -/
def insertedAt (patches : List Patch) (offset : Nat) : Text :=
  (patches.filter (·.insertsAt offset)).flatMap text

/-- The text of the replacement that starts at an offset. -/
def replacedAt (patches : List Patch) (offset : Nat) : Text :=
  (patches.filter (·.replacesAt offset)).flatMap text

/-- A source from some offset on, with the texts put in at each offset, the insertions first,
without the characters of the ranges and with all others as they are. -/
def merged (patches : List Patch) (offset : Nat) : Text → Text
  | [] => insertedAt patches offset ++ replacedAt patches offset
  | c :: rest =>
    insertedAt patches offset ++ replacedAt patches offset ++
      (if patches.any (·.range.covers offset) then [] else [c]) ++ merged patches (offset + 1) rest

/-- Patches of a source of some length that can be made together. -/
structure Compatible (stop : Nat) (patches : List Patch) : Prop where
  within : ∀ patch ∈ patches,
    patch.range.start ≤ patch.range.stop ∧ patch.range.stop ≤ stop
  apart : patches.Pairwise fun a b => a.range.overlaps b.range = false

variable {patches sorted : List Patch} {patch : Patch} {start stop offset : Nat}
  {source rest : Text}

namespace Compatible

theorem nil (stop : Nat) : Compatible stop [] := ⟨by simp, .nil⟩

/-- One more patch is compatible if it overlaps none. -/
theorem snoc (h : Compatible stop patches)
    (ranged : patch.range.start ≤ patch.range.stop ∧ patch.range.stop ≤ stop)
    (free : ∀ other ∈ patches, other.range.overlaps patch.range = false) :
    Compatible stop (patches ++ [patch]) := by
  constructor
  · intro other member
    rcases List.mem_append.1 member with member | member
    · exact h.within other member
    · obtain rfl := List.mem_singleton.1 member
      exact ranged
  · refine List.pairwise_append.2 ⟨h.apart, List.pairwise_singleton _ patch, ?_⟩
    intro other member last same
    obtain rfl := List.mem_singleton.1 same
    exact free other member

theorem perm (h : Compatible stop patches) (same : patches.Perm sorted) :
    Compatible stop sorted := by
  constructor
  · intro patch member
    exact h.within patch (same.mem_iff.2 member)
  · refine same.pairwise h.apart ?_
    intro a b free
    rwa [Range.overlaps_comm]

/-- In the order of the text a patch ends before the next one starts. -/
theorem stop_le_start {a b : Patch} (valid : b.range.start ≤ b.range.stop)
    (free : a.range.overlaps b.range = false) (order : before a b = true) :
    a.range.stop ≤ b.range.start := by
  simp only [Range.overlaps, Bool.and_eq_false_iff, decide_eq_false_iff_not] at free
  simp only [before, Bool.or_eq_true, Bool.and_eq_true, decide_eq_true_eq] at order
  omega

/-- Compatible patches are queued in the order of the text. -/
theorem queued (h : Compatible stop sorted) (order : sorted.Pairwise fun a b => before a b = true)
    (first : ∀ patch ∈ sorted, start ≤ patch.range.start) : Queued stop start sorted := by
  induction sorted generalizing start with
  | nil => exact .nil start
  | cons patch later ih =>
    have ranged := h.within patch List.mem_cons_self
    have tail : Compatible stop later :=
      ⟨fun other member => h.within other (List.mem_cons_of_mem _ member),
        (List.pairwise_cons.1 h.apart).2⟩
    refine .cons (first patch List.mem_cons_self) ranged.1 ranged.2 ?_
    apply ih tail (List.pairwise_cons.1 order).2
    intro other member
    have valid := (tail.within other member).1
    have free := (List.pairwise_cons.1 h.apart).1 other member
    exact stop_le_start valid free ((List.pairwise_cons.1 order).1 other member)

/-- Of two patches that replace something from one offset on, one would overlap the other. -/
theorem replacing_before (h : Compatible stop patches) (offset : Nat) :
    (patches.filter (·.replacesAt offset)).Pairwise fun a b => before a b = true := by
  rw [List.pairwise_filter]
  refine h.apart.imp fun {a b} free first second => ?_
  simp only [replacesAt, Bool.and_eq_true, decide_eq_true_eq] at first second
  simp only [Range.overlaps, Bool.and_eq_false_iff, decide_eq_false_iff_not] at free
  omega

end Compatible

/-- Insertions at one offset keep their order. -/
theorem inserting_before (patches : List Patch) (offset : Nat) :
    (patches.filter (·.insertsAt offset)).Pairwise fun a b => before a b = true := by
  rw [List.pairwise_filter]
  refine List.pairwise_of_forall fun a b first second => ?_
  simp only [insertsAt, Bool.and_eq_true, decide_eq_true_eq] at first second
  simp only [before, Bool.or_eq_true, Bool.and_eq_true, decide_eq_true_eq]
  omega

/-- Sorting does not reorder patches that are in order already. -/
theorem filter_mergeSort {keep : Patch → Bool}
    (order : (patches.filter keep).Pairwise fun a b => before a b = true) :
    (patches.mergeSort before).filter keep = patches.filter keep := by
  have kept : (patches.filter keep).Sublist (patches.mergeSort before) :=
    List.sublist_mergeSort before_trans before_total order List.filter_sublist
  have inside := kept.filter keep
  rw [List.filter_filter] at inside
  simp only [Bool.and_self] at inside
  have length := ((List.mergeSort_perm patches before).filter keep).length_eq
  exact (inside.eq_of_length length.symm).symm

/-- In the order of the text the insertions at an offset come before what is replaced from it. -/
theorem textAt_of_sorted (order : sorted.Pairwise fun a b => before a b = true)
    (valid : ∀ patch ∈ sorted, patch.range.start ≤ patch.range.stop) (offset : Nat) :
    textAt sorted offset = insertedAt sorted offset ++ replacedAt sorted offset := by
  induction sorted with
  | nil => rfl
  | cons patch later ih =>
    have := ih (List.pairwise_cons.1 order).2 fun other member =>
      valid other (List.mem_cons_of_mem _ member)
    have ranged := valid patch List.mem_cons_self
    rw [textAt_cons, this]
    by_cases here : patch.range.start = offset
    · by_cases empty : patch.range.stop = offset
      · have inserts : patch.insertsAt offset = true := by simp [insertsAt, here, empty]
        have stays : patch.replacesAt offset = false := by simp [replacesAt, here, empty]
        simp [insertedAt, replacedAt, here, inserts, stays]
      · have inserts : patch.insertsAt offset = false := by simp [insertsAt, here, empty]
        have replaces : patch.replacesAt offset = true := by
          simp only [replacesAt, Bool.and_eq_true, decide_eq_true_eq]
          omega
        -- Behind a replacement there is no further insertion at its start.
        have none : insertedAt later offset = [] := by
          have few : later.filter (·.insertsAt offset) = [] := by
            refine List.filter_eq_nil_iff.2 fun other member there => ?_
            have order := (List.pairwise_cons.1 order).1 other member
            simp only [insertsAt, Bool.and_eq_true, decide_eq_true_eq] at there
            simp only [before, Bool.or_eq_true, Bool.and_eq_true, decide_eq_true_eq] at order
            omega
          rw [insertedAt, few]
          rfl
        have none' : insertedAt (patch :: later) offset = [] := by
          rw [insertedAt, List.filter_cons, inserts]
          exact none
        rw [none', none, if_pos here, replacedAt, replacedAt, List.filter_cons, replaces]
        rfl
    · have inserts : patch.insertsAt offset = false := by simp [insertsAt, here]
      have stays : patch.replacesAt offset = false := by simp [replacesAt, here]
      simp [insertedAt, replacedAt, here, inserts, stays]

/-- What sorted patches edit is what the patches merge to in the order of recording. -/
theorem edited_mergeSort (h : Compatible stop patches) :
    edited (patches.mergeSort before) offset rest = merged patches offset rest := by
  have same := List.mergeSort_perm patches before
  have text (offset : Nat) : textAt (patches.mergeSort before) offset =
      insertedAt patches offset ++ replacedAt patches offset := by
    rw [textAt_of_sorted (List.pairwise_mergeSort before_trans before_total patches)
      fun patch member => (h.within patch (same.mem_iff.1 member)).1]
    rw [insertedAt, replacedAt, filter_mergeSort (inserting_before patches offset),
      filter_mergeSort (h.replacing_before offset), ← insertedAt, ← replacedAt]
  have covers (offset : Nat) : (patches.mergeSort before).any (·.range.covers offset) =
      patches.any (·.range.covers offset) := by
    rw [Bool.eq_iff_iff, List.any_eq_true, List.any_eq_true]
    simp only [same.mem_iff]
  induction rest generalizing offset with
  | nil => rw [edited, merged, text]
  | cons c rest ih => rw [edited, merged, text, covers, ih]

/-- Compatible patches can be applied, and merge with the source. -/
theorem apply_eq_merged (h : Compatible source.length patches) :
    apply source patches = .ok (merged patches 0 source) := by
  have same := (List.mergeSort_perm patches before).symm
  have order := List.pairwise_mergeSort before_trans before_total patches
  have queue : Queued source.length 0 (patches.mergeSort before) :=
    (h.perm same).queued order fun patch _ => Nat.zero_le patch.range.start
  rw [apply, splice_eq (by rwa [Nat.zero_add]), edited_mergeSort h]

end Uncurry.Patch
