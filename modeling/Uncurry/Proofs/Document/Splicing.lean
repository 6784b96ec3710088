import Uncurry.Document.Patch

/-!
# What patches make of a source

`edited` says offset by offset what becomes of a source, whatever the order of the patches.
`apply_eq` finds that this is what splicing makes of it, for patches that stand one behind the other
once they are put in order.
-/
namespace Uncurry

/-- Whether a range takes in the character at an offset. -/
def Range.covers (range : Range) (offset : Nat) : Bool :=
  range.start ≤ offset && offset < range.stop

namespace Patch

/-- The texts that patches put in at an offset. -/
def textAt (patches : List Patch) (offset : Nat) : Text :=
  (patches.filter (·.range.start = offset)).flatMap text

/-- A source from some offset on, with a text put in where a range starts, without the characters
of the ranges and with all others as they are. -/
def edited (patches : List Patch) (offset : Nat) : Text → Text
  | [] => textAt patches offset
  | c :: rest =>
    textAt patches offset ++
      (if patches.any (·.range.covers offset) then [] else [c]) ++ edited patches (offset + 1) rest

/-- Patches stand one behind the other between two offsets. Only one of them starts in one place. -/
inductive Ascending (stop : Nat) : Nat → List Patch → Prop
  | nil (start : Nat) : Ascending stop start []
  | cons {start : Nat} {patch : Patch} {later : List Patch} :
      start ≤ patch.range.start → patch.range.start ≤ patch.range.stop →
      patch.range.stop ≤ stop →
      Ascending stop (max (patch.range.start + 1) patch.range.stop) later →
      Ascending stop start (patch :: later)

/-- Patches are queued between two offsets: none starts before the end of the one in front of it.
Several insertions may stand in one place. -/
inductive Queued (stop : Nat) : Nat → List Patch → Prop
  | nil (start : Nat) : Queued stop start []
  | cons {start : Nat} {patch : Patch} {later : List Patch} :
      start ≤ patch.range.start → patch.range.start ≤ patch.range.stop →
      patch.range.stop ≤ stop → Queued stop patch.range.stop later →
      Queued stop start (patch :: later)

variable {patches later sorted : List Patch} {patch : Patch} {start stop offset : Nat}
  {source rest : Text}

namespace Queued

theorem mono {start' : Nat} (h : Queued stop start patches) (le : start' ≤ start) :
    Queued stop start' patches := by
  cases h with
  | nil => exact .nil start'
  | cons first ranged last later => exact .cons (Nat.le_trans le first) ranged last later

theorem start_le (h : Queued stop start patches) :
    ∀ patch ∈ patches, start ≤ patch.range.start := by
  induction h with
  | nil => simp
  | cons first _ _ _ ih =>
    intro patch member
    rcases List.mem_cons.1 member with rfl | member
    · exact first
    · have := ih patch member
      omega

end Queued

namespace Ascending

theorem mono {start' : Nat} (h : Ascending stop start patches) (le : start' ≤ start) :
    Ascending stop start' patches := by
  cases h with
  | nil => exact .nil start'
  | cons first ranged last later => exact .cons (Nat.le_trans le first) ranged last later

theorem start_le (h : Ascending stop start patches) :
    ∀ patch ∈ patches, start ≤ patch.range.start := by
  induction h with
  | nil => simp
  | cons first _ _ _ ih =>
    intro patch member
    rcases List.mem_cons.1 member with rfl | member
    · exact first
    · have := ih patch member
      omega

/-- Patches one behind the other are queued. -/
theorem queued (h : Ascending stop start patches) : Queued stop start patches := by
  induction h with
  | nil start => exact .nil start
  | cons first ranged last _ ih => exact .cons first ranged last (ih.mono (Nat.le_max_right ..))

end Ascending

@[simp] theorem textAt_nil (offset : Nat) : textAt [] offset = [] := rfl

theorem textAt_cons (patch : Patch) (later : List Patch) (offset : Nat) :
    textAt (patch :: later) offset =
      (if patch.range.start = offset then patch.text else []) ++ textAt later offset := by
  by_cases h : patch.range.start = offset <;> simp [textAt, h]

theorem textAt_eq_nil (h : ∀ patch ∈ patches, patch.range.start ≠ offset) :
    textAt patches offset = [] := by
  rw [textAt, List.filter_eq_nil_iff.2 fun patch member => by simpa using h patch member]
  rfl

theorem covers_eq_false (h : ∀ patch ∈ patches, offset < patch.range.start) :
    patches.any (·.range.covers offset) = false := by
  refine List.any_eq_false.2 fun patch member => ?_
  have := h patch member
  simp only [Range.covers, Bool.and_eq_true, decide_eq_true_eq]
  omega

/-- In front of all patches nothing changes. -/
theorem edited_before (n : Nat) (within : n ≤ rest.length)
    (h : ∀ patch ∈ patches, offset + n ≤ patch.range.start) :
    edited patches offset rest =
      rest.take n ++ edited patches (offset + n) (rest.drop n) := by
  induction n generalizing offset rest with
  | zero => simp
  | succ n ih =>
    cases rest with
    | nil => cases within
    | cons c rest =>
      have none : textAt patches offset = [] := textAt_eq_nil fun patch member => by
        have := h patch member
        omega
      have uncovered : patches.any (·.range.covers offset) = false :=
        covers_eq_false fun patch member => by
          have := h patch member
          omega
      have further : edited patches (offset + 1) rest = _ :=
        ih (Nat.le_of_succ_le_succ within) fun patch member => by
          have := h patch member
          omega
      rw [edited, none, uncovered, further, Nat.add_right_comm]
      simp [Nat.add_assoc]

/-- Behind its range a patch does nothing. -/
theorem edited_behind (starts : patch.range.start < offset) (stops : patch.range.stop ≤ offset) :
    edited (patch :: later) offset rest = edited later offset rest := by
  induction rest generalizing offset with
  | nil => simp [edited, textAt_cons, (Nat.ne_of_lt starts)]
  | cons c rest ih =>
    have uncovered : patch.range.covers offset = false := by
      simp only [Range.covers, Bool.and_eq_false_iff, decide_eq_false_iff_not]
      omega
    rw [edited, edited, ih (by omega) (by omega), textAt_cons, if_neg (Nat.ne_of_lt starts),
      List.any_cons,
      uncovered]
    rfl

/-- The characters of a range are left out. -/
theorem edited_inside (starts : patch.range.start < offset) (stops : offset ≤ patch.range.stop)
    (within : patch.range.stop ≤ offset + rest.length)
    (h : ∀ other ∈ later, patch.range.stop ≤ other.range.start) :
    edited (patch :: later) offset rest =
      edited later patch.range.stop (rest.drop (patch.range.stop - offset)) := by
  induction rest generalizing offset with
  | nil =>
    obtain rfl : offset = patch.range.stop := by simp at within; omega
    simp [edited_behind starts (Nat.le_refl _)]
  | cons c rest ih =>
    rcases Nat.eq_or_lt_of_le stops with rfl | inside
    · simp [edited_behind starts (Nat.le_refl _)]
    · have covered : patch.range.covers offset = true := by
        simp only [Range.covers, Bool.and_eq_true, decide_eq_true_eq]
        omega
      have none : textAt later offset = [] := textAt_eq_nil fun other member => by
        have := h other member
        omega
      rw [edited, ih (by omega) (by omega) (by simp at within; omega), textAt_cons,
        if_neg (Nat.ne_of_lt starts), none, List.any_cons, covered]
      rw [show patch.range.stop - offset = patch.range.stop - (offset + 1) + 1 by omega]
      rfl

/-- Where a patch starts, its text takes the place of its range. -/
theorem edited_at (ranged : patch.range.start ≤ patch.range.stop)
    (within : patch.range.stop ≤ patch.range.start + rest.length)
    (h : ∀ other ∈ later, patch.range.stop ≤ other.range.start) :
    edited (patch :: later) patch.range.start rest =
      patch.text ++ edited later patch.range.stop
        (rest.drop (patch.range.stop - patch.range.start)) := by
  rcases Nat.eq_or_lt_of_le ranged with empty | inside
  · have bare : patch.range.covers patch.range.start = false := by
      simp only [Range.covers, Bool.and_eq_false_iff, decide_eq_false_iff_not]
      omega
    rw [← empty, Nat.sub_self, List.drop_zero]
    cases rest with
    | nil => rw [edited, edited, textAt_cons, if_pos rfl]
    | cons c rest =>
      rw [edited, edited, edited_behind (Nat.lt_succ_self _) (by omega), textAt_cons, if_pos rfl,
        List.any_cons, bare, Bool.false_or]
      simp only [List.append_assoc]
  · cases rest with
    | nil => simp at within; omega
    | cons c rest =>
      have none : textAt later patch.range.start = [] := textAt_eq_nil fun other member => by
        have := h other member
        omega
      have covered : patch.range.covers patch.range.start = true := by
        simp only [Range.covers, Bool.and_eq_true, decide_eq_true_eq]
        omega
      rw [edited, edited_inside (Nat.lt_succ_self _) inside (by simp at within; omega) h,
        textAt_cons, if_pos rfl, none, List.any_cons, covered,
        show patch.range.stop - patch.range.start =
          patch.range.stop - (patch.range.start + 1) + 1 by omega]
      simp

/-- A stretch in front of all patches is kept. -/
theorem edited_kept {stretch : Text}
    (h : ∀ patch ∈ patches, offset + stretch.length ≤ patch.range.start) :
    edited patches offset (stretch ++ rest) =
      stretch ++ edited patches (offset + stretch.length) rest := by
  rw [edited_before stretch.length (by simp) h, List.take_left, List.drop_left]

/-- The stretch of the first patch gives way to its text. -/
theorem edited_replaced {stretch : Text} (starts : patch.range.start = offset)
    (stops : patch.range.stop = offset + stretch.length)
    (h : ∀ other ∈ later, max (offset + 1) patch.range.stop ≤ other.range.start) :
    edited (patch :: later) offset (stretch ++ rest) =
      patch.text ++ edited later (offset + stretch.length) rest := by
  subst starts
  have ahead : ∀ other ∈ later, patch.range.stop ≤ other.range.start := fun other member =>
    Nat.le_trans (Nat.le_max_right ..) (h other member)
  rw [edited_at (by omega) (by rw [List.length_append]; omega) ahead, stops,
    Nat.add_sub_cancel_left, List.drop_left]

/-- Splicing edits a source where patches are queued. -/
theorem splice_eq (h : Queued (offset + rest.length) offset patches) :
    splice offset rest patches = .ok (edited patches offset rest) := by
  generalize hs : offset + rest.length = stop at h
  induction patches generalizing offset rest with
  | nil =>
    rw [splice, edited_before rest.length (Nat.le_refl _) (by simp)]
    simp [edited]
  | cons patch later ih =>
    cases h with
    | cons first ranged last above =>
    have kept : (rest.take (patch.range.start - offset)).length =
        patch.range.start - offset := by
      rw [List.length_take]
      omega
    have further : splice patch.range.stop (rest.drop (patch.range.stop - offset)) later = _ :=
      ih (by rw [List.length_drop]; omega) above
    have ahead : ∀ other ∈ patch :: later,
        offset + (patch.range.start - offset) ≤ other.range.start := by
      intro other member
      rcases List.mem_cons.1 member with rfl | member
      · omega
      · have := above.start_le other member
        omega
    rw [splice, if_neg (Nat.not_lt.2 first), further, edited_before _ (by omega) ahead,
      Nat.add_sub_cancel' first, edited_at ranged (by rw [List.length_drop]; omega) above.start_le,
      List.drop_drop, Nat.add_comm, Nat.sub_add_sub_cancel ranged first]
    simp [Except.map]

namespace Ascending

/-- Patches one behind the other are in order. -/
theorem pairwise_before (h : Ascending stop start patches) :
    patches.Pairwise fun a b => before a b = true := by
  induction h with
  | nil => exact .nil
  | cons _ _ _ above ih =>
    refine .cons (fun other member => ?_) ih
    have := above.start_le other member
    simp only [before, Bool.or_eq_true, decide_eq_true_eq]
    omega

/-- Patches one behind the other do not overlap. -/
theorem pairwise_apart (h : Ascending stop start patches) :
    patches.Pairwise fun a b => a.range.overlaps b.range = false := by
  induction h with
  | nil => exact .nil
  | cons _ ranged _ above ih =>
    refine .cons (fun other member => ?_) ih
    have := above.start_le other member
    simp only [Range.overlaps, Bool.and_eq_false_iff, decide_eq_false_iff_not]
    omega

/-- At most one patch starts in one place. -/
theorem starting_le_one (h : Ascending stop start patches) (offset : Nat) :
    (patches.filter (·.range.start = offset)).length ≤ 1 := by
  induction h with
  | nil => simp
  | @cons _ patch later _ _ _ above ih =>
    by_cases here : patch.range.start = offset
    · have rest : later.filter (·.range.start = offset) = [] := by
        refine List.filter_eq_nil_iff.2 fun other member => ?_
        have := above.start_le other member
        simp only [decide_eq_true_eq]
        omega
      simp [here, rest]
    · simpa [here] using ih

end Ascending

theorem before_trans (a b c : Patch) (h : before a b = true) (h' : before b c = true) :
    before a c = true := by
  simp only [before, Bool.or_eq_true, Bool.and_eq_true, decide_eq_true_eq] at h h' ⊢
  omega

theorem before_total (a b : Patch) : (before a b || before b a) = true := by
  simp only [before, Bool.or_eq_true, Bool.and_eq_true, decide_eq_true_eq]
  omega

theorem start_eq_of_before {a b : Patch} (h : before a b = true) (h' : before b a = true) :
    a.range.start = b.range.start := by
  simp only [before, Bool.or_eq_true, Bool.and_eq_true, decide_eq_true_eq] at h h'
  omega

/-- Patches one behind the other are told apart by where they start. -/
theorem Ascending.eq_of_start_eq (h : Ascending stop start patches) {a b : Patch}
    (ha : a ∈ patches) (hb : b ∈ patches) (same : a.range.start = b.range.start) : a = b := by
  have single := h.starting_le_one b.range.start
  have ha' : a ∈ patches.filter (·.range.start = b.range.start) :=
    List.mem_filter.2 ⟨ha, decide_eq_true same⟩
  have hb' : b ∈ patches.filter (·.range.start = b.range.start) :=
    List.mem_filter.2 ⟨hb, decide_eq_true rfl⟩
  generalize patches.filter (·.range.start = b.range.start) = starting at single ha' hb'
  match starting, single, ha', hb' with
  | [only], _, ha', hb' => rw [List.mem_singleton.1 ha', List.mem_singleton.1 hb']

/-- Sorting finds the order in which patches stand one behind the other. -/
theorem mergeSort_eq (perm : patches.Perm sorted) (h : Ascending stop start sorted) :
    patches.mergeSort before = sorted := by
  refine List.Perm.eq_of_pairwise (fun a b ha hb le le' => ?_)
    (List.pairwise_mergeSort before_trans before_total patches) h.pairwise_before
    ((List.mergeSort_perm patches before).trans perm)
  exact h.eq_of_start_eq (perm.mem_iff.1 (List.mem_mergeSort.1 ha)) hb (start_eq_of_before le le')

/-- Patches edit alike in any order if at most one of them starts in one place. -/
theorem edited_perm (perm : patches.Perm sorted)
    (single : ∀ offset, (sorted.filter (·.range.start = offset)).length ≤ 1) :
    edited patches offset rest = edited sorted offset rest := by
  have text (offset : Nat) : textAt patches offset = textAt sorted offset := by
    have filtered := perm.filter (·.range.start = offset)
    have few := single offset
    rw [textAt, textAt]
    generalize sorted.filter (·.range.start = offset) = starting at few filtered
    match starting, few, filtered with
    | [], _, filtered => rw [filtered.eq_nil]
    | [only], _, filtered => rw [filtered.eq_singleton]
  have covers (offset : Nat) :
      patches.any (·.range.covers offset) = sorted.any (·.range.covers offset) := by
    rw [Bool.eq_iff_iff, List.any_eq_true, List.any_eq_true]
    simp only [perm.mem_iff]
  induction rest generalizing offset with
  | nil => exact text offset
  | cons c rest ih => rw [edited, edited, text, covers, ih]

/-- Patches that stand one behind the other in some order are applied as recorded in any order. -/
theorem apply_eq (perm : patches.Perm sorted) (h : Ascending source.length 0 sorted) :
    apply source patches = .ok (edited patches 0 source) := by
  rw [apply, mergeSort_eq perm h, edited_perm perm h.starting_le_one]
  exact splice_eq (by rw [Nat.zero_add]; exact h.queued)

/-- A patch alone puts its text in the place of its range. -/
theorem apply_single (ranged : patch.range.start ≤ patch.range.stop)
    (within : patch.range.stop ≤ source.length) :
    apply source [patch] =
      .ok (source.take patch.range.start ++ (patch.text ++ source.drop patch.range.stop)) := by
  have kept (offset : Nat) (rest : Text) : edited [] offset rest = rest := by
    rw [edited_before rest.length (Nat.le_refl _) (by simp)]
    simp [edited]
  rw [apply_eq .rfl (.cons (Nat.zero_le _) ranged within (.nil _)),
    edited_before patch.range.start (Nat.le_trans ranged within) (by simp), Nat.zero_add,
    edited_at ranged (by rw [List.length_drop]; omega) (by simp), kept, List.drop_drop,
    Nat.add_sub_cancel' ranged]

/-- A patch is recorded if it overlaps no other one. -/
theorem add_eq (h : ∀ other ∈ patches, other.range.overlaps patch.range = false) :
    add patches patch = .ok (patches ++ [patch]) := by
  rw [add, List.find?_eq_none.2 fun other member => by simp [h other member]]

end Patch

end Uncurry
