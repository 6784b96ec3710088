import Mathlib.Tactic.SplitIfs
import Uncurry.Command.Files

/-!
# Paths and simplified paths

A simplified path has the names of the path that are no idle steps. `walk_simplify` says that it
leads to where the path leads, and `find_tooLong` which paths are refused for their length.
-/
namespace Uncurry.Command

open FileSet (startOf)

variable {path name : Text} {c : CodePoint} {files : FileSet} {stand stand' : Stand}

/-- The character between names. -/
def slash : CodePoint := CodePoint.ofChar '/'

@[simp] theorem names_slash (rest : Text) : names (slash :: rest) = [] :: names rest := if_pos rfl

theorem names_ne_nil (path : Text) : names path ≠ [] := by
  cases path with
  | nil => simp [names]
  | cons c rest =>
    rw [names]
    split
    · simp
    · split <;> simp

/-- A character that is no slash belongs to the first name. -/
theorem names_cons (other : c ≠ slash) (rest : Text) :
    ∃ first later, names rest = first :: later ∧ names (c :: rest) = (c :: first) :: later := by
  obtain ⟨first, later, split⟩ := List.exists_cons_of_ne_nil (names_ne_nil rest)
  refine ⟨first, later, split, ?_⟩
  rw [names, split]
  exact if_neg other

/-- No name has a slash in it, and all its characters are in the path. -/
theorem of_mem_names (member : name ∈ names path) : slash ∉ name ∧ name ⊆ path := by
  induction path generalizing name with
  | nil =>
    rw [List.mem_singleton.1 member]
    exact ⟨List.not_mem_nil, List.nil_subset _⟩
  | cons c rest ih =>
    by_cases separates : c = slash
    · subst separates
      rw [names_slash] at member
      rcases List.mem_cons.1 member with rfl | member
      · exact ⟨List.not_mem_nil, List.nil_subset _⟩
      · exact (ih member).imp_right (List.subset_cons_of_subset _)
    · obtain ⟨first, later, split, names⟩ := names_cons separates rest
      rw [split] at ih
      rw [names] at member
      rcases List.mem_cons.1 member with rfl | member
      · obtain ⟨free, inside⟩ := ih List.mem_cons_self
        refine ⟨fun here => ?_, List.cons_subset_cons _ inside⟩
        rcases List.mem_cons.1 here with same | here
        · exact separates same.symm
        · exact free here
      · exact (ih (List.mem_cons_of_mem _ member)).imp_right (List.subset_cons_of_subset _)

theorem names_append (free : slash ∉ name) (rest : Text) :
    names (name ++ slash :: rest) = name :: names rest := by
  induction name with
  | nil => exact names_slash rest
  | cons c name ih =>
    obtain ⟨other, free⟩ := not_or.1 (mt List.mem_cons.2 free)
    obtain ⟨first, later, split, names⟩ := names_cons (Ne.symm other) (name ++ slash :: rest)
    rw [ih free] at split
    obtain ⟨rfl, rfl⟩ := List.cons.inj split
    exact names

theorem names_eq_singleton (free : slash ∉ name) : names name = [name] := by
  induction name with
  | nil => rfl
  | cons c name ih =>
    obtain ⟨other, free⟩ := not_or.1 (mt List.mem_cons.2 free)
    obtain ⟨first, later, split, names⟩ := names_cons (Ne.symm other) name
    rw [ih free] at split
    obtain ⟨rfl, rfl⟩ := List.cons.inj split
    exact names

@[simp] theorem joinNames_singleton (name : Text) : joinNames [name] = name := by
  simp [joinNames]

@[simp] theorem joinNames_cons (name other : Text) (later : List Text) :
    joinNames (name :: other :: later) = name ++ slash :: joinNames (other :: later) := by
  simp [joinNames, slash]

/-- The names of joined names are these again. -/
theorem names_joinNames {parts : List Text} (present : parts ≠ [])
    (free : ∀ name ∈ parts, slash ∉ name) : names (joinNames parts) = parts := by
  induction parts with
  | nil => exact absurd rfl present
  | cons name parts ih =>
    obtain ⟨own, others⟩ := List.forall_mem_cons.1 free
    cases parts with
    | nil => rw [joinNames_singleton, names_eq_singleton own]
    | cons other later =>
      rw [joinNames_cons, names_append own, ih (List.cons_ne_nil _ _) others]

theorem names_replicate (count : Nat) (rest : Text) :
    names (List.replicate count slash ++ rest) = List.replicate count [] ++ names rest := by
  induction count with
  | zero => rfl
  | succ count ih => rw [List.replicate_succ, List.cons_append, names_slash, ih]; rfl

@[simp] theorem byteLength_append (path rest : Text) :
    byteLength (path ++ rest) = byteLength path + byteLength rest := by
  induction path with
  | nil => simp [byteLength]
  | cons c path ih => simp [byteLength, ih, Nat.add_assoc]

theorem byteLength_slashes (count : Nat) : byteLength (List.replicate count slash) = count := by
  induction count with
  | zero => rfl
  | succ count ih =>
    rw [List.replicate_succ, byteLength, ih, show byteCount slash = 1 from rfl, Nat.add_comm]

/-- How many bytes some names take, each with a slash. -/
def slashedLength : List Text → Nat
  | [] => 0
  | name :: later => byteLength name + 1 + slashedLength later

theorem slashedLength_filter (keep : Text → Bool) (parts : List Text) :
    slashedLength (parts.filter keep) ≤ slashedLength parts := by
  induction parts with
  | nil => exact Nat.le_refl _
  | cons name parts ih =>
    rw [List.filter_cons]
    rw [slashedLength]
    split
    · rw [slashedLength]
      omega
    · omega

theorem slashedLength_names (path : Text) : slashedLength (names path) = byteLength path + 1 := by
  induction path with
  | nil => rfl
  | cons c rest ih =>
    by_cases separates : c = slash
    · subst separates
      rw [names_slash, slashedLength, ih, byteLength, byteLength, show byteCount slash = 1 from rfl]
      omega
    · obtain ⟨first, later, split, names⟩ := names_cons separates rest
      rw [split, slashedLength] at ih
      rw [names, slashedLength, byteLength, byteLength]
      omega

/-- The names of a path that are steps. -/
def stepsOf (path : Text) : List Text := (names path).filter (!isIdle ·)

/-- How many slashes a path starts with. -/
def leading (path : Text) : Nat := (path.takeWhile fun c => c = slash).length

theorem eq_leading (path : Text) :
    ∃ rest, path = List.replicate (leading path) slash ++ rest ∧ rest.head? ≠ some slash := by
  induction path with
  | nil => exact ⟨[], rfl, by simp⟩
  | cons c path ih =>
    by_cases separates : c = slash
    · subst separates
      obtain ⟨rest, split, starts⟩ := ih
      refine ⟨rest, ?_, starts⟩
      have more : leading (slash :: path) = leading path + 1 := by simp [leading]
      rw [more, List.replicate_succ, List.cons_append, ← split]
    · have none : leading (c :: path) = 0 := by simp [leading, separates]
      exact ⟨c :: path, by rw [none]; rfl, by simpa using separates⟩

/-- A simplified path keeps some of the slashes at the start of the path, if there are any. -/
theorem rootOf_eq (path : Text) : ∃ count, rootOf path = List.replicate count slash ∧
    count ≤ leading path ∧ (count = 0 ↔ leading path = 0) := by
  rw [rootOf]
  split
  · rename_i none
    have none : leading path = 0 := none
    exact ⟨0, rfl, Nat.zero_le _, by simp [none]⟩
  · rename_i two
    have two : leading path = 2 := two
    exact ⟨2, rfl, by omega, by omega⟩
  · rename_i absent _
    have absent : leading path ≠ 0 := absent
    exact ⟨1, rfl, Nat.one_le_iff_ne_zero.2 absent, by simpa using absent⟩

theorem of_mem_stepsOf (member : name ∈ stepsOf path) :
    slash ∉ name ∧ name ≠ [] ∧ name ⊆ path := by
  obtain ⟨inside, steps⟩ := List.mem_filter.1 member
  obtain ⟨free, subset⟩ := of_mem_names inside
  refine ⟨free, ?_, subset⟩
  rintro rfl
  cases steps

theorem joinNames_steps (present : stepsOf path ≠ []) :
    names (joinNames (stepsOf path)) = stepsOf path ∧ joinNames (stepsOf path) ≠ [] := by
  have again := names_joinNames present fun _ member => (of_mem_stepsOf member).1
  refine ⟨again, fun empty => ?_⟩
  rw [empty] at again
  exact (@of_mem_stepsOf path [] (again ▸ List.mem_singleton_self [])).2.1 rfl

/-- What a simplified path is: a point if there is nothing else, else slashes and the steps. -/
theorem simplify_eq (path : Text) : (leading path = 0 ∧ stepsOf path = [] ∧
      simplify path = Text.ofString ".") ∨
    (∃ count, count ≤ leading path ∧ (count = 0 ↔ leading path = 0) ∧
      (count = 0 → stepsOf path ≠ []) ∧
      simplify path = List.replicate count slash ++ joinNames (stepsOf path)) := by
  obtain ⟨count, root, le, zero⟩ := rootOf_eq path
  have form : simplify path =
      if (rootOf path ++ joinNames (stepsOf path)).isEmpty then Text.ofString "."
      else rootOf path ++ joinNames (stepsOf path) := rfl
  rw [form, root]
  by_cases steps : stepsOf path = []
  · rw [steps]
    cases count with
    | zero => exact .inl ⟨zero.1 rfl, rfl, rfl⟩
    | succ count => exact .inr ⟨count + 1, le, zero, by omega, by simp⟩
  · refine .inr ⟨count, le, zero, fun _ => steps, if_neg ?_⟩
    have := (joinNames_steps steps).2
    simp [List.isEmpty_iff, this]

/-- The names of a simplified path are some idle ones and the steps. -/
theorem names_simplify (path : Text) : ∃ idle, (∀ name ∈ idle, isIdle name = true) ∧
    names (simplify path) = idle ++ stepsOf path := by
  rcases simplify_eq path with ⟨_, steps, simple⟩ | ⟨count, _, _, _, simple⟩
  · exact ⟨[Text.ofString "."], by decide, by rw [steps, simple]; decide⟩
  rw [simple, names_replicate]
  have idle : ∀ name ∈ List.replicate count ([] : Text), isIdle name = true :=
    fun name member => by rw [List.eq_of_mem_replicate member]; rfl
  by_cases steps : stepsOf path = []
  · refine ⟨List.replicate count [] ++ [[]], List.forall_mem_append.2 ⟨idle, by decide⟩, ?_⟩
    rw [steps, List.append_nil]
    rfl
  · exact ⟨_, idle, by rw [(joinNames_steps steps).1]⟩

theorem head_joinNames {parts : List Text} (free : ∀ name ∈ parts, slash ∉ name ∧ name ≠ []) :
    (joinNames parts).head? ≠ some slash := by
  have starts {first : Text} (known : slash ∉ first ∧ first ≠ []) (rest : Text) :
      (first ++ rest).head? ≠ some slash := by
    obtain ⟨c, first, rfl⟩ := List.exists_cons_of_ne_nil known.2
    simpa using fun same : c = slash => known.1 (same ▸ List.mem_cons_self)
  cases parts with
  | nil => simp [joinNames]
  | cons first later =>
    have known := free first List.mem_cons_self
    cases later with
    | nil =>
      rw [joinNames_singleton, ← List.append_nil first]
      exact starts known []
    | cons => exact joinNames_cons .. ▸ starts known _

/-- A path starts with a slash if it has leading ones. -/
theorem startOf_eq (path : Text) :
    startOf path = if leading path = 0 then .inside [] else .outside := by
  obtain ⟨rest, split, starts⟩ := eq_leading path
  rw [startOf]
  cases count : leading path with
  | zero =>
    rw [count] at split
    rw [split]
    exact if_neg starts
  | succ count' =>
    rw [count] at split
    rw [split]
    rfl

theorem startOf_simplify (path : Text) : startOf (simplify path) = startOf path := by
  rw [startOf_eq path]
  rcases simplify_eq path with ⟨none, _, simple⟩ | ⟨count, _, zero, _, simple⟩
  · rw [none, simple]
    decide
  rw [simple, startOf]
  cases count with
  | zero =>
    have free := head_joinNames fun name (member : name ∈ stepsOf path) =>
      have known := of_mem_stepsOf member
      ⟨known.1, known.2.1⟩
    rw [if_pos (zero.1 rfl)]
    exact if_neg free
  | succ count =>
    rw [if_neg fun none => Nat.succ_ne_zero count (zero.2 none)]
    rfl

theorem byteLength_simplify (present : path ≠ []) :
    byteLength (simplify path) ≤ byteLength path := by
  obtain ⟨rest, split, _⟩ := eq_leading path
  have whole : byteLength path = leading path + byteLength rest := by
    have := congrArg byteLength split
    rwa [byteLength_append, byteLength_slashes] at this
  have steps : stepsOf path = stepsOf rest := by
    have idle : (List.replicate (leading path) ([] : Text)).filter (!isIdle ·) = [] := by
      simp [isIdle]
    have := congrArg stepsOf split
    rwa [stepsOf, stepsOf, names_replicate, List.filter_append, idle, List.nil_append] at this
  have fewer := slashedLength_filter (!isIdle ·) (names rest)
  rw [slashedLength_names] at fewer
  rcases simplify_eq path with ⟨_, _, simple⟩ | ⟨count, le, _, some, simple⟩
  · obtain ⟨c, path, rfl⟩ := List.exists_cons_of_ne_nil present
    have : 0 < byteCount c := by rw [byteCount]; split_ifs <;> omega
    rw [simple, byteLength]
    show 1 ≤ _
    omega
  rw [simple, byteLength_append, byteLength_slashes, whole]
  by_cases none : stepsOf path = []
  · rw [none]
    show count + 0 ≤ _
    omega
  · have joined := slashedLength_names (joinNames (stepsOf path))
    rw [(joinNames_steps none).1, steps] at joined
    change slashedLength (stepsOf rest) ≤ _ at fewer
    rw [steps]
    omega

theorem mem_joinNames {parts : List Text} (member : c ∈ joinNames parts) :
    c = slash ∨ ∃ name ∈ parts, c ∈ name := by
  induction parts with
  | nil => simp [joinNames] at member
  | cons name parts ih =>
    cases parts with
    | nil => exact .inr ⟨name, List.mem_cons_self, joinNames_singleton name ▸ member⟩
    | cons other later =>
      rw [joinNames_cons] at member
      rcases List.mem_append.1 member with here | member
      · exact .inr ⟨name, List.mem_cons_self, here⟩
      rcases List.mem_cons.1 member with rfl | member
      · exact .inl rfl
      · obtain same | ⟨name, inside, there⟩ := ih member
        · exact .inl same
        · exact .inr ⟨name, List.mem_cons_of_mem _ inside, there⟩

theorem mem_simplify (member : c ∈ simplify path) :
    c = slash ∨ c = CodePoint.ofChar '.' ∨ c ∈ path := by
  rcases simplify_eq path with ⟨_, _, simple⟩ | ⟨count, _, _, _, simple⟩
  · rw [simple] at member
    exact .inr (.inl (List.mem_singleton.1 member))
  · rw [simple] at member
    rcases List.mem_append.1 member with root | member
    · exact .inl (List.eq_of_mem_replicate root)
    · obtain same | ⟨name, inside, there⟩ := mem_joinNames member
      · exact .inl same
      · exact .inr (.inr ((of_mem_stepsOf inside).2.2 there))

theorem simplify_ne_nil (path : Text) : simplify path ≠ [] := by
  rw [simplify]
  split
  · decide
  · rename_i present
    exact fun none => present (none ▸ rfl)

/-- Simplifying makes no fault of spelling. -/
theorem spellingFault?_simplify (sound : spellingFault? path = none) :
    spellingFault? (simplify path) = none := by
  rw [spellingFault?] at sound
  split_ifs at sound with null empty long
  have present : path ≠ [] := fun none => empty (none ▸ rfl)
  have short := byteLength_simplify present
  rw [spellingFault?, if_neg, if_neg, if_neg (by omega)]
  · simpa [List.isEmpty_iff] using simplify_ne_nil path
  · intro null'
    obtain ⟨c, member, zero⟩ := List.any_eq_true.1 null'
    rcases mem_simplify member with rfl | rfl | inside
    · revert zero
      decide
    · revert zero
      decide
    · exact null (List.any_eq_true.2 ⟨c, inside, zero⟩)

/-- Idle names are no step, but from a file not even they lead anywhere. -/
theorem step_idle (idle : isIdle name = true) (ok : files.step stand name = .ok stand') :
    stand' = stand := by
  cases stand with
  | atFile => cases ok
  | outside => simpa [FileSet.step, idle] using ok.symm
  | inside down => simpa [FileSet.step, idle] using ok.symm

theorem foldlM_steps {parts : List Text} (ok : parts.foldlM files.step stand = .ok stand') :
    (parts.filter (!isIdle ·)).foldlM files.step stand = .ok stand' := by
  induction parts generalizing stand with
  | nil => exact ok
  | cons name parts ih =>
    rw [List.foldlM_cons] at ok
    cases first : files.step stand name with
    | error fault =>
      rw [first] at ok
      cases ok
    | ok next =>
      rw [first] at ok
      have later := ih ok
      by_cases idle : isIdle name = true
      · rw [List.filter_cons_of_neg (by simp [idle]), ← step_idle idle first]
        exact later
      · rw [List.filter_cons_of_pos (by simpa using idle), List.foldlM_cons, first]
        exact later

/-- Idle names lead nowhere else, unless from a file. -/
theorem foldlM_idle {parts : List Text} (idle : ∀ name ∈ parts, isIdle name = true)
    (start : ∀ path, stand ≠ .atFile path) : parts.foldlM files.step stand = .ok stand := by
  induction parts with
  | nil => rfl
  | cons name parts ih =>
    obtain ⟨own, others⟩ := List.forall_mem_cons.1 idle
    have stays : files.step stand name = .ok stand := by
      cases stand with
      | atFile path => exact absurd rfl (start path)
      | outside => simp [FileSet.step, own]
      | inside down => simp [FileSet.step, own]
    rw [List.foldlM_cons, stays]
    exact ih others

theorem startOf_ne_atFile (path found : Text) : startOf path ≠ .atFile found := by
  rw [startOf_eq]
  split <;> simp

/-- A walk along a simplified path goes the steps of the path. -/
theorem walk_simplify_eq (files : FileSet) (path : Text) : files.walk (simplify path) =
    match spellingFault? (simplify path) with
    | some fault => .error fault
    | none => (stepsOf path).foldlM files.step (startOf path) := by
  obtain ⟨idle, all, names⟩ := names_simplify path
  rw [FileSet.walk, names, List.foldlM_append, startOf_simplify,
    foldlM_idle all (startOf_ne_atFile path)]
  rfl

/-- Where a path leads, there its simplified form leads too. -/
theorem walk_simplify (ok : files.walk path = .ok stand) :
    files.walk (simplify path) = .ok stand := by
  rw [FileSet.walk] at ok
  cases sound : spellingFault? path with
  | some fault =>
    rw [sound] at ok
    cases ok
  | none =>
    rw [sound] at ok
    rw [walk_simplify_eq, spellingFault?_simplify sound]
    exact foldlM_steps ok

/-- A step is refused for its length only if the name has more than 255 bytes. -/
theorem step_tooLong (refused : files.step stand name = .error .tooLong) :
    255 < byteLength name := by
  cases stand with
  | atFile => cases refused
  | outside =>
    rw [FileSet.step] at refused
    split_ifs at refused with _ long
    · exact long
    · cases refused
  | inside down =>
    simp only [FileSet.step] at refused
    split_ifs at refused with _ _ long
    · exact long
    · cases refused

theorem foldlM_tooLong {parts : List Text}
    (refused : parts.foldlM files.step stand = .error .tooLong) :
    ∃ name ∈ parts, 255 < byteLength name := by
  induction parts generalizing stand with
  | nil => cases refused
  | cons name parts ih =>
    rw [List.foldlM_cons] at refused
    cases first : files.step stand name with
    | error fault =>
      rw [first] at refused
      cases refused
      exact ⟨name, List.mem_cons_self, step_tooLong first⟩
    | ok next =>
      rw [first] at refused
      obtain ⟨name, member, long⟩ := ih refused
      exact ⟨name, List.mem_cons_of_mem _ member, long⟩

theorem find_eq_error {fault : PathFault} :
    files.find path = .error fault ↔ files.walk path = .error fault := by
  rw [FileSet.find]
  cases files.walk path with
  | error other => exact ⟨fun h => Except.error.inj h ▸ rfl, fun h => Except.error.inj h ▸ rfl⟩
  | ok stand => cases stand <;> exact ⟨nofun, nofun⟩

/-- A text is refused for its length as a path only if a name in it has more than 255 bytes or all
of it at least 4096. -/
theorem find_tooLong (refused : files.find (simplify path) = .error .tooLong)
    (present : path ≠ []) :
    (∃ name ∈ names path, 255 < byteLength name) ∨ 4096 ≤ byteLength path := by
  rw [find_eq_error, walk_simplify_eq] at refused
  cases sound : spellingFault? (simplify path) with
  | none =>
    rw [sound] at refused
    obtain ⟨name, member, long⟩ := foldlM_tooLong refused
    exact .inl ⟨name, (List.mem_filter.1 member).1, long⟩
  | some fault =>
    rw [sound] at refused
    cases refused
    rw [spellingFault?] at sound
    split_ifs at sound with null empty long
    · cases sound
    · cases sound
    · exact .inr (Nat.le_trans long (byteLength_simplify present))

/-- A text of one name is refused as soon as it has more than 255 bytes, whatever files there
are. -/
theorem find_long (files : FileSet) (free : slash ∉ path) (null : ∀ c ∈ path, c.val ≠ 0)
    (long : 255 < byteLength path) : files.find (simplify path) = .error .tooLong := by
  have busy : isIdle path = false := Bool.eq_false_iff.2 fun idle => by
    rw [isIdle, Bool.or_eq_true, List.isEmpty_iff, decide_eq_true_iff] at idle
    rcases idle with rfl | rfl <;> revert long <;> decide
  have parent : path ≠ Text.ofString ".." := by
    rintro rfl
    revert long
    decide
  have one : stepsOf path = [path] := by
    rw [stepsOf, names_eq_singleton free, List.filter_cons_of_pos (by simp [busy])]
    rfl
  have start : startOf path = .inside [] := if_neg fun head =>
    free (List.mem_of_mem_head? (Option.mem_def.2 head))
  have simple : simplify path = path := by
    rcases simplify_eq path with ⟨_, none, _⟩ | ⟨count, _, zero, _, simple⟩
    · rw [one] at none
      cases none
    · have none : leading path = 0 := by
        have begins := startOf_eq path
        rw [start] at begins
        split_ifs at begins with none
        exact none
      rw [simple, one, zero.2 none, joinNames_singleton]
      rfl
  rw [find_eq_error, walk_simplify_eq, simple]
  cases sound : spellingFault? path with
  | some fault =>
    rw [spellingFault?] at sound
    split_ifs at sound with zero empty
    · obtain ⟨c, member, value⟩ := List.any_eq_true.1 zero
      exact absurd (of_decide_eq_true value) (null c member)
    · rw [List.isEmpty_iff.1 empty] at long
      cases long
    · cases sound
      rfl
  | none =>
    have step : files.step (.inside []) path = .error .tooLong := by
      simp [FileSet.step, busy, parent, long]
    rw [one, start]
    show (List.foldlM files.step (.inside []) [path]) = _
    rw [List.foldlM_cons, step]
    rfl

end Uncurry.Command
