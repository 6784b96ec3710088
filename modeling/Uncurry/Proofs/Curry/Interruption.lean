import Uncurry.Proofs.Curry.CallEdits
import Uncurry.Proofs.Document.Editing

/-!
# Where uncurrying stops

A call is uncurried by two edits, and what was done before a pass fails stays. `Outcome` says what
may become of a call; `uncurryCalls_stopped` says that wherever the pass stops, one call at most is
left between its two edits, and that nothing else is left over.
-/
namespace Uncurry

open Uncurry.Tree (Face face)

namespace Curry

variable {source : Text} {table : ArityTable} {document before after : Document} {call : NodeId}

/-- What may become of a call, with the patches recorded for it: nothing, or it is uncurried, or,
being the one that is broken, it has its new callee but still all its arguments. -/
inductive Outcome (table : ArityTable) (broken : Option NodeId) (before after : Document)
    (call : NodeId) : List Patch → Prop
  | untouched : face (after.callee call) = face (before.callee call) →
      after.arguments call = before.arguments call → Outcome table broken before after call []
  | uncurried {name : Text} {range removed : Range} :
      saturated? table (before.node call) = some name →
      after.CallsDirect before.nextId name call →
      after.arguments call = (before.arguments call).tail →
      Document.editable (before.callee call) = .ok range →
      Document.argumentRange ((before.node call).child 1).children 0 = .ok removed →
      Outcome table broken before after call [⟨range, direct name⟩, ⟨removed, []⟩]
  | halfway {name : Text} {range : Range} : broken = some call →
      saturated? table (before.node call) = some name →
      after.CallsDirect before.nextId name call →
      after.arguments call = before.arguments call →
      Document.editable (before.callee call) = .ok range →
      Outcome table broken before after call [⟨range, direct name⟩]

/-- A call that is saturated calls an identifier and has an identifier for its first argument. -/
theorem saturated?_eq_some {tree : DocumentTree} {name : Text}
    (full : saturated? table tree = some name) :
    (∃ word, (tree.child 0).identifier? = some word) ∧
      ((tree.child 1).children.getD 0 .missing).identifier? = some name := by
  simp only [saturated?, bind, Option.bind_eq_some_iff] at full
  obtain ⟨word, callee, _, _, name', value, _, _, is⟩ := full
  split at is
  · cases is
    exact ⟨⟨word, callee⟩, value⟩
  · cases is

theorem editable_congr {tree other : DocumentTree} {range : Range} (same : face tree = face other)
    (ranged : Document.editable tree = .ok range) : Document.editable other = .ok range := by
  have info : tree.info? = other.info? := congrArg (fun face : Face => face.2.2) same
  rw [Document.editable_eq_ok, Tree.range?] at ranged ⊢
  rw [← info]
  exact ranged

theorem argumentRange_congr {values others : List DocumentTree} {index : Nat} {range : Range}
    (same : values.map face = others.map face)
    (ranged : Document.argumentRange values index = .ok range) :
    Document.argumentRange others index = .ok range := by
  have length : values.length = others.length := by simpa using congrArg List.length same
  have at_index (i : Nat) : face (values.getD i .missing) = face (others.getD i .missing) := by
    have mapped := congrArg (List.getD · i (face .missing)) same
    rwa [List.getD_map, List.getD_map] at mapped
  unfold Document.argumentRange at ranged ⊢
  obtain ⟨own, is, ranged⟩ := Except.bind_eq_ok ranged
  rw [editable_congr (at_index index) is]
  change (if _ then _ else if _ then _ else _) = _
  rw [← length]
  split at ranged
  · rename_i more
    obtain ⟨next, is', ranged⟩ := Except.bind_eq_ok ranged
    rw [if_pos more, editable_congr (at_index (index + 1)) is']
    exact ranged
  · rename_i more
    rw [if_neg more]
    split at ranged
    · rename_i later
      obtain ⟨last, is', ranged⟩ := Except.bind_eq_ok ranged
      rw [if_pos later, editable_congr (at_index (index - 1)) is']
      exact ranged
    · rename_i later
      rw [if_neg later]
      exact ranged

variable {broken : Option NodeId} {patches : List Patch} {between : Document} {first : NodeId}

/-- What becomes of a call from some document on becomes of it from an earlier one on, if it was
spared in between. -/
theorem Outcome.of_earlier (h : Outcome table broken between after call patches)
    (spares : Document.Spares first call before between)
    (next_le : before.nextId ≤ between.nextId) :
    Outcome table broken before after call patches := by
  have full {name : Text} (is : saturated? table (between.node call) = some name) :
      saturated? table (before.node call) = some name :=
    (saturated?_congr spares.callee spares.arguments).symm.trans is
  have direct {name : Text} (is : after.CallsDirect between.nextId name call) :
      after.CallsDirect before.nextId name call :=
    ⟨is.reads, fun part member id same => Nat.le_trans next_le (is.brought part member id same)⟩
  cases h with
  | untouched callee arguments =>
    exact .untouched (callee.trans spares.callee) (arguments.trans spares.arguments)
  | uncurried is calls arguments range removed =>
    exact .uncurried (full is) (direct calls)
      (arguments.trans (congrArg List.tail spares.arguments)) (editable_congr spares.callee range)
      (argumentRange_congr spares.arguments removed)
  | halfway here is calls arguments range =>
    exact .halfway here (full is) (direct calls) (arguments.trans spares.arguments)
      (editable_congr spares.callee range)

/-- What became of a call stays so while it is spared. -/
theorem Outcome.to_later (h : Outcome table broken before between call patches)
    (spares : Document.Spares first call between after) (first_le : first ≤ before.nextId) :
    Outcome table broken before after call patches := by
  have direct {name : Text} (is : between.CallsDirect before.nextId name call) :
      after.CallsDirect before.nextId name call := by
    have same := spares.brought fun part member id numbered =>
      Nat.le_trans first_le (is.brought part member id numbered)
    exact ⟨same ▸ is.reads, same ▸ is.brought⟩
  cases h with
  | untouched callee arguments =>
    exact .untouched (spares.callee.trans callee) (spares.arguments.trans arguments)
  | uncurried is calls arguments range removed =>
    exact .uncurried is (direct calls) (spares.arguments.trans arguments) range removed
  | halfway here is calls arguments range =>
    exact .halfway here is (direct calls) (spares.arguments.trans arguments) range

/-- It does not matter which call is broken if none is. -/
theorem Outcome.of_none (h : Outcome table none before after call patches)
    (broken : Option NodeId) : Outcome table broken before after call patches := by
  cases h with
  | untouched callee arguments => exact .untouched callee arguments
  | uncurried is calls arguments range removed =>
    exact .uncurried is calls arguments range removed
  | halfway here => cases here

/-- Some calls have their outcomes, and no more has been done to the document. -/
structure Processed (source : Text) (table : ArityTable) (first : NodeId) (broken : Option NodeId)
    (document after : Document) (calls : List NodeId) (outcomes : List (List Patch)) : Prop where
  reached : Document.Reached source after
  progress : Document.Progress first calls document after
  recorded : after.patches = document.patches ++ outcomes.flatten
  outcomes : List.Forall₂ (Outcome table broken document after) calls outcomes

variable {calls more : List NodeId} {outcomes outcomes' : List (List Patch)}

theorem Processed.refl (reached : Document.Reached source document) (calls : List NodeId) :
    Processed source table first broken document document calls (calls.map fun _ => []) := by
  refine ⟨reached, .refl first calls document, by simp, ?_⟩
  rw [List.forall₂_map_right_iff, List.forall₂_same]
  exact fun call _ => .untouched rfl rfl

theorem Processed.of_none (h : Processed source table first none document after calls outcomes)
    (broken : Option NodeId) : Processed source table first broken document after calls outcomes :=
  ⟨h.reached, h.progress, h.recorded, h.outcomes.imp fun _ _ outcome => outcome.of_none broken⟩

/-- Further calls are met as they were found, and what became of the earlier ones stays so. -/
theorem Processed.append (h : Processed source table first broken document between calls outcomes)
    (h' : Processed source table first broken between after more outcomes')
    (labels : ∀ call ∈ calls ++ more, (document.node call).label? = some .call)
    (apart : calls.Disjoint more) (first_le : first ≤ document.nextId) :
    Processed source table first broken document after (calls ++ more) (outcomes ++ outcomes') := by
  have earlier (call : NodeId) (member : call ∈ calls) :
      Document.Spares first call between after :=
    h'.progress.spares call (fun other => apart member other)
      (h.progress.labels call (labels call (List.mem_append_left _ member)))
  have later (call : NodeId) (member : call ∈ more) :
      Document.Spares first call document between :=
    h.progress.spares call (fun other => apart other member)
      (labels call (List.mem_append_right _ member))
  refine ⟨h'.reached, h.progress.trans h'.progress, ?_, List.rel_append ?_ ?_⟩
  · rw [h'.recorded, h.recorded, List.flatten_append, List.append_assoc]
  · refine ((List.forall₂_and_left ..).2 ⟨earlier, h.outcomes⟩).imp fun call patches both => ?_
    exact both.2.to_later both.1 first_le
  · refine ((List.forall₂_and_left ..).2 ⟨later, h'.outcomes⟩).imp fun call patches both => ?_
    exact both.2.of_earlier both.1 h.progress.next_le

/-- A call is left broken only where the pass fails, because its first argument cannot be
removed. -/
def BreaksAt {α : Type} (result : Except Failure α) (after : Document) (broken : Option NodeId) :
    Prop :=
  ∀ call ∈ broken, ∃ error, result = .error (.edit error) ∧
    after.removeArgument ⟨call, []⟩ 0 = .error error

theorem BreaksAt.unbroken {α : Type} {result : Except Failure α} {after : Document} :
    BreaksAt result after none := fun _ same => by cases same

theorem BreaksAt.eq_none {α : Type} {a : α} {after : Document}
    (h : BreaksAt (.ok a) after broken) : broken = none := by
  cases broken with
  | none => rfl
  | some call =>
    obtain ⟨error, same, _⟩ := h call rfl
    cases same

theorem BreaksAt.of_error {α β : Type} {failure : Failure} {after : Document}
    (h : BreaksAt (.error failure : Except Failure α) after broken) :
    BreaksAt (.error failure : Except Failure β) after broken := by
  intro call same
  obtain ⟨error, is, refused⟩ := h call same
  cases is
  exact ⟨error, rfl, refused⟩

variable {workspace : Workspace} {path : NodePath} {paths : List NodePath}

/-- A call is left alone, or uncurried, or its callee is replaced and the pass stops. -/
theorem exists_processed (reached : Document.Reached source workspace.document)
    (stands : Document.Stands first workspace.document path.node.mark.id)
    (first_le : first ≤ workspace.document.nextId) : ∃ result after broken patches,
      (uncurryCall path).run workspace = (result, { workspace with document := after }) ∧
      Processed source workspace.table first broken workspace.document after [path.node.mark.id]
        [patches] ∧
      BreaksAt result after broken := by
  generalize at_call : path.node.mark.id = call at stands ⊢
  have at_place : (⟨call, []⟩ : Place) = ⟨path.node.mark.id, []⟩ := by rw [at_call]
  cases full : saturated? workspace.table (workspace.document.node call) with
  | none =>
    exact ⟨.ok false, workspace.document, none, [], run_uncurryCall_plain at_place full,
      .refl reached [call], .unbroken⟩
  | some name =>
    obtain ⟨⟨word, callee⟩, value⟩ := saturated?_eq_some full
    cases replaced : workspace.document.replaceCallee ⟨call, []⟩ (direct name) with
    | error failure =>
      exact ⟨.error failure, workspace.document, none, [],
        run_uncurryCall_refused at_place full replaced, .refl reached [call], .unbroken⟩
    | ok between =>
      obtain ⟨progress, calls, list, range, ranged, recorded⟩ :=
        reached.replaced stands first_le callee replaced
      have reached' := reached.replaceCallee replaced
      have arguments : between.arguments call = workspace.document.arguments call :=
        congrArg (fun list : DocumentTree => list.children.map face) list
      cases removed : between.removeArgument ⟨call, []⟩ 0 with
      | error error =>
        have halfway : Outcome workspace.table (some call) workspace.document between call _ :=
          .halfway rfl full calls arguments ranged
        refine ⟨.error (.edit error), between, some call, _,
          run_uncurryCall_halfway at_place full replaced removed,
          ⟨reached', progress, by simpa using recorded, .cons halfway .nil⟩, fun other same => ?_⟩
        obtain rfl := Option.some.inj same
        exact ⟨error, rfl, removed⟩
      | ok after =>
        have stands' : Document.Stands first between call :=
          ⟨progress.labels call stands.label, stands.call_lt, list ▸ stands.list_lt⟩
        have brought : ∀ part ∈ (between.callee call).parts, ∀ id ∈ part.id?, first ≤ id :=
          fun part member id same => Nat.le_trans first_le (calls.brought part member id same)
        obtain ⟨progress', callee', arguments', cut, cut_ranged, recorded'⟩ :=
          reached'.shortened stands' (Nat.le_trans first_le progress.next_le) brought (list ▸ value)
            removed
        have uncurried : Outcome workspace.table none workspace.document after call _ :=
          .uncurried full ⟨callee' ▸ calls.reads, callee' ▸ calls.brought⟩
            (arguments'.trans (congrArg List.tail arguments)) ranged (list ▸ cut_ranged)
        refine ⟨.ok true, after, none, _, run_uncurryCall_done at_place full replaced removed,
          ⟨reached'.removeArgument removed, (progress.trans progress').mono (by simp), ?_,
            .cons uncurried .nil⟩, .unbroken⟩
        rw [recorded', recorded, List.append_assoc]
        rfl

/-- Wherever the pass ends, every call has its outcome. -/
theorem exists_processed_all (reached : Document.Reached source workspace.document)
    (stands : ∀ path ∈ paths, Document.Stands first workspace.document path.node.mark.id)
    (first_le : first ≤ workspace.document.nextId)
    (apart : (paths.map (·.node.mark.id)).Nodup) : ∃ result after broken outcomes,
      (Pass.count uncurryCall paths).run workspace =
        (result, { workspace with document := after }) ∧
      Processed source workspace.table first broken workspace.document after
        (paths.map (·.node.mark.id)) outcomes ∧
      BreaksAt result after broken := by
  induction paths generalizing workspace with
  | nil => exact ⟨.ok 0, workspace.document, none, [], rfl, .refl reached [], .unbroken⟩
  | cons path paths ih =>
    have labels : ∀ call ∈ (path :: paths).map (·.node.mark.id),
        (workspace.document.node call).label? = some .call := by
      intro call member
      obtain ⟨found, inside, rfl⟩ := List.mem_map.1 member
      exact (stands found inside).label
    rw [List.map_cons, List.nodup_cons] at apart
    have disjoint : [path.node.mark.id].Disjoint (paths.map (·.node.mark.id)) := by
      simpa using apart.1
    obtain ⟨result, between, broken, patches, run, here, breaks⟩ :=
      exists_processed reached (stands path List.mem_cons_self) first_le
    cases result with
    | error failure =>
      refine ⟨.error failure, between, broken, _, ?_,
        here.append (.refl here.reached _) labels disjoint first_le, breaks.of_error⟩
      simp only [Pass.count, Pass.run_bind, run]
    | ok counted =>
      obtain rfl := breaks.eq_none
      have stands' : ∀ other ∈ paths, Document.Stands first between other.node.mark.id := by
        intro other member
        refine here.progress.stands (fun same => ?_) (stands other (List.mem_cons_of_mem _ member))
        exact disjoint same (List.mem_map_of_mem member)
      obtain ⟨result, after, broken, outcomes, run', later, breaks'⟩ :=
        @ih { workspace with document := between } here.reached stands'
          (Nat.le_trans first_le here.progress.next_le) apart.2
      have both := (here.of_none broken).append later labels disjoint first_le
      cases result with
      | error failure =>
        refine ⟨.error failure, after, broken, _, ?_, both, breaks'⟩
        simp only [Pass.count, Pass.run_bind, run, run']
      | ok count =>
        obtain rfl := breaks'.eq_none
        refine ⟨.ok (if counted then count + 1 else count), after, none, _, ?_, both, .unbroken⟩
        simp only [Pass.count, Pass.run_bind, run, run']
        rfl

/-- Where uncurrying stops, all calls have their outcomes. -/
theorem exists_processed_calls {log : List LogRecord} {failure : Failure} {after : Workspace}
    (reached : Document.Reached source document)
    (stopped : uncurryCalls.run ⟨document, table, log⟩ = (.error failure, after)) :
    ∃ broken outcomes,
      Processed source table document.nextId broken document after.document
        (document.calls.map (·.mark.id)) outcomes ∧
      BreaksAt (.error failure : Except Failure Nat) after.document broken := by
  have ids : document.calls.map (·.mark.id) = (document.find [.call]).map (·.node.mark.id) :=
    List.map_map
  obtain ⟨result, final, broken, outcomes, run, processed, breaks⟩ :=
    @exists_processed_all source document.nextId ⟨document, table, log⟩ (document.find [.call])
      reached (fun path found => reached.stands (List.mem_map_of_mem found)) (Nat.le_refl _)
      (ids ▸ reached.numbered.calls_nodup)
  rw [uncurryCalls] at stopped
  simp only [Pass.run_bind, Pass.run_document, run] at stopped
  cases result with
  | error failure' =>
    cases stopped
    exact ⟨broken, outcomes, ids ▸ processed, breaks⟩
  | ok count => cases stopped

/-- Wherever uncurrying stops, every call that there was is still in the tree and has its outcome,
and other calls come only with new callees. One call at most is broken, and if there is one, the
removal of its first argument is what failed. The patches that were recorded are those of the
outcomes, and merge with the source. -/
theorem uncurryCalls_stopped {log : List LogRecord} {failure : Failure} {after : Workspace}
    (reached : Document.Reached source document)
    (stopped : uncurryCalls.run ⟨document, table, log⟩ = (.error failure, after)) :
    ∃ broken outcomes,
      List.Forall₂ (Outcome table broken document after.document)
        (document.calls.map (·.mark.id)) outcomes ∧
      (∀ call ∈ broken, ∃ error, failure = .edit error ∧
        after.document.removeArgument ⟨call, []⟩ 0 = .error error) ∧
      document.calls ⊆ after.document.calls ∧
      (∀ ref ∈ after.document.calls, ref ∈ document.calls ∨ document.nextId ≤ ref.mark.id) ∧
      after.document.patches = document.patches ++ outcomes.flatten ∧
      after.document.toSource = .ok (Patch.merged after.document.patches 0 source) := by
  obtain ⟨broken, outcomes, processed, breaks⟩ := exists_processed_calls reached stopped
  refine ⟨broken, outcomes, processed.outcomes, fun call same => ?_, processed.progress.keeps,
    processed.progress.brings, processed.recorded, processed.reached.sound.toSource_eq⟩
  obtain ⟨error, is, refused⟩ := breaks call same
  exact ⟨error, Except.error.inj is, refused⟩

/-- A program with three calls, the second of which has an argument too many to be saturated. -/
def interrupted : Text := Text.ofString "A1(g, x); A2(f, a, b, c); A1(g, y);"

/-- Takes the argument in excess out of the second call of `interrupted`, which has number 8. -/
def shortening : Edit := .removeArgument ⟨8, []⟩ 1

/-- The functions that `interrupted` calls. -/
def applied : ArityTable :=
  (ArityTable.empty.record (Text.ofString "f") 2).record (Text.ofString "g") 1

theorem interrupted_run : (Document.parse interrupted).toOption.any (fun parsed =>
    let document := parsed.attempt shortening
    let ended := uncurryCalls.run ⟨document, applied, []⟩
    ended.1.toOption.isNone && document.calls.any (fun call => call.mark.id = 8) &&
      face (ended.2.document.callee 8) ≠ face (document.callee 8) &&
      ended.2.document.arguments 8 = document.arguments 8 &&
      (document.arguments 8).length = 3 &&
      Patch.merged ended.2.document.patches 0 interrupted =
        Text.ofString "g.f(x); f.f(f, b, c); A1(g, y);") = true := by
  decide +kernel

/-- The patch of the argument that was taken out is in the way of the first one, when the callee has
been replaced. -/
theorem exists_interrupted : ∃ document failure after,
    Document.Reached interrupted document ∧
    uncurryCalls.run ⟨document, applied, []⟩ = (.error failure, after) ∧
    8 ∈ document.calls.map (·.mark.id) ∧
    face (after.document.callee 8) ≠ face (document.callee 8) ∧
    after.document.arguments 8 = document.arguments 8 ∧ (document.arguments 8).length = 3 ∧
    Patch.merged after.document.patches 0 interrupted =
      Text.ofString "g.f(x); f.f(f, b, c); A1(g, y);" := by
  obtain ⟨parsed, read, run⟩ := (Option.any_eq_true _ _).1 interrupted_run
  have reached := Document.Reached.attempted shortening (.parsed (eq_ok_of_toOption read))
    fun _ given => by cases given
  dsimp only at run
  generalize parsed.attempt shortening = document at reached run
  rcases hr : uncurryCalls.run ⟨document, applied, []⟩ with ⟨result, after⟩
  rw [hr] at run
  simp only [Bool.and_eq_true, decide_eq_true_eq, List.any_eq_true] at run
  obtain ⟨⟨⟨⟨⟨failed, call, member, here⟩, callee⟩, arguments⟩, count⟩, text⟩ := run
  cases result with
  | ok count => cases failed
  | error failure =>
    exact ⟨document, failure, after, reached, hr, List.mem_map.2 ⟨call, member, here⟩, callee,
      arguments, count, text⟩

theorem uncurryCalls_stopped_interrupted : ∃ document failure after,
    Document.Reached interrupted document ∧
    uncurryCalls.run ⟨document, applied, []⟩ = (.error failure, after) ∧
    after.document.toSource = .ok (Text.ofString "g.f(x); f.f(f, b, c); A1(g, y);") := by
  obtain ⟨document, failure, after, reached, stopped, _, _, _, _, text⟩ := exists_interrupted
  obtain ⟨_, _, _, _, _, _, _, output⟩ := uncurryCalls_stopped reached stopped
  exact ⟨document, failure, after, reached, stopped, text ▸ output⟩

/-- It does happen that a call is left broken: with its new callee it still has all arguments, so it
is neither as it was nor uncurried. -/
theorem exists_halfway : ∃ document failure after call,
    Document.Reached interrupted document ∧
    uncurryCalls.run ⟨document, applied, []⟩ = (.error failure, after) ∧
    call ∈ document.calls.map (·.mark.id) ∧
    (∀ patches, ¬Outcome applied none document after.document call patches) ∧
    after.document.toSource = .ok (Text.ofString "g.f(x); f.f(f, b, c); A1(g, y);") := by
  obtain ⟨document, failure, after, reached, stopped, member, callee, arguments, count, text⟩ :=
    exists_interrupted
  obtain ⟨_, _, processed, _⟩ := exists_processed_calls reached stopped
  refine ⟨document, failure, after, 8, reached, stopped, member, fun patches outcome => ?_,
    text ▸ processed.reached.sound.toSource_eq⟩
  cases outcome with
  | untouched same => exact callee same
  | uncurried _ _ shorter =>
    have lengths := congrArg List.length (arguments.symm.trans shorter)
    rw [List.length_tail, count] at lengths
    omega
  | halfway here => cases here

end Curry

end Uncurry
