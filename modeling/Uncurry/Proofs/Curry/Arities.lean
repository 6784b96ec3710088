import Uncurry.Proofs.Curry.Binders

/-!
# What arity tables remember

The passes that write to an arity table can be run again and again, on a document that is edited in
between. `arities_written` says what the table is worth then, by the arities that were written to it
alone: it lists the names in the order in which they came, each with the last arity that it was
given, and its conflicts lead each name from its first arity to the last one.
-/
namespace Uncurry

/-- The arities written for a name, in order. -/
def writtenFor (name : Text) (writes : List (Text × Int)) : List Int :=
  (writes.filter (·.1 = name)).map (·.2)

section

variable {name other : Text} {arity : Int} {writes more : List (Text × Int)}

theorem writtenFor_append :
    writtenFor name (writes ++ more) = writtenFor name writes ++ writtenFor name more := by
  simp [writtenFor]

theorem writtenFor_self : writtenFor name [(name, arity)] = [arity] := by
  simp [writtenFor]

theorem writtenFor_ne (ne : other ≠ name) : writtenFor other [(name, arity)] = [] := by
  simp [writtenFor, ne.symm]

end

namespace ArityConflict

variable {name : Text} {first last old new : Int} {arities : List Int}

/-- The changes from each arity to the next one, where they are different. -/
def changes (name : Text) : List Int → List ArityConflict
  | old :: new :: later =>
    if old = new then changes name (new :: later)
    else ⟨name, old, new⟩ :: changes name (new :: later)
  | _ => []

/-- Conflicts that lead a name from one arity to another, each from where the one before it led and
to a different arity. -/
inductive Leads (name : Text) : Int → List ArityConflict → Int → Prop
  | nowhere (arity : Int) : Leads name arity [] arity
  | change {old new last : Int} {later : List ArityConflict} : old ≠ new →
      Leads name new later last → Leads name old (⟨name, old, new⟩ :: later) last

/-- One more arity is a change from the last one before it, if it is different. -/
theorem changes_concat (latest : arities.getLast? = some old) :
    changes name (arities ++ [new]) =
      changes name arities ++ if old = new then [] else [⟨name, old, new⟩] := by
  induction arities with
  | nil => cases latest
  | cons arity arities ih =>
    cases arities with
    | nil =>
      cases latest
      rfl
    | cons next later =>
      rw [List.getLast?_cons_cons] at latest
      have rest := ih latest
      simp only [List.cons_append, changes] at rest ⊢
      split
      · exact rest
      · rw [rest, List.cons_append]

/-- The changes lead from the first arity to the last. -/
theorem leads_changes (latest : (first :: arities).getLast? = some last) :
    Leads name first (changes name (first :: arities)) last := by
  induction arities generalizing first with
  | nil =>
    cases latest
    exact .nowhere first
  | cons next later ih =>
    rw [List.getLast?_cons_cons] at latest
    rw [changes]
    split
    · rename_i same
      subst same
      exact ih latest
    · rename_i different
      exact .change different (ih latest)

/-- Nothing changes just if all arities agree. -/
theorem changes_eq_nil :
    changes name (first :: arities) = [] ↔ ∀ arity ∈ arities, arity = first := by
  induction arities generalizing first with
  | nil => simp [changes]
  | cons next later ih =>
    rw [changes]
    split
    · rename_i same
      subst same
      simp [ih]
    · rename_i different
      simp [Ne.symm different]

end ArityConflict

namespace ArityTable

variable {table : ArityTable} {name other : Text} {arity : Int} {writes more : List (Text × Int)}

/-- The names in a table, in its order. -/
def names (table : ArityTable) : List Text := table.entries.map (·.1)

/-- The conflicts of a name, in order. -/
def conflictsOf (table : ArityTable) (name : Text) : List ArityConflict :=
  table.conflicts.filter (·.name = name)

/-- A table is what some writes make of an empty one. -/
structure Accounts (table : ArityTable) (writes : List (Text × Int)) : Prop where
  names_eq : table.names = (writes.map (·.1)).eraseDups
  get?_eq : ∀ name, table.get? name = (writtenFor name writes).getLast?
  conflicts_eq : ∀ name,
    table.conflictsOf name = ArityConflict.changes name (writtenFor name writes)

theorem accounts_empty : empty.Accounts [] := ⟨rfl, fun _ => rfl, fun _ => rfl⟩

/-- A name that is in a table keeps its place. -/
theorem names_record_known (known : name ∈ table.names) :
    (table.record name arity).names = table.names := by
  simp only [names, record] at known ⊢
  generalize table.entries = entries at known ⊢
  induction entries with
  | nil => cases known
  | cons entry entries ih =>
    by_cases same : entry.1 = name
    · simp [put, same]
    · simp only [List.map_cons, List.mem_cons, Ne.symm same, false_or] at known
      simp [put, same, ih known]

/-- A name that is new to a table comes last. -/
theorem names_record_new (unknown : name ∉ table.names) :
    (table.record name arity).names = table.names ++ [name] := by
  simp only [names, record] at unknown ⊢
  generalize table.entries = entries at unknown ⊢
  induction entries with
  | nil => rfl
  | cons entry entries ih =>
    simp only [List.map_cons, List.mem_cons, not_or] at unknown
    simp [put, Ne.symm unknown.1, ih unknown.2]

theorem conflictsOf_record_self : (table.record name arity).conflictsOf name =
    table.conflictsOf name ++ (table.conflict? name arity).toList := by
  rw [conflictsOf, record, List.filter_append, conflict?, conflictsOf]
  cases table.get? name with
  | none => simp
  | some old => by_cases same : old = arity <;> simp [same]

theorem conflictsOf_record_ne (ne : other ≠ name) :
    (table.record name arity).conflictsOf other = table.conflictsOf other := by
  rw [conflictsOf, record, List.filter_append, conflict?, conflictsOf]
  cases table.get? name with
  | none => simp
  | some old => by_cases same : old = arity <;> simp [same, ne.symm]

/-- One more write is accounted for when it is recorded. -/
theorem Accounts.record (h : table.Accounts writes) (name : Text) (arity : Int) :
    (table.record name arity).Accounts (writes ++ [(name, arity)]) where
  names_eq := by
    have known : name ∈ table.names ↔ name ∈ writes.map (·.1) := by
      rw [h.names_eq, List.mem_eraseDups]
    rw [List.map_append, List.eraseDups_append, ← h.names_eq]
    by_cases member : name ∈ writes.map (·.1)
    · simp [names_record_known (known.2 member), List.removeAll, member]
    · simp [names_record_new (mt known.1 member), List.removeAll, member, List.eraseDups_cons]
  get?_eq other := by
    rw [writtenFor_append]
    by_cases same : other = name
    · subst same
      rw [get?_record_self, writtenFor_self, List.getLast?_concat]
    · rw [get?_record_of_ne _ _ same, writtenFor_ne same, List.append_nil, h.get?_eq]
  conflicts_eq other := by
    rw [writtenFor_append]
    by_cases same : other = name
    · subst same
      rw [conflictsOf_record_self, h.conflicts_eq, conflict?, h.get?_eq, writtenFor_self]
      cases latest : (writtenFor other writes).getLast? with
      | none => simp [List.getLast?_eq_none_iff.1 latest, ArityConflict.changes]
      | some old =>
        rw [ArityConflict.changes_concat latest]
        by_cases same : old = arity <;> simp [same]
    · rw [conflictsOf_record_ne same, writtenFor_ne same, List.append_nil, h.conflicts_eq]

end ArityTable

namespace Pass

variable {α β : Type}

/-- A pass leaves the table alone, whether it fails or not. -/
def Unrecording (pass : Pass α) : Prop :=
  ∀ table, pass.Maintains fun workspace => workspace.table = table

namespace Unrecording

theorem pure (a : α) : (Pure.pure a : Pass α).Unrecording := fun _ => .pure a

theorem bind {pass : Pass α} {next : α → Pass β} (h : pass.Unrecording)
    (h' : ∀ a, (next a).Unrecording) : (pass >>= next).Unrecording :=
  fun table => .bind (h table) fun a => h' a table

theorem count {step : α → Pass Bool} {items : List α} (h : ∀ item, (step item).Unrecording) :
    (Pass.count step items).Unrecording :=
  fun table => .count fun item _ => h item table

theorem document : Pass.document.Unrecording := fun _ _ same => same

theorem table : Pass.table.Unrecording := fun _ _ same => same

theorem log (level : LogLevel) (logger : Logger) (message : Text) :
    (Pass.log level logger message).Unrecording := fun _ _ same => same

theorem ofEditor (path? : Option NodePath) (editor : Editor α) :
    (Pass.ofEditor path? editor).Unrecording := fun _ _ same => same

theorem replaceCallee (place : Place) (callee : Text) :
    (Pass.replaceCallee place callee).Unrecording :=
  .bind (.ofEditor _ _) fun _ => .pure ()

theorem removeArgument (place : Place) (index : Int) :
    (Pass.removeArgument place index).Unrecording :=
  .bind (.ofEditor _ _) fun _ => .pure ()

theorem insertBefore (path : NodePath) (snippet : Text) :
    (Pass.insertBefore path snippet).Unrecording :=
  .bind (.ofEditor _ _) fun _ => .bind (.log _ _ _) fun _ => .bind .document fun _ => .pure _

end Unrecording

/-- Where the table accounts for what was written before, a pass writes some more arities, and it
leaves the document alone. -/
def Writes (pass : Pass α) (before written : List (Text × Int)) : Prop :=
  ∀ workspace : Workspace, workspace.table.Accounts before → ∃ a table log,
    pass.run workspace = (.ok a, ⟨workspace.document, table, log⟩) ∧
      table.Accounts (before ++ written)

namespace Writes

variable {before written more : List (Text × Int)}

/-- A pass that leaves the table alone too writes nothing. -/
theorem nothing {pass : Pass α} (h : ∀ workspace, ∃ a log,
    pass.run workspace = (.ok a, ⟨workspace.document, workspace.table, log⟩)) :
    pass.Writes before [] := by
  intro workspace known
  obtain ⟨a, log, run⟩ := h workspace
  exact ⟨a, workspace.table, log, run, (List.append_nil before).symm ▸ known⟩

theorem pure (a : α) : (Pure.pure a : Pass α).Writes before [] := nothing fun _ => ⟨_, _, rfl⟩

theorem logCount (start : String) (count : Nat) (stop : String) :
    (Pass.logCount start count stop).Writes before [] := nothing fun _ => ⟨_, _, rfl⟩

theorem table : Pass.table.Writes before [] := nothing fun _ => ⟨_, _, rfl⟩

theorem record (name : Text) (arity : Int) :
    (Pass.record name arity).Writes before [(name, arity)] := fun workspace known => by
  obtain ⟨log, run⟩ := run_record name arity workspace
  exact ⟨(), _, log, run, known.record name arity⟩

theorem bind {pass : Pass α} {next : α → Pass β} (h : pass.Writes before written)
    (h' : ∀ a, (next a).Writes (before ++ written) more) :
    (pass >>= next).Writes before (written ++ more) := by
  intro workspace known
  obtain ⟨a, table, log, run, known'⟩ := h workspace known
  obtain ⟨b, table', log', run', known''⟩ := h' a ⟨workspace.document, table, log⟩ known'
  refine ⟨b, table', log', ?_, List.append_assoc .. ▸ known''⟩
  rw [run_bind, run]
  exact run'

/-- What is done last and writes nothing does not count. -/
theorem bind_nothing {pass : Pass α} {next : α → Pass β} (h : pass.Writes before written)
    (h' : ∀ a, (next a).Writes (before ++ written) []) : (pass >>= next).Writes before written :=
  List.append_nil written ▸ h.bind h'

theorem forM {step : α → Pass Unit} {write : α → Text × Int}
    (h : ∀ item before, (step item).Writes before [write item]) (items : List α) :
    (items.forM step).Writes before (items.map write) := by
  induction items generalizing before with
  | nil => exact pure ()
  | cons item items ih => exact (h item before).bind fun _ => ih

end Writes

end Pass

namespace Curry

variable {before : List (Text × Int)} {workspace : Workspace}

/-- What is written for an alias: the last arity that was written for the name it stands for, if
there is one. -/
def aliasWrite (before : List (Text × Int)) (binding : Text × Text) : List (Text × Int) :=
  ((writtenFor binding.2 before).getLast?.map fun arity => (binding.1, arity)).toList

/-- What is written for some aliases, one after the other. -/
def aliasWrites (before : List (Text × Int)) : List (Text × Text) → List (Text × Int)
  | [] => []
  | binding :: later =>
    let own := aliasWrite before binding
    own ++ aliasWrites (before ++ own) later

theorem recordAlias_writes (name target : Text) :
    (recordAlias name target).Writes before (aliasWrite before (name, target)) := by
  intro workspace known
  rw [recordAlias, Pass.run_bind, Pass.run_table, aliasWrite, ← known.get?_eq target]
  dsimp only
  cases workspace.table.get? target with
  | none => exact Pass.Writes.pure false workspace known
  | some arity =>
    exact Pass.Writes.bind_nothing (.record name arity) (fun _ => .pure true) workspace known

theorem count_recordAlias_writes (bindings : List (Text × Text)) :
    (Pass.count (fun binding => recordAlias binding.1 binding.2) bindings).Writes before
      (aliasWrites before bindings) := by
  induction bindings generalizing before with
  | nil => exact .pure 0
  | cons binding bindings ih =>
    exact (recordAlias_writes binding.1 binding.2).bind fun _ => ih.bind_nothing fun _ => .pure _

/-- What can be done with a document and a table: to record an arity, to run one of the two passes
that record them, to edit the document, and to run one of the two passes that edit it. -/
inductive Activity
  | record (name : Text) (arity : Int)
  | collect
  | propagate
  | edit (edit : Edit)
  | inject
  | uncurry

namespace Activity

/-- The pass that an activity is. -/
def pass : Activity → Pass Unit
  | record name arity => Pass.record name arity
  | collect => collectArities
  | propagate => do let _ ← propagateAliases
  | edit (.replaceCallee place callee) => Pass.replaceCallee place callee
  | edit (.removeArgument place index) => Pass.removeArgument place index
  | edit (.insertBefore path snippet) => do let _ ← Pass.insertBefore path snippet
  | inject => do let _ ← injectStubs
  | uncurry => do let _ ← uncurryCalls

/-- The arities that an activity writes, given the document and what was written before: the one it
is told, those of all declarators with a curried function, or those of all aliases. -/
def writes (document : Document) (before : List (Text × Int)) : Activity → List (Text × Int)
  | record name arity => [(name, arity)]
  | collect =>
    ((declarators document).filterMap curriedBinding?).map fun binding => (binding.1, binding.2)
  | propagate => aliasWrites before ((declarators document).filterMap aliasBinding?)
  | edit _ | inject | uncurry => []

end Activity

theorem collectArities_writes (known : workspace.table.Accounts before) : ∃ table log,
    collectArities.run workspace = (.ok (), ⟨workspace.document, table, log⟩) ∧
      table.Accounts (before ++ Activity.collect.writes workspace.document before) := by
  rw [collectArities, Pass.run_bind, Pass.run_document]
  dsimp only
  have loop : (((declarators workspace.document).filterMap curriedBinding?).forM fun binding =>
      Pass.record binding.1 binding.2).Writes before
        (Activity.collect.writes workspace.document before) := .forM (fun _ _ => .record _ _) _
  obtain ⟨_, table, log, run, known'⟩ :=
    loop.bind_nothing (fun _ => .bind_nothing .table fun _ => .logCount _ _ _) workspace known
  exact ⟨table, log, run, known'⟩

theorem propagateAliases_writes (known : workspace.table.Accounts before) : ∃ copied table log,
    propagateAliases.run workspace = (.ok copied, ⟨workspace.document, table, log⟩) ∧
      table.Accounts (before ++ Activity.propagate.writes workspace.document before) := by
  rw [propagateAliases, Pass.run_bind, Pass.run_document]
  dsimp only
  have loop : (Pass.count (fun binding => recordAlias binding.1 binding.2)
      ((declarators workspace.document).filterMap aliasBinding?)).Writes before
        (Activity.propagate.writes workspace.document before) := count_recordAlias_writes _
  exact loop.bind_nothing (fun _ => .bind_nothing (.logCount _ _ _) fun _ => .pure _) workspace
    known

theorem injectStubs_unrecording : injectStubs.Unrecording := by
  refine .bind .document fun document => ?_
  cases firstDeclaration? document with
  | none => exact .bind (.log _ _ _) fun _ => .pure false
  | some path => exact .bind (.insertBefore path stubs) fun _ => .pure true

theorem uncurryCalls_unrecording : uncurryCalls.Unrecording := by
  refine .bind .document fun _ => .bind (.count fun path => ?_) fun _ =>
    .bind (.log _ _ _) fun _ => .pure _
  refine .bind .table fun table => .bind .document fun document => ?_
  cases saturated? table (document.treeAt ⟨path.node.mark.id, []⟩) with
  | none => exact .pure false
  | some name =>
    exact .bind (.replaceCallee _ _) fun _ => .bind (.removeArgument _ _) fun _ => .pure true

/-- Edits leave the table alone. -/
theorem Activity.edit_unrecording (edit : Edit) : (Activity.edit edit).pass.Unrecording := by
  cases edit with
  | replaceCallee place callee => exact .replaceCallee place callee
  | removeArgument place index => exact .removeArgument place index
  | insertBefore path snippet => exact .bind (.insertBefore path snippet) fun _ => .pure ()

end Curry

namespace Workspace

open Curry (Activity)

variable {workspace : Workspace} {before : List (Text × Int)}

/-- The workspace behind an activity, whether it fails or not. -/
def after (workspace : Workspace) (activity : Activity) : Workspace :=
  (activity.pass.run workspace).2

/-- The workspace behind some activities. -/
def afterAll (workspace : Workspace) (activities : List Activity) : Workspace :=
  activities.foldl after workspace

/-- The arities that some activities write, given what was written before. -/
def writes (workspace : Workspace) (before : List (Text × Int)) :
    List Activity → List (Text × Int)
  | [] => []
  | activity :: later =>
    let own := activity.writes workspace.document before
    own ++ (workspace.after activity).writes (before ++ own) later

theorem writes_append (activities more : List Activity) :
    workspace.writes before (activities ++ more) =
      workspace.writes before activities ++
        (workspace.afterAll activities).writes (before ++ workspace.writes before activities)
          more := by
  induction activities generalizing workspace before with
  | nil => simp [writes, afterAll]
  | cons activity activities ih => simp [writes, afterAll, ih]

/-- Behind an activity the table accounts for what the activity wrote too. -/
theorem after_accounts (known : workspace.table.Accounts before) (activity : Activity) :
    (workspace.after activity).table.Accounts
      (before ++ activity.writes workspace.document before) := by
  have unrecorded (unrecording : activity.pass.Unrecording) :
      (workspace.after activity).table.Accounts (before ++ []) := by
    rw [after, unrecording workspace.table workspace rfl, List.append_nil]
    exact known
  cases activity with
  | record name arity =>
    obtain ⟨log, run⟩ := Pass.run_record name arity workspace
    rw [after, Activity.pass, run]
    exact known.record name arity
  | collect =>
    obtain ⟨table, log, run, known'⟩ := Curry.collectArities_writes known
    rw [after, Activity.pass, run]
    exact known'
  | propagate =>
    obtain ⟨copied, table, log, run, known'⟩ := Curry.propagateAliases_writes known
    rw [after, Activity.pass, Pass.run_bind, run]
    exact known'
  | edit edit => exact unrecorded (Activity.edit_unrecording edit)
  | inject => exact unrecorded (.bind Curry.injectStubs_unrecording fun _ => .pure ())
  | uncurry => exact unrecorded (.bind Curry.uncurryCalls_unrecording fun _ => .pure ())

theorem afterAll_accounts (known : workspace.table.Accounts before) (activities : List Activity) :
    (workspace.afterAll activities).table.Accounts
      (before ++ workspace.writes before activities) := by
  -- the invariant is that the table accounts for the writes so far, which each activity extends
  induction activities generalizing workspace before with
  | nil =>
    rw [writes, List.append_nil]
    exact known
  | cons activity activities ih =>
    rw [writes, ← List.append_assoc]
    exact ih (after_accounts known activity)

end Workspace

/-- Whatever is recorded, collected and propagated into a table that was empty, on any document and
with any edits in between: the table lists the names in the order of their first writes and gives
each the arity that was written last, the conflicts of a name are the changes among the arities
written for it and lead from the first of these to the last, none if all agree, and no name leaves
the table later. -/
theorem arities_written (document : Document) (log : List LogRecord)
    (activities : List Curry.Activity) :
    let start : Workspace := ⟨document, .empty, log⟩
    let table := (start.afterAll activities).table
    let writes := start.writes [] activities
    table.names = (writes.map (·.1)).eraseDups ∧
    (∀ name, table.get? name = (writtenFor name writes).getLast?) ∧
    (∀ name, table.conflictsOf name = ArityConflict.changes name (writtenFor name writes)) ∧
    (∀ name first, (writtenFor name writes).head? = some first → ∃ last,
      table.get? name = some last ∧ ArityConflict.Leads name first (table.conflictsOf name) last ∧
        (table.conflictsOf name = [] ↔ ∀ arity ∈ writtenFor name writes, arity = first)) ∧
    ∀ more, table.names <+: (start.afterAll (activities ++ more)).table.names := by
  intro start table writes
  have accounts (activities : List Curry.Activity) :
      (start.afterAll activities).table.Accounts (start.writes [] activities) := by
    have known : start.table.Accounts [] := ArityTable.accounts_empty
    exact Workspace.afterAll_accounts known activities
  have known : table.Accounts writes := accounts activities
  refine ⟨known.names_eq, known.get?_eq, known.conflicts_eq, fun name first starts => ?_,
    fun more => ?_⟩
  · obtain ⟨later, arities⟩ := List.head?_eq_some_iff.1 starts
    have latest := known.get?_eq name
    rw [known.conflicts_eq, arities]
    rw [arities, List.getLast?_eq_some_getLast (List.cons_ne_nil _ _)] at latest
    refine ⟨_, latest, ArityConflict.leads_changes ?_, ?_⟩
    · rw [List.getLast?_eq_some_getLast]
    · simp [ArityConflict.changes_eq_nil]
  · rw [known.names_eq, (accounts (activities ++ more)).names_eq, Workspace.writes_append,
      List.map_append, List.eraseDups_append]
    exact List.prefix_append _ _

/-- A program that gives a name two arities and has an alias of it. -/
def rebinding : Text := Text.ofString "var f = F1(a); var g = f; var f = F2(b);"

/-- Activities on `rebinding`, with another arity for the alias put in front of its first
declaration. -/
def rebindingActivities (first : NodePath) : List Curry.Activity :=
  [.collect, .propagate, .edit (.insertBefore first (Text.ofString "var g = F3(c);")), .inject,
    .collect, .propagate, .record (Text.ofString "h") 0, .uncurry]

theorem rebinding_run : (Document.parse rebinding).toOption.any (fun document =>
    (document.find [.varDecl]).head?.any fun first =>
      Workspace.writes ⟨document, .empty, []⟩ [] (rebindingActivities first) =
        [(Text.ofString "f", 1), (Text.ofString "f", 2), (Text.ofString "g", 2),
          (Text.ofString "g", 3), (Text.ofString "f", 1), (Text.ofString "f", 2),
          (Text.ofString "g", 2), (Text.ofString "h", 0)]) = true := by
  decide +kernel

theorem arities_written_rebinding : ∃ document first, Document.parse rebinding = .ok document ∧
    let start : Workspace := ⟨document, .empty, []⟩
    let table := (start.afterAll (rebindingActivities first)).table
    table.names = [Text.ofString "f", Text.ofString "g", Text.ofString "h"] ∧
    table.get? (Text.ofString "g") = some 2 ∧
    table.conflictsOf (Text.ofString "g") =
      [⟨Text.ofString "g", 2, 3⟩, ⟨Text.ofString "g", 3, 2⟩] ∧
    ArityConflict.Leads (Text.ofString "g") 2 (table.conflictsOf (Text.ofString "g")) 2 ∧
    table.conflictsOf (Text.ofString "h") = [] := by
  obtain ⟨document, read, run⟩ := (Option.any_eq_true _ _).1 rebinding_run
  obtain ⟨first, _, written⟩ := (Option.any_eq_true _ _).1 run
  have written := of_decide_eq_true written
  obtain ⟨names, arity, conflicts, leads, _⟩ :=
    arities_written document [] (rebindingActivities first)
  rw [written] at names
  simp only [written] at arity conflicts leads
  obtain ⟨last, known, chain, _⟩ := leads (Text.ofString "g") 2 rfl
  obtain rfl : 2 = last := Option.some.inj ((arity _).symm.trans known)
  exact ⟨document, first, eq_ok_of_toOption read, names.trans (by decide), known,
    (conflicts _).trans (by decide), chain, (conflicts _).trans (by decide)⟩

end Uncurry
