import Uncurry.Proofs.Curry.Arities
import Uncurry.Proofs.Document.Walking

/-!
# Which names have an arity

A declarator with a call of a constructor counts wherever it stands, an alias only for the names
that have an arity by then. So a name has an arity where a chain of aliases leads to it, one further
on in the program than the other, from a name that is bound to such a call: `arities_chained`. An
alias that stands before the one it would have to follow, as in `aliasing`, is of no use.
-/
namespace Uncurry

namespace ArityTable

variable {table : ArityTable} {name : Text} {writes : List (Text × Int)}

/-- Every entry is the one that is found under its name if no name has two. -/
theorem get?_of_mem (unique : table.names.Nodup) {entry : Text × Int}
    (member : entry ∈ table.entries) : table.get? entry.1 = some entry.2 := by
  simp only [names, get?] at unique ⊢
  generalize table.entries = entries at unique member ⊢
  induction entries with
  | nil => cases member
  | cons first later ih =>
    rw [List.map_cons, List.nodup_cons] at unique
    rcases List.mem_cons.1 member with rfl | member
    · simp
    · have other : first.1 ≠ entry.1 := fun same =>
        unique.1 (same ▸ List.mem_map_of_mem member)
      rw [List.find?_cons_of_neg (by simpa using other)]
      exact ih unique.2 member

/-- The names in a table are those that something was written for. -/
theorem Accounts.mem_names (h : table.Accounts writes) :
    name ∈ table.names ↔ writtenFor name writes ≠ [] := by
  rw [h.names_eq, List.mem_eraseDups, writtenFor]
  simp [List.filter_eq_nil_iff]

/-- No name has two entries. -/
theorem Accounts.nodup_names (h : table.Accounts writes) : table.names.Nodup := by
  rw [h.names_eq]
  generalize writes.map (·.1) = written
  induction hn : written.length using Nat.strongRecOn generalizing written with
  | ind count ih =>
    cases written with
    | nil => exact List.nodup_nil
    | cons first later =>
      rw [List.eraseDups_cons, List.nodup_cons, List.mem_eraseDups]
      refine ⟨by simp, ih _ ?_ _ rfl⟩
      rw [← hn, List.length_cons]
      exact Nat.lt_succ_of_le (List.length_filter_le _ _)

end ArityTable

namespace Curry

variable {α β : Type} {source name start : Text} {program : SyntaxTree}
  {declarations chain : List (Tree α)} {before : List (Text × Int)} {arity : Int}

/-- The declarators of a program, in the order of the document. -/
def declared (program : Tree α) : List (Tree α) := program.nodes.filter (·.hasLabel .varDeclarator)

/-- Aliases that lead from one name to another: the first one stands for the name that they start
from, each other one for the name that the one before it binds. -/
inductive Chain : Text → List (Tree α) → Text → Prop
  | nil (name : Text) : Chain name [] name
  | cons {start next name : Text} {declarator : Tree α} {later : List (Tree α)} :
      Renames declarator next start → Chain next later name →
      Chain start (declarator :: later) name

/-- A declarator somewhere in a program binds a name to a call of a constructor of some arity, and
aliases that stand one behind the other lead from that name to another one. -/
def Chained (program : SyntaxTree) (name : Text) (arity : Nat) : Prop :=
  ∃ declarator ∈ declared program, ∃ start,
    Constructs declarator start arity ∧
    ∃ chain : List SyntaxTree, chain.Sublist (declared program) ∧ Chain start chain name

/-- The passes look at the declarators of the program in their order. -/
theorem map_declarators (source : Text) (program : SyntaxTree) :
    (declarators (.ofTree source program)).map (Tree.map Mark.span) = declared program := by
  have same : (Document.ofTree source program).tree.map Mark.span = program :=
    Tree.map_number false 0 program
  have nodes : declarators (.ofTree source program) = _ :=
    (Document.numbered_ofTree source program).map_find .varDeclarator
  rw [nodes, declared, ← congrArg Tree.nodes same, Tree.nodes_map, List.filter_map]
  congr 1
  simp [Function.comp_def, Tree.hasLabel]

/-- What the declarators of a document bind is what those of the program bind. -/
theorem filterMap_declarators (source : Text) {bound : Type}
    {binding? : {α : Type} → Tree α → Option bound}
    (same : ∀ declarator : DocumentTree,
      binding? (declarator.map Mark.span) = binding? declarator) :
    (declarators (.ofTree source program)).filterMap binding? =
      (declared program).filterMap binding? := by
  rw [← map_declarators source program, List.filterMap_map]
  exact List.filterMap_congr fun declarator _ => (same declarator).symm

/-- Behind an alias a name has the arity that it had before, or it is the alias and has that of the
name it stands for. -/
theorem of_aliasWrite {next target : Text} (latest : (writtenFor name
      (before ++ aliasWrite before (next, target))).getLast? = some arity) :
    (writtenFor name before).getLast? = some arity ∨
      name = next ∧ (writtenFor target before).getLast? = some arity := by
  rw [writtenFor_append, aliasWrite] at latest
  cases known : (writtenFor target before).getLast? with
  | none =>
    rw [known] at latest
    exact .inl (by simpa [writtenFor] using latest)
  | some value =>
    rw [known, Option.map_some, Option.toList_some] at latest
    by_cases own : name = next
    · subst own
      rw [writtenFor_self, List.getLast?_concat] at latest
      exact .inr ⟨rfl, latest⟩
    · rw [writtenFor_ne own, List.append_nil] at latest
      exact .inl latest

/-- An alias of a name with an arity gets one. -/
theorem written_alias {next target : Text} (known : writtenFor target before ≠ []) :
    writtenFor next (before ++ aliasWrite before (next, target)) ≠ [] := by
  have latest := List.getLast?_eq_some_getLast known
  simp only [writtenFor_append, aliasWrite, latest, Option.map_some, Option.toList_some,
    writtenFor_self]
  exact List.append_ne_nil_of_right_ne_nil _ (List.cons_ne_nil _ _)

/-- An arity that a name has behind some aliases comes by a chain of them from a name that had it
before. -/
theorem exists_chain (latest : (writtenFor name
      (before ++ aliasWrites before (declarations.filterMap aliasBinding?))).getLast? =
        some arity) :
    ∃ start, ∃ chain : List (Tree α), chain.Sublist declarations ∧ Chain start chain name ∧
      (writtenFor start before).getLast? = some arity := by
  induction declarations generalizing before with
  | nil =>
    rw [List.filterMap_nil, aliasWrites, List.append_nil] at latest
    exact ⟨name, [], .slnil, .nil name, latest⟩
  | cons declarator later ih =>
    rw [List.filterMap_cons] at latest
    cases binds : aliasBinding? declarator with
    | none =>
      rw [binds] at latest
      obtain ⟨start, chain, inside, leads, written⟩ := ih latest
      exact ⟨start, chain, inside.cons _, leads, written⟩
    | some binding =>
      rw [binds] at latest
      simp only [aliasWrites, ← List.append_assoc] at latest
      obtain ⟨start, chain, inside, leads, written⟩ := ih latest
      rcases of_aliasWrite written with before | ⟨rfl, target⟩
      · exact ⟨start, chain, inside.cons _, leads, before⟩
      · exact ⟨_, declarator :: chain, inside.cons_cons _,
          .cons (aliasBinding?_eq_some.1 binds) leads, target⟩

/-- A chain of aliases from a name that has an arity gives one to the name at its end. -/
theorem written_of_chain (leads : Chain start chain name) (inside : chain.Sublist declarations)
    (known : writtenFor start before ≠ []) :
    writtenFor name (before ++ aliasWrites before (declarations.filterMap aliasBinding?)) ≠ [] := by
  induction inside generalizing before start with
  | slnil =>
    cases leads
    simpa [aliasWrites] using known
  | @cons chain later declarator _ ih =>
    rw [List.filterMap_cons]
    cases aliasBinding? declarator with
    | none => exact ih leads known
    | some binding =>
      simp only [aliasWrites, ← List.append_assoc]
      refine ih leads ?_
      rw [writtenFor_append]
      exact List.append_ne_nil_of_left_ne_nil known _
  | @cons_cons chain later declarator _ ih =>
    cases leads with
    | cons renames leads =>
      rw [List.filterMap_cons, aliasBinding?_eq_some.2 renames]
      simp only [aliasWrites, ← List.append_assoc]
      exact ih leads (written_alias known)

/-- A name was collected with some arity if a declarator binds it to a call of a constructor. -/
theorem collected_iff (source : Text) {value : Int} :
    (start, value) ∈ Activity.collect.writes (.ofTree source program) [] ↔
      ∃ declarator ∈ declared program, ∃ arity : Nat,
        Constructs declarator start arity ∧ value = arity := by
  have bindings : Activity.collect.writes (.ofTree source program) [] =
      ((declared program).filterMap curriedBinding?).map fun binding =>
        (binding.1, (binding.2 : Int)) := by
    rw [← filterMap_declarators source (curriedBinding?_map _)]
    rfl
  rw [bindings, List.mem_map]
  constructor
  · rintro ⟨⟨name, arity⟩, member, same⟩
    obtain ⟨declarator, inside, binds⟩ := List.mem_filterMap.1 member
    cases same
    exact ⟨declarator, inside, arity, curriedBinding?_eq_some.1 binds, rfl⟩
  · rintro ⟨declarator, inside, arity, binds, rfl⟩
    exact ⟨(start, arity),
      List.mem_filterMap.2 ⟨declarator, inside, curriedBinding?_eq_some.2 binds⟩, rfl⟩

theorem mem_of_writtenFor {writes : List (Text × Int)} (member : arity ∈ writtenFor name writes) :
    (name, arity) ∈ writes := by
  obtain ⟨⟨other, value⟩, inside, rfl⟩ := List.mem_map.1 member
  obtain ⟨inside, same⟩ := List.mem_filter.1 inside
  rwa [← of_decide_eq_true same]

theorem writtenFor_ne_nil {writes : List (Text × Int)} (member : (name, arity) ∈ writes) :
    writtenFor name writes ≠ [] :=
  List.ne_nil_of_mem (List.mem_map.2 ⟨_, List.mem_filter.2 ⟨member, by simp⟩, rfl⟩)

/-- The table that the first two passes leave accounts for the bindings to calls of constructors and
behind them for the aliases. -/
theorem arities_accounts (source : Text) (program : SyntaxTree) :
    ∃ between copied after,
      collectArities.run (.ofDocument (.ofTree source program)) = (.ok (), between) ∧
      propagateAliases.run between = (.ok copied, after) ∧
      between.document = .ofTree source program ∧ after.document = .ofTree source program ∧
      after.table = arities source program ∧
      let collected := Activity.collect.writes (.ofTree source program) []
      after.table.Accounts
        (collected ++ aliasWrites collected ((declared program).filterMap aliasBinding?)) := by
  have start : (Workspace.ofDocument (.ofTree source program)).table.Accounts [] :=
    ArityTable.accounts_empty
  obtain ⟨table, log, run, known⟩ := collectArities_writes start
  have between : (Workspace.mk (.ofTree source program) table log).table.Accounts _ := known
  obtain ⟨copied, table', log', run', known'⟩ := propagateAliases_writes between
  refine ⟨_, copied, _, run, run', rfl, rfl, ?_, ?_⟩
  · rw [arities, Pass.run_bind, run]
    exact (congrArg (·.2.table) run').symm
  · rw [← filterMap_declarators source (aliasBinding?_map _)]
    exact known'

/-- The first two passes succeed on a program and leave the document alone. A name is in their table
just if a chain of aliases that stand one behind the other leads to it from a name that a declarator
anywhere in the program binds to a call of a constructor, and its arity, a digit, is that of such a
constructor. -/
theorem arities_chained (source : Text) (program : SyntaxTree) :
    (∃ between copied after,
      collectArities.run (.ofDocument (.ofTree source program)) = (.ok (), between) ∧
      propagateAliases.run between = (.ok copied, after) ∧
      between.document = .ofTree source program ∧ after.document = .ofTree source program ∧
      after.table = arities source program) ∧
    (∀ name, name ∈ (arities source program).names ↔ ∃ arity, Chained program name arity) ∧
    (∀ name value, (arities source program).get? name = some value →
      ∃ arity : Nat, value = arity ∧ Chained program name arity) ∧
    ∀ entry ∈ (arities source program).entries, 0 ≤ entry.2 ∧ entry.2 ≤ 9 := by
  obtain ⟨between, copied, after, collect, propagate, unedited, unedited', same, known⟩ :=
    arities_accounts source program
  rw [same] at known
  have chained (name : Text) (value : Int)
      (found : (arities source program).get? name = some value) :
      ∃ arity : Nat, value = arity ∧ Chained program name arity := by
    rw [known.get?_eq] at found
    obtain ⟨start, chain, inside, leads, written⟩ := exists_chain found
    obtain ⟨declarator, here, arity, binds, rfl⟩ :=
      (collected_iff source).1 (mem_of_writtenFor (List.mem_of_getLast? written))
    exact ⟨arity, rfl, declarator, here, start, binds, chain, inside, leads⟩
  refine ⟨⟨between, copied, after, collect, propagate, unedited, unedited', same⟩, fun name => ?_,
    chained, fun entry member => ?_⟩
  · constructor
    · intro member
      obtain ⟨entry, inside, rfl⟩ := List.mem_map.1 member
      obtain ⟨arity, _, leads⟩ :=
        chained _ _ (ArityTable.get?_of_mem known.nodup_names inside)
      exact ⟨arity, leads⟩
    · rintro ⟨arity, declarator, here, start, binds, chain, inside, leads⟩
      have collected := writtenFor_ne_nil
        ((collected_iff source).2 ⟨declarator, here, arity, binds, rfl⟩)
      exact known.mem_names.2 (written_of_chain leads inside collected)
  · obtain ⟨arity, is, _, _, _, binds, _⟩ :=
      chained _ _ (ArityTable.get?_of_mem known.nodup_names member)
    have digit := binds.1
    omega

/-- A program in which an alias of `k` stands before `k` has an arity, and one of `f` before `f` is
bound. -/
def aliasing : Text := Text.ofString "var h = k, g = f, f = F1(a), k = g, f = F2(b), f = f;"

theorem aliasing_entries : (parseProgram aliasing).toOption.any (fun program =>
    (arities aliasing program).entries =
      [(Text.ofString "f", 2), (Text.ofString "g", 2), (Text.ofString "k", 2)]) = true := by
  decide +kernel

/-- Two aliases one behind the other lead to `k`. The alias `h` stands before all others. -/
theorem arities_chained_aliasing : ∃ program, parseProgram aliasing = .ok program ∧
    (∃ arity, Chained program (Text.ofString "k") arity) ∧
    ∀ arity, ¬Chained program (Text.ofString "h") arity := by
  obtain ⟨program, accepted, same⟩ := (Option.any_eq_true _ _).1 aliasing_entries
  obtain ⟨_, names, _⟩ := arities_chained aliasing program
  have same := of_decide_eq_true same
  refine ⟨program, eq_ok_of_toOption accepted, (names _).1 ?_, fun arity leads => ?_⟩
  · simp [ArityTable.names, same]
  · have member := (names (Text.ofString "h")).2 ⟨arity, leads⟩
    rw [ArityTable.names, same] at member
    exact absurd member (by decide +kernel)

end Curry

end Uncurry
