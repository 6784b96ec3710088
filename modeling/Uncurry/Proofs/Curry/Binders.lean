import Uncurry.Proofs.Curry.Transformation

/-!
# What binds the functions that are uncurried

The arity table knows a function by its name alone. `uncurried_bound` says what this is good for:
every name that is uncurried is bound to a curried function by a declarator somewhere in the
program. Which of the bindings of that name is in scope at the call plays no part, and
`shadowed_uncurried` is a program in which it is the parameter of a function.
-/
namespace Uncurry

/-- A pass leaves something true of a workspace, whether it fails or not. -/
def Pass.Maintains {α : Type} (holds : Workspace → Prop) (pass : Pass α) : Prop :=
  ∀ workspace, holds workspace → holds (pass.run workspace).2

namespace Pass.Maintains

variable {α β : Type} {holds : Workspace → Prop}

theorem pure (a : α) : (Pure.pure a : Pass α).Maintains holds := fun _ known => known

theorem bind {pass : Pass α} {next : α → Pass β} (h : pass.Maintains holds)
    (h' : ∀ a, (next a).Maintains holds) : (pass >>= next).Maintains holds := by
  intro workspace known
  have after := h workspace known
  rw [run_bind]
  cases ran : pass.run workspace with
  | mk result between =>
    rw [ran] at after
    cases result with
    | error failure => exact after
    | ok a => exact h' a between after

theorem forM {step : α → Pass Unit} {items : List α}
    (h : ∀ item ∈ items, (step item).Maintains holds) : (items.forM step).Maintains holds := by
  induction items with
  | nil => exact pure ()
  | cons item items ih =>
    exact bind (h item List.mem_cons_self) fun _ =>
      ih fun later member => h later (List.mem_cons_of_mem _ member)

theorem count {step : α → Pass Bool} {items : List α}
    (h : ∀ item ∈ items, (step item).Maintains holds) :
    (Pass.count step items).Maintains holds := by
  induction items with
  | nil => exact pure 0
  | cons item items ih =>
    refine bind (h item List.mem_cons_self) fun _ => bind ?_ fun _ => pure _
    exact ih fun later member => h later (List.mem_cons_of_mem _ member)

end Pass.Maintains

namespace Curry

variable {α β : Type} {source name target : Text} {program : SyntaxTree} {arity : Nat}

theorem curriedBinding?_map (f : α → β) (declarator : Tree α) :
    curriedBinding? (declarator.map f) = curriedBinding? declarator := by
  simp only [curriedBinding?, Tree.child_map, Tree.identifier?_map, Tree.hasLabel, Tree.label?_map]
  rfl

theorem aliasBinding?_map (f : α → β) (declarator : Tree α) :
    aliasBinding? (declarator.map f) = aliasBinding? declarator := by
  simp only [aliasBinding?, Tree.child_map, Tree.identifier?_map]

/-- The digits of the numbers up to nine. -/
theorem val_ofNat_digit : ∀ digit < 10, (Text.ofNat digit).map CodePoint.val = [48 + digit] := by
  decide +kernel

theorem digitAfter?_eq_some {letter : CodePoint} {digit : Nat} :
    digitAfter? letter name = some digit ↔ digit ≤ 9 ∧ name = letter :: Text.ofNat digit := by
  constructor
  · intro found
    have bound := digitAfter?_le found
    refine ⟨bound, ?_⟩
    obtain ⟨c, digit_eq, val⟩ := List.map_eq_singleton_iff.1 (val_ofNat_digit digit (by omega))
    unfold digitAfter? at found
    split at found
    · rename_i first d
      simp only [Option.ite_none_right_eq_some, Bool.and_eq_true, decide_eq_true_eq,
        Option.some.injEq, CodePoint.isDigit] at found
      obtain ⟨⟨rfl, low, high⟩, rfl⟩ := found
      have same : d = c := CodePoint.ext (by omega)
      rw [digit_eq, same]
    · cases found
  · rintro ⟨bound, rfl⟩
    obtain ⟨c, digit_eq, val⟩ := List.map_eq_singleton_iff.1 (val_ofNat_digit digit (by omega))
    have is_digit : c.isDigit = true := by simp [CodePoint.isDigit]; omega
    simp [digit_eq, digitAfter?, is_digit]
    omega

/-- A declarator binds a name to a call of the constructor of functions of some arity, an `F` with
the arity behind it. -/
def Constructs (declarator : Tree α) (name : Text) (arity : Nat) : Prop :=
  arity ≤ 9 ∧ ∃ own called later whole,
    declarator.child 0 = .leaf (.token .identifier) name own ∧
    declarator.child 1 = .node .call
      (.leaf (.token .identifier) (CodePoint.ofChar 'F' :: Text.ofNat arity) called :: later) whole

/-- A declarator binds a name to another name. -/
def Renames (declarator : Tree α) (name target : Text) : Prop :=
  ∃ own other, declarator.child 0 = .leaf (.token .identifier) name own ∧
    declarator.child 1 = .leaf (.token .identifier) target other

theorem curriedBinding?_eq_some {declarator : Tree α} :
    curriedBinding? declarator = some (name, arity) ↔ Constructs declarator name arity := by
  constructor
  · intro found
    obtain ⟨_, named, found⟩ := Option.bind_eq_some_iff.1 found
    dsimp only at found
    split at found
    · rename_i call
      obtain ⟨constructor, called, found⟩ := Option.bind_eq_some_iff.1 found
      obtain ⟨_, digit, found⟩ := Option.bind_eq_some_iff.1 found
      cases found
      obtain ⟨bound, rfl⟩ := digitAfter?_eq_some.1 digit
      obtain ⟨own, target⟩ := eq_leaf named
      obtain ⟨info, callee⟩ := eq_leaf called
      cases initial : declarator.child 1 with
      | missing => rw [initial] at call; cases call
      | leaf => rw [initial] at call; cases call
      | node label children whole =>
        rw [initial] at call callee
        obtain rfl : label = .call := by simpa [Tree.hasLabel, Tree.label?] using call
        cases children with
        | nil => cases callee
        | cons first later =>
          obtain rfl : first = _ := callee
          exact ⟨bound, own, info, later, whole, target, initial⟩
    · cases found
  · rintro ⟨bound, own, called, later, whole, target, initial⟩
    have digit : constructorArity? (CodePoint.ofChar 'F' :: Text.ofNat arity) = some arity :=
      digitAfter?_eq_some.2 ⟨bound, rfl⟩
    rw [curriedBinding?, target, initial]
    simp [Tree.identifier?, Tree.hasLabel, Tree.label?, Tree.child, Tree.children, digit]

theorem aliasBinding?_eq_some {declarator : Tree α} :
    aliasBinding? declarator = some (name, target) ↔ Renames declarator name target := by
  constructor
  · intro found
    obtain ⟨_, named, found⟩ := Option.bind_eq_some_iff.1 found
    obtain ⟨_, initial, found⟩ := Option.bind_eq_some_iff.1 found
    cases found
    obtain ⟨own, named⟩ := eq_leaf named
    obtain ⟨other, initial⟩ := eq_leaf initial
    exact ⟨own, other, named, initial⟩
  · rintro ⟨own, other, named, initial⟩
    rw [aliasBinding?, named, initial]
    rfl

/-- The declarators that the passes look at are those of the program. -/
theorem declarators_nodes (parsed : parseProgram source = .ok program) {declarator : DocumentTree}
    (member : declarator ∈ declarators (.ofTree source program)) :
    declarator ∈ (Document.ofTree source program).tree.nodes ∧
      declarator.label? = some .varDeclarator := by
  have prepared := prepared_ofTree parsed
  obtain ⟨path, found, rfl⟩ := List.mem_map.1 member
  obtain ⟨found, labelled⟩ := List.mem_filter.1 found
  have ref := List.mem_map_of_mem (f := (·.node)) found
  rw [Document.paths, Tree.paths_map_node] at ref
  obtain ⟨node, inside, ref⟩ := List.mem_filterMap.1 ref
  obtain ⟨children, rfl⟩ : ∃ children, node = .node path.node.label children path.node.mark := by
    cases node with
    | missing => cases ref
    | leaf => cases ref
    | node label children mark => exact ⟨children, by rw [← Option.some.inj ref]⟩
  have label : path.node.label = .varDeclarator := by simpa using labelled
  have part := Tree.nodes_eq_parts _ ▸ inside
  have in_forest : Tree.node path.node.label children path.node.mark ∈
      Tree.partsAmong (Document.ofTree source program).forest := by
    simpa [Document.forest, prepared.cut] using (List.mem_filter.1 part).1
  rw [prepared.numbered.node_eq in_forest rfl]
  exact ⟨inside, congrArg some label⟩

theorem map_declarator (parsed : parseProgram source = .ok program) {declarator : DocumentTree}
    (member : declarator ∈ declarators (.ofTree source program)) :
    declarator.map Mark.span ∈ program.nodes ∧
      (declarator.map Mark.span).label? = some .varDeclarator := by
  obtain ⟨inside, labelled⟩ := declarators_nodes parsed member
  have same : (Document.ofTree source program).tree.map Mark.span = program :=
    Tree.map_number false 0 program
  constructor
  · rw [← same, Tree.nodes_map]
    exact List.mem_map_of_mem inside
  · rw [Tree.label?_map, labelled]

section Maintained

variable {holds : Workspace → Prop} (parsed : parseProgram source = .ok program)
  (unedited : ∀ workspace, holds workspace → workspace.document = .ofTree source program)
  (log : ∀ level logger message, (Pass.log level logger message).Maintains holds)

include parsed unedited log

/-- The first pass maintains what is maintained by the recording of what declarators bind. -/
theorem collectArities_maintains_of
    (record : ∀ declarator : SyntaxTree, declarator ∈ program.nodes →
      declarator.label? = some .varDeclarator → ∀ name arity,
        curriedBinding? declarator = some (name, arity) → (Pass.record name arity).Maintains holds) :
    collectArities.Maintains holds := by
  intro workspace known
  rw [collectArities, Pass.run_bind, Pass.run_document, unedited workspace known]
  refine Pass.Maintains.bind (.forM fun binding member => ?_)
    (fun _ => .bind (fun _ known => known) fun _ => log _ _ _) workspace known
  obtain ⟨declarator, inside, found⟩ := List.mem_filterMap.1 member
  obtain ⟨node, labelled⟩ := map_declarator parsed inside
  exact record _ node labelled _ _ ((curriedBinding?_map ..).trans found)

/-- The second pass maintains what is maintained by the recording of aliases. -/
theorem propagateAliases_maintains_of
    (record : ∀ declarator : SyntaxTree, declarator ∈ program.nodes →
      declarator.label? = some .varDeclarator → ∀ name target,
        aliasBinding? declarator = some (name, target) → (recordAlias name target).Maintains holds) :
    propagateAliases.Maintains holds := by
  intro workspace known
  rw [propagateAliases, Pass.run_bind, Pass.run_document, unedited workspace known]
  refine Pass.Maintains.bind (.count fun binding member => ?_)
    (fun _ => .bind (log _ _ _) fun _ => .pure _) workspace known
  obtain ⟨declarator, inside, found⟩ := List.mem_filterMap.1 member
  obtain ⟨node, labelled⟩ := map_declarator parsed inside
  exact record _ node labelled _ _ ((aliasBinding?_map ..).trans found)

end Maintained

/-- A declarator of a program binds a name to a curried function of some arity: to a call of a
constructor, or to another name that is bound so. -/
inductive Binds (program : SyntaxTree) : Text → Nat → Prop
  | curried {name : Text} {arity : Nat} (declarator : SyntaxTree) :
      declarator ∈ program.nodes → declarator.label? = some .varDeclarator →
      Constructs declarator name arity → Binds program name arity
  | renamed {name target : Text} {arity : Nat} (declarator : SyntaxTree) :
      declarator ∈ program.nodes → declarator.label? = some .varDeclarator →
      Renames declarator name target → Binds program target arity → Binds program name arity

/-- Nothing was edited, and every name in the table is bound to a function of its arity. -/
def Bound (source : Text) (program : SyntaxTree) (workspace : Workspace) : Prop :=
  workspace.document = .ofTree source program ∧
    ∀ name known, workspace.table.get? name = some known →
      ∃ arity : Nat, known = arity ∧ Binds program name arity

theorem log_maintains (level : LogLevel) (logger : Logger) (message : Text) :
    (Pass.log level logger message).Maintains (Bound source program) :=
  fun _ bound => bound

/-- What is recorded has to be bound. -/
theorem record_maintains (binds : Binds program name arity) :
    (Pass.record name arity).Maintains (Bound source program) := by
  intro workspace bound
  obtain ⟨log, run⟩ := Pass.run_record name arity workspace
  rw [run]
  refine ⟨bound.1, fun other known found => ?_⟩
  change (workspace.table.record name arity).get? other = some known at found
  by_cases same : other = name
  · subst same
    rw [ArityTable.get?_record_self] at found
    exact ⟨arity, (Option.some.inj found).symm, binds⟩
  · rw [ArityTable.get?_record_of_ne _ _ same] at found
    exact bound.2 other known found

theorem collectArities_maintains (parsed : parseProgram source = .ok program) :
    collectArities.Maintains (Bound source program) :=
  collectArities_maintains_of parsed (fun _ => And.left) log_maintains
    fun _ node labelled _ _ found =>
      record_maintains (.curried _ node labelled (curriedBinding?_eq_some.1 found))

theorem recordAlias_maintains (renamed : ∀ arity, Binds program target arity →
    Binds program name arity) : (recordAlias name target).Maintains (Bound source program) := by
  intro workspace bound
  rw [recordAlias, Pass.run_bind, Pass.run_table]
  dsimp only
  cases found : workspace.table.get? target with
  | none => exact bound
  | some known =>
    obtain ⟨arity, rfl, binds⟩ := bound.2 target known found
    exact Pass.Maintains.bind (record_maintains (renamed arity binds)) (fun _ => .pure true)
      workspace bound

theorem propagateAliases_maintains (parsed : parseProgram source = .ok program) :
    propagateAliases.Maintains (Bound source program) :=
  propagateAliases_maintains_of parsed (fun _ => And.left) log_maintains
    fun _ node labelled _ _ found => recordAlias_maintains fun _ =>
      .renamed _ node labelled (aliasBinding?_eq_some.1 found)

/-- Every name in the arity table of a program is bound to a function of its arity. -/
theorem arities_bound (parsed : parseProgram source = .ok program) {known : Int}
    (found : (arities source program).get? name = some known) :
    ∃ arity : Nat, known = arity ∧ Binds program name arity := by
  have start : Bound source program (.ofDocument (.ofTree source program)) := by
    refine ⟨rfl, fun name known found => ?_⟩
    cases found
  have both : (collectArities >>= fun _ => propagateAliases).Maintains (Bound source program) :=
    .bind (collectArities_maintains parsed) fun _ => propagateAliases_maintains parsed
  exact (both _ start).2 name known found

/-- Every call that is uncurried applies a name to as many arguments as some declarator of the
program binds a curried function of, directly or by way of other names. -/
theorem uncurried_bound {result : Transformed} (h : (transform source).1 = .ok result) :
    ∃ program, parseProgram source = .ok program ∧
      ∀ call ∈ program.nodes, ∀ site, site? result.table call = some site →
        ∃ callee first values list whole,
          call = .node .call [callee, .node .args (first :: values) list] whole ∧
          first.identifier? = some site.name ∧ Binds program site.name values.length := by
  obtain ⟨program, parsed, rfl⟩ := exists_result h
  refine ⟨program, parsed, fun call _ site found => ?_⟩
  obtain ⟨applied, second, later, list, whole, rfl, _, known, _⟩ := site?_eq_some found
  obtain ⟨arity, same, binds⟩ := arities_bound parsed known
  refine ⟨_, _, _, list, whole, rfl, by simp [Tree.identifier?], ?_⟩
  rwa [List.length_cons, Int.ofNat_inj.1 same]

theorem uncurried_bound_nested : ∃ program result call site arity,
    (transform nested).1 = .ok result ∧ call ∈ program.nodes ∧
      site? result.table call = some site ∧ Binds program site.name arity := by
  obtain ⟨_, result, _, ok, count, _⟩ := exists_nested
  obtain ⟨program, parsed, bound⟩ := uncurried_bound ok
  obtain ⟨program', parsed', rfl⟩ := exists_result ok
  obtain rfl := Except.ok.inj (parsed.symm.trans parsed')
  have some_site : 0 < (sites (arities nested program) program).length := by
    change (sites (arities nested program) program).length = 2 at count
    omega
  obtain ⟨site, member⟩ := List.exists_mem_of_length_pos some_site
  obtain ⟨call, inside, found⟩ := List.mem_filterMap.1 member
  obtain ⟨_, _, _, _, _, _, _, binds⟩ := bound call inside site found
  exact ⟨program, _, call, site, _, ok, inside, found, binds⟩

end Curry

namespace Tree

variable {α : Type}

mutual

/-- The names that a target binds, be it a name or a pattern with defaults and a rest. -/
def boundNames : Tree α → List Text
  | missing => []
  | leaf kind text _ => if kind = .token .identifier then [text] else []
  | node label children _ =>
    match label with
    | .objectPattern | .arrayPattern | .rest => (boundEach children).flatten
    | .assignPattern => (boundEach children).headD []
    | .patternProperty => (boundEach children).tail.flatten
    | _ => []

def boundEach : List (Tree α) → List (List Text)
  | [] => []
  | tree :: trees => tree.boundNames :: boundEach trees

end

/-- Whether a node is a function, a method or an accessor. -/
def isFunction (tree : Tree α) : Bool :=
  tree.label?.any [.functionDecl, .functionExpr, .arrow, .method, .getter, .setter].contains

/-- The names that the parameters of a function bind. -/
def parameterNames (function : Tree α) : List Text :=
  (function.childWithLabel .params).children.flatMap boundNames

end Tree

namespace Curry

/-- A program with a curried function and a parameter of one name. -/
def shadowed : Text :=
  Text.ofString "for (var f = F1(g);;) h(function (f) \x7b return A1(f, x); \x7d);"

/-- What `shadowed` becomes. -/
def shadowedOutput : Text :=
  Text.ofString "for (var f = F1(g);;) h(function (f) \x7b return f.f(x); \x7d);"

/-- The call in `shadowed` is uncurried although it applies the parameter. -/
theorem shadowed_uncurried : ∃ program result, parseProgram shadowed = .ok program ∧
    (transform shadowed).1 = .ok result ∧ result.output = shadowedOutput ∧
    ∃ function ∈ program.nodes, function.isFunction = true ∧
      ∃ call ∈ function.nodes, ∃ site, site? result.table call = some site ∧
        site.name ∈ function.parameterNames := by
  have evaluated : (parseProgram shadowed).toOption.any (fun program =>
      let table := arities shadowed program
      (refusal? (sites table program)).isNone &&
        Patch.edited (edits shadowed table program) 0 shadowed = shadowedOutput &&
        program.nodes.any fun function => function.isFunction &&
          function.nodes.any fun call => (site? table call).any fun site =>
            function.parameterNames.contains site.name) = true := by
    decide +kernel
  obtain ⟨program, accepted, run⟩ := (Option.any_eq_true _ _).1 evaluated
  simp only [Bool.and_eq_true, Option.isNone_iff_eq_none, decide_eq_true_eq] at run
  obtain ⟨⟨refused, output⟩, run⟩ := run
  obtain ⟨function, inside, run⟩ := List.any_eq_true.1 run
  obtain ⟨isFunction, run⟩ := (Bool.and_eq_true _ _).mp run
  obtain ⟨call, within, run⟩ := List.any_eq_true.1 run
  obtain ⟨site, found, binds⟩ := (Option.any_eq_true _ _).1 run
  have parsed := eq_ok_of_toOption accepted
  have ok := transform_eq parsed
  rw [refused] at ok
  exact ⟨program, _, parsed, ok, output, function, inside, isFunction, call, within, site, found,
    List.contains_iff_mem.1 binds⟩

end Curry

end Uncurry
