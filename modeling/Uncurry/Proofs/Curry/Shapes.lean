import Uncurry.Proofs.Curry.Edits
import Uncurry.Proofs.Document.Spans

/-!
# The shapes of calls and declarators

The passes take calls and declarators apart by the places of their children. What was parsed has
these children.
-/
namespace Uncurry.Curry

variable {α β : Type} {source : Text} {tree node : SyntaxTree} {taken : List Token}

/-- A call has a callee and an argument list, in which nothing is left out. -/
def Shaped (tree : Tree α) : Prop :=
  tree.label? = some .call → ∃ callee values list whole,
    tree = .node .call [callee, .node .args values list] whole ∧
      ∀ value ∈ values, value.info? ≠ none

/-- The nodes of a spelled tree are spelled. -/
theorem spelled_nodes (h : Spelled taken tree) : ∀ node ∈ tree.nodes, ∃ own, Spelled own node := by
  intro node inside
  rw [Tree.nodes_eq_parts, List.mem_filter] at inside
  rcases h.spelledIn node inside.1 with ⟨own, _, spelled⟩ | ⟨_, _, _, rfl⟩
  · exact ⟨own, spelled⟩
  · cases inside.2

theorem listed_info {pieces : List Piece} (listed : Piece.Listed pieces)
    (parts : ∀ own sub, .child own sub ∈ pieces → Spelled own sub) :
    ∀ value ∈ Piece.children pieces, value.info? ≠ none := by
  intro value member
  obtain ⟨own, spelled⟩ : ∃ own, Spelled own value := by
    induction listed with
    | none => cases member
    | last own tree =>
      obtain rfl := List.mem_singleton.1 member
      exact ⟨own, parts own value (by simp)⟩
    | more own tree _ _ ih =>
      rcases List.mem_cons.1 member with rfl | member
      · exact ⟨own, parts own value (by simp)⟩
      · exact ih (fun own sub later => parts own sub (by simp [later])) member
  rw [spelled.info?]
  exact Option.some_ne_none _

/-- A spelled call has its shape. -/
theorem spelled_shaped (h : Spelled taken node) : Shaped node := by
  intro labelled
  cases node with
  | missing => cases labelled
  | leaf => cases labelled
  | node label children span =>
    obtain rfl := Option.some.inj labelled
    obtain ⟨pieces, _, same, _, _, fits, parts⟩ := h.of_node
    obtain ⟨called, callee, listed, values, list, rfl⟩ := fits.call rfl
    obtain ⟨inner, _, values_eq, _, _, fits', parts'⟩ :=
      (parts listed (.node .args values list) (by simp)).of_node
    obtain ⟨opening, args, closing, _, rfl, commas⟩ := fits'.args rfl
    refine ⟨callee, values, list, span, by rw [same]; rfl, ?_⟩
    rw [values_eq]
    simpa [Piece.trees] using listed_info commas fun own sub member =>
      parts' own sub (by simp [member])

/-- A spelled declarator has two children. -/
theorem spelled_declarator (h : Spelled taken node) (labelled : node.label? = some .varDeclarator) :
    node.children.length = 2 := by
  cases node with
  | missing => cases labelled
  | leaf => cases labelled
  | node label children span =>
    obtain rfl := Option.some.inj labelled
    obtain ⟨pieces, _, same, _, _, fits, _⟩ := h.of_node
    rw [Tree.children, same]
    exact fits.declarator rfl

/-- Every node of a program but the root is spelled. -/
theorem exists_spelled (h : parseProgram source = .ok tree) {label : Label}
    (inside : node ∈ tree.nodes) (labelled : node.label? = some label) (inner : label ≠ .program) :
    ∃ own, Spelled own node := by
  obtain ⟨parsed⟩ := exists_parsed h
  rw [parsed.tree_eq, Tree.nodes_node, List.mem_cons, ← parsed.children] at inside
  rcases inside with rfl | inside
  · exact absurd (Option.some.inj labelled).symm inner
  · obtain ⟨own, sub, member, deeper⟩ := Piece.mem_nodesAmong inside
    exact spelled_nodes (parsed.parts own sub member) node deeper

/-- The calls of a program have their shape. -/
theorem parsed_shaped (h : parseProgram source = .ok tree) : ∀ node ∈ tree.nodes, Shaped node := by
  intro node inside labelled
  obtain ⟨own, spelled⟩ := exists_spelled h inside labelled (by decide)
  exact spelled_shaped spelled labelled

/-- The declarators of a program have two children. -/
theorem parsed_declarator (h : parseProgram source = .ok tree) (inside : node ∈ tree.nodes)
    (labelled : node.label? = some .varDeclarator) : node.children.length = 2 := by
  obtain ⟨own, spelled⟩ := exists_spelled h inside labelled (by decide)
  exact spelled_declarator spelled labelled

/-- Shapes do not depend on what is known of the nodes. -/
theorem Shaped.of_map {f : α → β} {tree : Tree α} (h : Shaped (tree.map f)) : Shaped tree := by
  intro labelled
  obtain ⟨callee, values, list, whole, shape, present⟩ := h (by rwa [Tree.label?_map])
  obtain ⟨children, whole, rfl, children_eq, rfl⟩ := Tree.map_eq_node shape
  obtain ⟨callee, rest, rfl, rfl, rest_eq⟩ := List.map_eq_cons_iff.1 children_eq
  obtain ⟨args, rest, rfl, args_eq, none_eq⟩ := List.map_eq_cons_iff.1 rest_eq
  obtain rfl := List.map_eq_nil_iff.1 none_eq
  obtain ⟨values, list, rfl, rfl, rfl⟩ := Tree.map_eq_node args_eq
  refine ⟨callee, values, list, whole, rfl, fun value member absent => ?_⟩
  refine present (value.map f) (List.mem_map_of_mem member) ?_
  rw [Tree.info?_map, absent]
  rfl

end Uncurry.Curry
