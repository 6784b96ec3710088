import Uncurry.Curry.Call
import Uncurry.Proofs.Curry.StubBlock
import Uncurry.Proofs.Document.Parts

/-!
# Saturated calls as places in a text

A site is a call that applies a curried function to all its arguments at once, with what is needed
to uncurry it.
-/
namespace Uncurry

variable {α β : Type}

namespace Curry

/-- A call that applies a curried function to all its arguments at once: what is known of its
callee, of the function and of the argument behind it, and the name of the function. -/
structure Site (α : Type) where
  callee : α
  name : Text
  first : α
  second : α

/-- The same site with what is known of its parts changed. -/
def Site.map (f : α → β) (site : Site α) : Site β :=
  ⟨f site.callee, site.name, f site.first, f site.second⟩

/-- What uncurrying a call changes of the source: its callee becomes the member of the function that
takes all arguments at once, and its first argument is left out up to the second. -/
def Site.patches (site : Site Span) : List Patch :=
  [⟨⟨site.callee.start.offset, site.callee.stop.offset⟩, direct site.name⟩,
    ⟨⟨site.first.start.offset, site.second.start.offset⟩, []⟩]

/-- The site that a call is, if it is one: its callee is one of `A0` to `A9`, and there are as many
arguments behind the function as the callee and the table say. -/
def site? (table : ArityTable) : Tree α → Option (Site α)
  | .node .call [.leaf (.token .identifier) applied callee,
      .node .args (.leaf (.token .identifier) name first :: second :: later) _] _ =>
    if applicationArity? applied = some (later.length + 1) ∧
        table.get? name = some ((later.length + 1 : Nat) : Int) then
      second.info?.map fun behind => ⟨callee, name, first, behind⟩
    else none
  | _ => none

/-- The sites of a tree, a call before what it holds. -/
def sites (table : ArityTable) (tree : Tree α) : List (Site α) :=
  tree.nodes.filterMap (site? table)

def sitesAmong (table : ArityTable) (trees : List (Tree α)) : List (Site α) :=
  (Tree.nodesAmong trees).filterMap (site? table)

variable {table : ArityTable}

@[simp] theorem sites_missing : sites table (.missing : Tree α) = [] := rfl

@[simp] theorem sites_leaf (kind : LeafKind) (text : Text) (info : α) :
    sites table (.leaf kind text info) = [] := rfl

theorem sites_node (label : Label) (children : List (Tree α)) (info : α) :
    sites table (.node label children info) =
      (site? table (.node label children info)).toList ++ sitesAmong table children := by
  rw [sites, Tree.nodes_node, List.filterMap_cons]
  cases site? table (.node label children info) <;> rfl

@[simp] theorem sitesAmong_nil : sitesAmong table ([] : List (Tree α)) = [] := rfl

@[simp] theorem sitesAmong_cons (tree : Tree α) (trees : List (Tree α)) :
    sitesAmong table (tree :: trees) = sites table tree ++ sitesAmong table trees := by
  simp [sitesAmong, sites]

@[simp] theorem sitesAmong_append (trees more : List (Tree α)) :
    sitesAmong table (trees ++ more) = sitesAmong table trees ++ sitesAmong table more := by
  simp [sitesAmong]

/-- A site tells what its call looks like. -/
theorem site?_eq_some {tree : Tree α} {site : Site α} (h : site? table tree = some site) :
    ∃ applied second later list whole, tree = .node .call
        [.leaf (.token .identifier) applied site.callee,
          .node .args (.leaf (.token .identifier) site.name site.first :: second :: later) list]
        whole ∧
      applicationArity? applied = some (later.length + 1) ∧
      table.get? site.name = some ((later.length + 1 : Nat) : Int) ∧
      second.info? = some site.second := by
  unfold site? at h
  split at h
  · split at h
    · rename_i applied callee name first second later list whole arity
      obtain ⟨behind, hb, rfl⟩ := Option.map_eq_some_iff.1 h
      exact ⟨applied, second, later, list, whole, rfl, arity.1, arity.2, hb⟩
    · cases h
  · cases h

/-- A call that looks like one of a site is one. -/
theorem site?_of_shape {applied name : Text} {callee first behind list whole : α}
    {second : Tree α} {later : List (Tree α)}
    (arity : applicationArity? applied = some (later.length + 1))
    (known : table.get? name = some ((later.length + 1 : Nat) : Int))
    (info : second.info? = some behind) :
    site? table (.node .call [.leaf (.token .identifier) applied callee,
        .node .args (.leaf (.token .identifier) name first :: second :: later) list] whole) =
      some ⟨callee, name, first, behind⟩ := by
  rw [site?, if_pos ⟨arity, known⟩, info]
  rfl

theorem site?_map (f : α → β) (tree : Tree α) :
    site? table (tree.map f) = (site? table tree).map (Site.map f) := by
  cases found : site? table tree with
  | some site =>
    obtain ⟨applied, second, later, list, whole, rfl, arity, known, info⟩ := site?_eq_some found
    simp only [Tree.map, Tree.mapAll, Tree.mapAll_eq]
    exact site?_of_shape (by simpa using arity) (by simpa using known) (by simp [info])
  | none =>
    rw [Option.map_none, Option.eq_none_iff_forall_ne_some]
    intro site there
    obtain ⟨applied, second, later, list, whole, shape, arity, known, info⟩ := site?_eq_some there
    obtain ⟨children, whole, rfl, children_eq, rfl⟩ := Tree.map_eq_node shape
    obtain ⟨callee, rest, rfl, callee_eq, rest_eq⟩ := List.map_eq_cons_iff.1 children_eq
    obtain ⟨args, rest, rfl, args_eq, none_eq⟩ := List.map_eq_cons_iff.1 rest_eq
    obtain rfl := List.map_eq_nil_iff.1 none_eq
    obtain ⟨calleeInfo, rfl, _⟩ := Tree.map_eq_leaf callee_eq
    obtain ⟨values, list, rfl, values_eq, _⟩ := Tree.map_eq_node args_eq
    obtain ⟨first, rest, rfl, first_eq, others_eq⟩ := List.map_eq_cons_iff.1 values_eq
    obtain ⟨firstInfo, rfl, _⟩ := Tree.map_eq_leaf first_eq
    obtain ⟨second, later, rfl, rfl, rfl⟩ := List.map_eq_cons_iff.1 others_eq
    rw [Tree.info?_map] at info
    obtain ⟨behind, info, _⟩ := Option.map_eq_some_iff.1 info
    rw [site?_of_shape (by simpa using arity) (by simpa using known) info] at found
    cases found

theorem sites_map (f : α → β) (tree : Tree α) :
    sites table (tree.map f) = (sites table tree).map (Site.map f) := by
  rw [sites, Tree.nodes_map, List.filterMap_map, sites, List.map_filterMap]
  exact congrArg (List.filterMap · tree.nodes) (funext (site?_map f))

/-- The first declaration of a tree that stands in a list of statements. -/
def receiver? (tree : Tree α) : Option (Tree α) :=
  ((tree.visits none).find? fun visit =>
    visit.1.any Label.isStatementList && visit.2.label?.any declarationLabels.contains).map (·.2)

theorem receiver?_map (f : α → β) (tree : Tree α) :
    receiver? (tree.map f) = (receiver? tree).map (Tree.map f) := by
  rw [receiver?, Tree.visits_map, List.find?_map, Option.map_map, receiver?, Option.map_map]
  have same : (fun visit : Option Label × Tree β => visit.1.any Label.isStatementList &&
      visit.2.label?.any declarationLabels.contains) ∘ Prod.map id (Tree.map f) =
      fun visit : Option Label × Tree α => visit.1.any Label.isStatementList &&
        visit.2.label?.any declarationLabels.contains := by
    funext visit
    simp
  rw [same]
  rfl

/-- The stubs line by line, with the indentation of the declaration that they are put before. -/
def stubPatch (source : Text) (start : Location) : Patch :=
  ⟨⟨start.offset, start.offset⟩, stubBlock (margin source start.offset)⟩

/-- Everything that uncurrying a program changes of its source, in the order of recording. -/
def edits (source : Text) (table : ArityTable) (tree : SyntaxTree) : List Patch :=
  ((receiver? tree).bind Tree.info?).toList.map (fun span => stubPatch source span.start) ++
    (sites table tree).flatMap Site.patches

end Curry

end Uncurry
