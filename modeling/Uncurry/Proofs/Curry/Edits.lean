import Uncurry.Proofs.Curry.Sited
import Uncurry.Proofs.Document.Parsed
import Uncurry.Proofs.Document.Splicing

/-!
# The edits of a program

The sites of a program and the declaration that the stubs are put before are found one behind the
other among its tokens, so what is changed of the source stands one behind the other as well.
-/
namespace Uncurry.Curry

open Patch

variable {source : Text} {tree : SyntaxTree} {table : ArityTable} {taken : List Token}
  {behind : Location} {changes : List Change} {start stop : Nat}

/-- What a change means for the source. -/
def Change.patches (source : Text) : Change → List Patch
  | .stub start => [stubPatch source start]
  | .call site => site.patches

theorem startOf_ordered (h : Token.Ordered stop start taken) (ends : behind.offset = stop) :
    start ≤ (startOf taken behind).offset ∧ (startOf taken behind).offset ≤ stop ∧
      Token.Ordered stop (startOf taken behind).offset taken := by
  cases taken with
  | nil => exact ⟨ends ▸ h, Nat.le_of_eq ends, Nat.le_of_eq ends⟩
  | cons token later =>
    have := h.2.1
    have := h.2.2.start_le
    exact ⟨h.1, Nat.le_trans (Nat.le_of_lt h.2.1) h.2.2.start_le, Nat.le_refl _, h.2⟩

/-- Changes among tokens change stretches of the source one behind the other. -/
theorem Sited.ascending (h : Sited taken behind changes)
    (ordered : Token.Ordered stop start taken) (ends : behind.offset = stop) :
    Ascending stop start (changes.flatMap (Change.patches source)) := by
  induction h generalizing start with
  | nil => exact .nil start
  | skip token _ ih =>
    obtain ⟨first, ranged, later⟩ := ordered
    exact (ih later ends).mono (by omega)
  | @stub token _ _ _ _ _ ih =>
    obtain ⟨first, ranged, later⟩ := ordered
    have last := later.start_le
    refine .cons first (Nat.le_refl _) (Nat.le_trans (Nat.le_of_lt ranged) last) ?_
    refine (ih later ends).mono (Nat.max_le.2 ⟨ranged, Nat.le_of_lt ranged⟩)
  | @call site applied opening name comma tokens behind _ begins second _ ih =>
    obtain ⟨first, ranged, first', ranged', first'', ranged'', first''', ranged''', later⟩ :=
      ordered
    obtain ⟨after, last, later⟩ := startOf_ordered later ends
    have callee : site.callee.start = applied.start ∧ site.callee.stop = applied.stop := by
      rw [begins.callee]
      exact ⟨rfl, rfl⟩
    have argument : site.first.start = name.start := by
      rw [begins.first]
      rfl
    refine .cons (callee.1 ▸ first) ?_ ?_ (.cons ?_ ?_ ?_ ?_)
    · simp only [callee]
      omega
    · simp only [callee]
      omega
    · simp only [callee, argument]
      omega
    · simp only [argument, second]
      omega
    · simp only [second]
      exact last
    · refine (ih later ends).mono ?_
      simp only [argument, second]
      omega

/-- A declaration starts with a token that opens one. -/
theorem spelled_declaration {node : SyntaxTree} {label : Label} (h : Spelled taken node)
    (labelled : node.label? = some label) (declares : label ∈ declarationLabels) :
    ∃ token later, taken = token :: later ∧ token.opensDeclaration = true ∧
      node.info?.map Span.start = some token.start := by
  obtain ⟨token, later, rfl⟩ := List.exists_cons_of_ne_nil h.ne_nil
  refine ⟨token, later, rfl, ?_, by rw [h.info?]; rfl⟩
  cases node with
  | missing => cases labelled
  | leaf => cases labelled
  | node label' children info =>
    obtain rfl := Option.some.inj labelled
    obtain ⟨pieces, same, _, _, _, fits, _⟩ := h.of_node
    have opens := fits.declaration declares
    rwa [← same] at opens

/-- The stubs may come in before a token that opens a declaration, in front of all calls behind. -/
theorem Sited.insert {token : Token} {tokens : List Token} {sites : List (Site Span)}
    (h : Sited (token :: tokens) behind (sites.map .call)) (opens : token.opensDeclaration = true) :
    Sited (token :: tokens) behind (.stub token.start :: sites.map .call) := by
  generalize hc : sites.map Change.call = changes at h
  cases h with
  | skip _ later => exact .stub opens later
  | stub _ _ => cases sites <;> cases hc
  | call begins _ _ => rw [begins.not_opensDeclaration] at opens; cases opens

/-- The changes of some sites, and of the stubs if they have a place, in the order of the text. -/
inductive Merged (sites : List (Site Span)) : Option Location → List Change → Prop
  | calls : Merged sites none (sites.map .call)
  | stub (start : Location) {before after : List (Site Span)} : sites = before ++ after →
      Merged sites (some start) (before.map .call ++ .stub start :: after.map .call)

/-- The changes in the order of the text are those in the order of recording. -/
theorem Merged.perm {sites : List (Site Span)} {start? : Option Location}
    (h : Merged sites start? changes) :
    (start?.toList.map (stubPatch source) ++ sites.flatMap Site.patches).Perm
      (changes.flatMap (Change.patches source)) := by
  have calls (sites : List (Site Span)) :
      (sites.map Change.call).flatMap (Change.patches source) = sites.flatMap Site.patches :=
    List.flatMap_map ..
  cases h with
  | calls => exact .of_eq (calls sites).symm
  | @stub start before after sites =>
    rw [List.flatMap_append, List.flatMap_cons, calls, calls, sites, List.flatMap_append]
    exact .trans (.of_eq (by simp)) (List.perm_middle (a := stubPatch source start)).symm

end Uncurry.Curry

namespace Uncurry.Parsed

open Curry Patch

variable {source : Text} {tree : SyntaxTree} {table : ArityTable} (parsed : Parsed source tree)

theorem sites_eq (table : ArityTable) :
    sites table tree = sitesAmong table (Piece.children parsed.pieces) := by
  refine (congrArg (sites table) parsed.tree_eq).trans ?_
  rw [sites_node, ← parsed.children]
  rfl

theorem sited (behind : Location) :
    Sited parsed.code behind ((sites table tree).map .call) := by
  rw [code, parsed.spelling, parsed.sites_eq]
  exact sited_pieces (fun own sub member => sited_spelled (parsed.parts own sub member)) _

/-- A declaration of a program starts in front of a site or behind what is changed of it. -/
theorem cut {node : SyntaxTree} {label : Label} (inside : node ∈ tree.nodes)
    (labelled : node.label? = some label) (declares : label ∈ declarationLabels) :
    Cut node parsed.code (sites table tree) := by
  rw [parsed.tree_eq, Tree.nodes_node, List.mem_cons] at inside
  have inside : node ∈ Tree.nodesAmong (Piece.children parsed.pieces) := by
    rw [parsed.children]
    refine inside.resolve_left ?_
    rintro rfl
    cases labelled
    simp [declarationLabels] at declares
  rw [code, parsed.spelling, parsed.sites_eq]
  exact .pieces parsed.parts (fun own sub member deeper =>
    cut_spelled (parsed.parts own sub member) deeper labelled declares) inside

/-- What is known of the declaration that the stubs are put before. -/
theorem receiver {node : SyntaxTree} (found : receiver? tree = some node) :
    node ∈ tree.nodes ∧ ∃ label, node.label? = some label ∧ label ∈ declarationLabels := by
  obtain ⟨⟨parent, node⟩, visited, rfl⟩ := Option.map_eq_some_iff.1 found
  have declares := List.find?_some visited
  simp only [Bool.and_eq_true, Option.any_eq_true] at declares
  obtain ⟨_, label, labelled, declares⟩ := declares
  refine ⟨?_, label, labelled, List.contains_iff_mem.1 declares⟩
  rw [← Tree.visits_map_snd none tree]
  exact List.mem_map_of_mem (List.mem_of_find?_eq_some visited)

/-- The changes of a program are found among its tokens. -/
theorem exists_changes (table : ArityTable) : ∃ changes,
    Merged (sites table tree) (((receiver? tree).bind Tree.info?).map Span.start) changes ∧
      ∀ behind, Sited parsed.code behind changes := by
  cases found : receiver? tree with
  | none => exact ⟨_, .calls, parsed.sited⟩
  | some node =>
    obtain ⟨inside, label, labelled, declares⟩ := receiver found
    generalize hs : sites table tree = among
    generalize hc : parsed.code = taken
    cases hs ▸ hc ▸ parsed.cut inside labelled declares with
    | @intro front before own back after starts spelled sited sited' =>
      obtain ⟨token, later, rfl, opens, start⟩ := spelled_declaration spelled labelled declares
      obtain ⟨rest, rfl⟩ := starts
      rw [Option.bind_some, start]
      refine ⟨_, .stub token.start rfl, fun behind => .append (sited behind) ?_⟩
      exact (sited' behind).insert opens

/-- What is changed of the source stands one behind the other. -/
theorem exists_sorted (parsed : Parsed source tree) (table : ArityTable) :
    ∃ sorted, (edits source table tree).Perm sorted ∧ Ascending source.length 0 sorted := by
  obtain ⟨changes, merged, sited⟩ := parsed.exists_changes table
  refine ⟨changes.flatMap (Change.patches source), ?_, ?_⟩
  · have perm : List.Perm (List.map (stubPatch source) _ ++ _) _ := merged.perm
    rw [Option.toList_map, List.map_map] at perm
    exact perm
  · exact (sited ⟨source.length, 0, 0⟩).ascending parsed.code_ordered rfl

end Uncurry.Parsed
