import Uncurry.Proofs.Document.Contexts
import Uncurry.Proofs.Grafting.Apart

/-!
# The one place of a callee

A callee that is a name is one token, and no other token stands where it stands. So its leaf is
found in one place of the tree alone, where a parenthesis follows among the tokens, and putting the
dotted name there is the graft.
-/
namespace Uncurry

open Uncurry.Tree (partsAmong)

/-- Tokens in order stand in different places. -/
theorem Token.Ordered.nodup {start stop : Nat} {taken : List Token}
    (ordered : Token.Ordered stop start taken) : (taken.map Token.span).Nodup := by
  induction taken generalizing start with
  | nil => exact List.nodup_nil
  | cons token later ih =>
    obtain ⟨_, ranged, rest⟩ := ordered
    refine List.nodup_cons.2 ⟨fun again => ?_, ih rest⟩
    obtain ⟨other, member, same⟩ := List.mem_map.1 again
    have behind := (rest.mem member).1
    rw [Token.start, same] at behind
    exact absurd ranged (Nat.not_lt.2 behind)

namespace Graft

/-- The name occurs in a tree once, as the callee of a call. -/
inductive Once (g : Graft) : SyntaxTree → Prop
  | call {values : SyntaxTree} {span : Span} :
      g.leaf ∉ values.parts → g.Apt values → Once g (.node .call [g.leaf, values] span)
  | node {label : Label} {front back : List SyntaxTree} {child : SyntaxTree} {span : Span} :
      g.leaf ∉ partsAmong (front ++ back) → (∀ tree ∈ front ++ back, g.Apt tree) → Once g child →
      Once g (.node label (front ++ child :: back) span)

variable {g : Graft} {taken : List Token} {tree : SyntaxTree} {pieces : List Piece} {span : Span}
  {rest : List SyntaxTree} {start stop : Nat}

mutual

theorem tree_of_notMem : (tree : SyntaxTree) → g.leaf ∉ tree.parts → g.tree tree = tree
  | .missing, _ => rfl
  | .leaf _ _ _, absent => tree_of_ne fun same => absent (List.mem_singleton.2 same.symm)
  | .node label children span, absent => by
    rw [tree, trees_of_notMem children fun inside => absent (List.mem_cons_of_mem _ inside)]

theorem trees_of_notMem : (trees : List SyntaxTree) → g.leaf ∉ partsAmong trees →
    g.trees trees = trees
  | [], _ => rfl
  | first :: later, absent => by
    rw [trees, tree_of_notMem first fun inside => absent (List.mem_append_left _ inside),
      trees_of_notMem later fun inside => absent (List.mem_append_right _ inside)]

end

theorem Once.mem (once : g.Once tree) : g.leaf ∈ tree.parts := by
  induction once with
  | call => simp [leaf]
  | node _ _ _ ih => simp [ih]

theorem Once.apt (once : g.Once tree) : g.Apt tree := by
  induction once with
  | call _ values => exact .call values
  | @node label front back child span _ others once ih =>
    have others := List.forall_mem_append.1 others
    refine .node (List.forall_mem_append.2 ⟨others.1, List.forall_mem_cons.2 ⟨ih, others.2⟩⟩)
      fun _ => ?_
    simp [once.mem]

/-- The name occurs among the children that plain pieces give in one of them alone. -/
theorem exists_children (ordered : Token.Ordered stop start (Piece.spelling pieces))
    (plain : ∀ piece ∈ pieces, piece.isEcho = false)
    (parts : ∀ own sub, .child own sub ∈ pieces → Spelled own sub) {own : List Token}
    {sub : SyntaxTree} (member : .child own sub ∈ pieces) (inside : g.leaf ∈ sub.parts) :
    ∃ front back, Piece.children pieces = front ++ sub :: back ∧
      g.leaf ∉ partsAmong (front ++ back) ∧ ∀ tree ∈ front ++ back, g.Apt tree := by
  obtain ⟨before, after, rfl⟩ := List.append_of_mem member
  have here := (parts own sub member).spelledIn _ inside
  rw [Piece.spelling_append, Piece.spelling_cons] at ordered
  have front := Apart.front ordered (here.mono (List.prefix_append own _).isInfix)
  obtain ⟨_, _, ordered⟩ := ordered.of_append
  have back := Apart.back ordered here
  have others (pieces : List Piece)
      (known : ∀ piece ∈ pieces, piece ∈ before ++ .child own sub :: after)
      (apart : g.Apart (Piece.spelling pieces)) :
      g.leaf ∉ partsAmong (Piece.children pieces) ∧ ∀ tree ∈ Piece.children pieces, g.Apt tree := by
    have echo (kind : LeafKind) (token : Token) (echo : .echo kind token ∈ pieces) :
        token ∈ Piece.spelling pieces := by cases plain _ (known _ echo)
    exact ⟨fun again => apart.not_spelledIn (Piece.spelledIn echo
        (fun _ _ child => (parts _ _ (known _ child)).spelledIn) _ again),
      apart.children echo fun _ _ child apart => apart.apt (parts _ _ (known _ child))⟩
  obtain ⟨absent, apt⟩ := others before (fun _ => List.mem_append_left _) front
  obtain ⟨absent', apt'⟩ := others after
    (fun _ later => List.mem_append_right _ (List.mem_cons_of_mem _ later)) back
  refine ⟨Piece.children before, Piece.children after, by simp [Piece.trees], ?_,
    List.forall_mem_append.2 ⟨apt, apt'⟩⟩
  rw [Tree.partsAmong_append, List.mem_append]
  exact not_or.2 ⟨absent, absent'⟩

theorem mem_parts_of_call {part : SyntaxTree}
    (inside : .node .call (g.leaf :: rest) span ∈ part.parts) : g.leaf ∈ part.parts :=
  Tree.parts_subset part inside (by simp [leaf])

end Graft

variable {g : Graft} {taken : List Token} {tree : SyntaxTree} {span : Span} {rest : List SyntaxTree}
  {start stop : Nat}

/-- A callee that is a name occurs once in what tokens spell. -/
theorem Spelled.once (h : Spelled taken tree) (ordered : Token.Ordered stop start taken)
    (inside : .node .call (g.leaf :: rest) span ∈ tree.parts) : g.Once tree := by
  induction h with
  | leaf token => simp [Parser.leaf] at inside
  | node label pieces nonempty fits parts ih =>
    rw [Tree.parts_node, List.mem_cons] at inside
    rcases inside with same | inside
    · simp only [Tree.node.injEq] at same
      obtain ⟨rfl, children, rfl⟩ := same
      obtain ⟨called, callee, listed, values, list, rfl⟩ := fits.call rfl
      obtain ⟨rfl, _⟩ := List.cons.inj children
      have ordered : Token.Ordered stop start (called ++ listed) := by
        simpa [Piece.tokens] using ordered
      have apart := Graft.Apart.back (g := g) ordered
        ((parts called g.leaf (by simp)).spelledIn _ (by simp [Graft.leaf]))
      have spelled := parts listed (.node .args values list) (by simp)
      exact .call (fun again => apart.not_spelledIn (spelled.spelledIn _ again))
        (apart.apt spelled)
    · obtain ⟨own, sub, member, deeper⟩ | ⟨_, _, _, same⟩ := Piece.mem_partsAmong inside
      · have once := ih own sub member (ordered.of_infix (Piece.infix_spelling member)) deeper
        by_cases plain : ∀ piece ∈ pieces, piece.isEcho = false
        · obtain ⟨front, back, children, absent, others⟩ :=
            Graft.exists_children ordered plain parts member (Graft.mem_parts_of_call deeper)
          rw [children]
          exact .node absent others once
        · simp only [not_forall, Bool.not_eq_false] at plain
          obtain ⟨piece, echoes, echo⟩ := plain
          cases piece with
          | echo kind token =>
            obtain ⟨_, next, rfl, _, repeats⟩ := fits.echo kind token echoes
            obtain rfl : .child own sub = next := by simpa using member
            cases repeats with
            | pattern _ initial span pattern =>
              have leaf := once.apt.children (by decide) _ List.mem_cons_self
              refine @Graft.Once.node g _ [_] [] _ _ ?_ (by simpa using leaf) once
              simpa using leaf.of_leaf.symm
          | _ => cases echo
      · cases same

namespace Parsed

variable {source : Text} (parsed : Parsed source tree)
  (inside : .node .call (g.leaf :: rest) span ∈ tree.parts)

include parsed inside

/-- A callee that is a name occurs once in a program. -/
theorem once : g.Once tree := by
  have ordered := parsed.code_ordered
  rw [code, parsed.spelling] at ordered
  rw [parsed.tree_eq, Tree.parts_node, List.mem_cons, ← parsed.children] at inside
  rcases inside with same | inside
  · cases same
  obtain ⟨own, sub, member, deeper⟩ | ⟨_, _, _, same⟩ := Piece.mem_partsAmong inside
  · obtain ⟨front, back, children, absent, others⟩ := Graft.exists_children ordered parsed.plain
      parsed.parts member (Graft.mem_parts_of_call deeper)
    rw [parsed.tree_eq, ← parsed.children, children]
    exact .node absent others ((parsed.parts own sub member).once
      (ordered.of_infix (Piece.infix_spelling member)) deeper)
  · cases same

/-- The token of a callee that is a name has a parenthesis behind it. -/
theorem exists_called : ∃ front token paren back, parsed.code = front ++ token :: paren :: back ∧
    g.names token = true ∧ paren.kind = .leftParen := by
  rw [parsed.tree_eq, Tree.parts_node, List.mem_cons] at inside
  rcases inside with same | inside
  · cases same
  obtain ⟨own, ⟨front, back, code⟩, spelled⟩ | ⟨_, _, _, same⟩ := parsed.spelledIn _ inside
  · obtain ⟨pieces, rfl, children, _, _, fits, parts⟩ := spelled.of_node
    obtain ⟨called, callee, listed, values, list, rfl⟩ := fits.call rfl
    obtain ⟨rfl, _⟩ := List.cons.inj children
    obtain ⟨token, rfl, kind, text, span⟩ := (parts called g.leaf (by simp)).of_leaf
    obtain ⟨inner, rfl, _, _, _, fits', _⟩ :=
      (parts listed (.node .args values list) (by simp)).of_node
    obtain ⟨paren, args, closing, opens, rfl, _⟩ := fits'.args rfl
    refine ⟨front, token, paren, Piece.spelling (args ++ [.token closing]) ++ back, ?_, ?_, opens⟩
    · rw [← code]
      simp [Piece.tokens]
    · simp only [LeafKind.token.injEq] at kind
      simp [Graft.names, ← kind, ← text, ← span]
  · cases same

end Parsed

namespace Graft

theorem tokens_of_unnamed {front : List Token} (plain : ∀ token ∈ front, g.names token = false)
    (behind : List Token) : g.tokens (front ++ behind) = front ++ g.tokens behind := by
  induction front with
  | nil => rfl
  | cons token front ih =>
    obtain ⟨unnamed, plain⟩ := List.forall_mem_cons.1 plain
    rw [List.cons_append, tokens, unnamed, Bool.false_and, if_neg Bool.false_ne_true, ih plain]
    rfl

/-- Among tokens in different places the dotted name is put in front of one parenthesis. -/
theorem tokens_eq {front back : List Token} {token paren : Token}
    (distinct : ((front ++ token :: paren :: back).map Token.span).Nodup)
    (named : g.names token = true) (opens : paren.kind = .leftParen) :
    g.tokens (front ++ token :: paren :: back) =
      front ++ g.head token.newlineBefore :: (g.links g.members ++ paren :: back) := by
  have unnamed {other : Token} (apart : other.span ≠ token.span) : g.names other = false :=
    Bool.eq_false_iff.2 fun again => apart (by rw [names_eq_true again, names_eq_true named])
  rw [List.map_append, List.nodup_append', List.map_cons, List.nodup_cons, List.map_cons]
    at distinct
  obtain ⟨_, ⟨behind, _⟩, before⟩ := distinct
  have back_plain : ∀ other ∈ back, g.names other = false := fun other member =>
    unnamed fun same => behind (same ▸ List.mem_cons_of_mem _ (List.mem_map_of_mem member))
  rw [tokens_of_unnamed, tokens_called named opens]
  · have kept := tokens_of_unnamed back_plain []
    simp only [List.append_nil, tokens] at kept
    rw [kept]
  · exact fun other member => unnamed fun same =>
      before (List.mem_map_of_mem member) (same ▸ List.mem_cons_self)

section

variable {callee new : DocumentTree} {others : List DocumentTree} {whole : Mark}

/-- What holds a call of the name holds the name. -/
theorem leaf_mem_of_call {trees : List DocumentTree} (name : callee.map Mark.span = g.leaf)
    (inside : .node .call (callee :: others) whole ∈ partsAmong trees) :
    g.leaf ∈ partsAmong (trees.map (Tree.map Mark.span)) := by
  obtain ⟨mark, rfl, _⟩ := Tree.map_eq_leaf name
  rw [← Tree.mapAll_eq, Tree.partsAmong_map, ← name]
  exact List.mem_map_of_mem (Tree.parts_subset_among trees inside (by simp))

/-- A new callee in the one call of the name makes the graft. -/
theorem Once.shape_modifyChildren {t : DocumentTree} (once : g.Once (t.map Mark.span))
    (unique : (Tree.idsAmong [t]).Nodup) (inside : .node .call (callee :: others) whole ∈ t.parts)
    (name : callee.map Mark.span = g.leaf) (same : new.shape = g.value.shape) :
    (t.modifyChildren whole.id (·.set 0 new)).shape = (g.tree (t.map Mark.span)).shape := by
  have kept (trees : List DocumentTree)
      (absent : g.leaf ∉ partsAmong (trees.map (.map Mark.span))) :
      ((trees.map (Tree.map Mark.span)).map g.tree).map Tree.shape = trees.map Tree.shape := by
    rw [← trees_eq, trees_of_notMem _ absent, ← Tree.mapAll_eq, Tree.shape_mapAll]
  generalize mapped : t.map Mark.span = tree at once
  induction once generalizing t with
  | @call values _ absent _ =>
    obtain ⟨children, mark, rfl, children_eq, _⟩ := Tree.map_eq_node mapped
    obtain ⟨old, rest, rfl, old_eq, rest_eq⟩ := List.map_eq_cons_iff.1 children_eq
    rw [← rest_eq, tree_node, List.map_cons, tree_leaf]
    have absent : g.leaf ∉ partsAmong (rest.map (.map Mark.span)) := by simpa [rest_eq] using absent
    rcases List.mem_cons.1 inside with call | deeper
    · simp only [Tree.node.injEq] at call
      obtain ⟨_, _, rfl⟩ := call
      rw [Tree.modifyChildren, if_pos rfl, List.set_cons_zero, Tree.shape_node, Tree.shape_node,
        List.map_cons, List.map_cons, same, kept rest absent]
    · obtain ⟨_, rfl, _⟩ := Tree.map_eq_leaf old_eq
      rw [Tree.partsAmong_cons, Tree.parts_leaf, List.singleton_append, List.mem_cons] at deeper
      rcases deeper with leaf | deeper
      · cases leaf
      · exact absurd (leaf_mem_of_call name deeper) absent
  | @node label front back child _ absent _ once ih =>
    obtain ⟨children, mark, rfl, children_eq, _⟩ := Tree.map_eq_node mapped
    obtain ⟨front, others', rfl, rfl, others_eq⟩ := List.map_eq_append_iff.1 children_eq
    obtain ⟨child, back, rfl, rfl, rfl⟩ := List.map_eq_cons_iff.1 others_eq
    simp only [Tree.partsAmong_append, List.mem_append, not_or] at absent
    have deeper : .node .call (callee :: others) whole ∈ child.parts := by
      rcases List.mem_cons.1 inside with call | below
      · simp only [Tree.node.injEq] at call
        have first : g.leaf ∈ (front ++ child :: back).map (Tree.map Mark.span) :=
          name ▸ List.mem_map_of_mem (call.2.1 ▸ List.mem_cons_self)
        rw [children_eq, List.mem_append, List.mem_cons] at first
        rcases first with before | here | after
        · exact absurd (Tree.mem_partsAmong before rfl) absent.1
        · exact absurd (here ▸ once.apt) Apt.not_leaf
        · exact absurd (Tree.mem_partsAmong after rfl) absent.2
      · rw [Tree.partsAmong_append, Tree.partsAmong_cons, List.mem_append, List.mem_append] at below
        rcases below with before | here | after
        · exact absurd (leaf_mem_of_call name before) absent.1
        · exact here
        · exact absurd (leaf_mem_of_call name after) absent.2
    have number : whole.id ∈ child.parts.filterMap Tree.id? :=
      List.mem_filterMap.2 ⟨_, deeper, rfl⟩
    rw [Tree.idsAmong_cons, Tree.idsAmong_nil, List.append_nil] at unique
    obtain ⟨root, unique⟩ : mark.id ∉ Tree.idsAmong (front ++ child :: back) ∧
        (Tree.idsAmong (front ++ child :: back)).Nodup := List.nodup_cons.1 unique
    have other : mark.id ≠ whole.id := fun same => root <| by
      rw [same, Tree.idsAmong_append, Tree.idsAmong_cons]
      exact List.mem_append_right _ (List.mem_append_left _ number)
    have whole_child := ih (t := child) (unique.sublist ?_) deeper rfl
    · rw [Tree.modifyChildren, if_neg other, Tree.modifyChildrenAmong_split unique number,
        tree_node, Tree.shape_node, Tree.shape_node]
      simp only [List.map_append, List.map_cons, whole_child, kept front absent.1,
        kept back absent.2]
    · rw [Tree.idsAmong_append, Tree.idsAmong_cons, Tree.idsAmong_cons, Tree.idsAmong_nil,
        List.append_nil]
      exact (List.sublist_append_left _ _).trans (List.sublist_append_right _ _)

end

end Graft

end Uncurry
