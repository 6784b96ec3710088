import Uncurry.Proofs.Document.Spans
import Uncurry.Proofs.Grafting.Basic

/-!
# Tokens apart from the name

Where tokens stand apart from the place of the name, the name does not occur in what they spell. So
it is with the tokens of a node which none of its children keeps: where the place of the name is in
the node, a child holds the name, and the tokens of the child are others.
-/
namespace Uncurry

open Uncurry.Tree (partsAmong)

variable {g : Graft} {own taken : List Token} {tree : SyntaxTree} {pieces : List Piece}
  {token : Token} {start stop : Nat}

theorem Tree.SpelledIn.leaf {kind : LeafKind} {text : Text} {span : Span}
    (h : Tree.SpelledIn taken (.leaf kind text span)) : ∃ token ∈ taken, token.span = span := by
  rcases h with ⟨own, inside, spelled⟩ | ⟨_, token, member, same⟩
  · obtain ⟨token, rfl, _, _, rfl⟩ := spelled.of_leaf
    exact ⟨token, inside.subset List.mem_cons_self, rfl⟩
  · simp only [Tree.leaf.injEq] at same
    exact ⟨token, member, same.2.2.symm⟩

namespace Graft

/-- No stretch of the tokens spans the place of the name. -/
def Apart (g : Graft) (taken : List Token) : Prop :=
  ∀ own, own <:+: taken → own ≠ [] → ¬g.Within (Token.spanOf own)

namespace Apart

theorem of_infix (apart : g.Apart taken) (inside : own <:+: taken) : g.Apart own :=
  fun _ deeper => apart _ (deeper.trans inside)

/-- Tokens in order between two offsets are apart from the name if it does not lie there. -/
theorem of_ordered (ordered : Token.Ordered stop start taken)
    (outside : ¬(start ≤ g.span.start.offset ∧ g.span.stop.offset ≤ stop)) : g.Apart taken := by
  intro own inside nonempty within
  obtain ⟨front, _, back⟩ := (ordered.of_infix inside).spanOf nonempty
  exact outside ⟨Nat.le_trans front within.1, Nat.le_trans within.2 back⟩

theorem span_ne (apart : g.Apart taken) (member : token ∈ taken) : token.span ≠ g.span := by
  intro same
  obtain ⟨front, back, rfl⟩ := List.append_of_mem member
  refine apart [token] ⟨front, back, by simp⟩ (List.cons_ne_nil _ _) ?_
  have spans : Token.spanOf [token] = token.span := rfl
  rw [spans, same]
  exact ⟨Nat.le_refl _, Nat.le_refl _⟩

theorem names (apart : g.Apart taken) (member : token ∈ taken) : g.names token = false :=
  Bool.eq_false_iff.2 fun named => apart.span_ne member (congrArg Token.span (names_eq_true named))

theorem not_spelledIn (apart : g.Apart taken) : ¬g.leaf.SpelledIn taken := fun inside =>
  let ⟨_, member, same⟩ := inside.leaf
  apart.span_ne member same

theorem leaf {kind : LeafKind} (apart : g.Apart taken) (member : token ∈ taken) :
    g.Apt (.leaf kind token.text token.span) :=
  .leaf fun same => apart.span_ne member (Option.some.inj (congrArg Tree.info? same))

/-- What pieces give is apt if the tokens of the pieces are apart. -/
theorem children (apart : g.Apart (Piece.spelling pieces))
    (echo : ∀ kind token, .echo kind token ∈ pieces → token ∈ Piece.spelling pieces)
    (below : ∀ own sub, .child own sub ∈ pieces → g.Apart own → g.Apt sub) :
    ∀ child ∈ Piece.children pieces, g.Apt child := by
  intro child member
  obtain ⟨piece, inside, given⟩ := List.mem_flatMap.1 member
  cases piece with
  | token => cases given
  | absent => exact List.mem_singleton.1 given ▸ .missing
  | word kind token =>
    rw [List.mem_singleton.1 given]
    exact apart.leaf ((Piece.infix_spelling inside).subset List.mem_cons_self)
  | echo kind token =>
    rw [List.mem_singleton.1 given]
    exact apart.leaf (echo kind token inside)
  | child own sub =>
    rw [List.mem_singleton.1 given]
    exact below own sub inside (apart.of_infix (Piece.infix_spelling inside))

/-- Tokens apart from the name spell a tree without it. -/
theorem apt (apart : g.Apart taken) (spelled : Spelled taken tree) : g.Apt tree := by
  induction spelled with
  | leaf token => exact apart.leaf List.mem_cons_self
  | node label pieces nonempty fits _ ih =>
    refine .node (apart.children (fun kind token echoes => ?_) ih) fun within =>
      absurd within (apart _ (List.infix_refl _) nonempty)
    obtain ⟨_, next, same, head, _⟩ := fits.echo kind token echoes
    rw [same, Piece.spelling_cons, Piece.spelling_cons]
    exact List.mem_append_right _ (List.mem_append_left _ (List.mem_of_mem_head? head))

/-- Tokens in front of those that spell the name are apart from it. -/
theorem front (ordered : Token.Ordered stop start (taken ++ own)) (inside : g.leaf.SpelledIn own) :
    g.Apart taken := by
  obtain ⟨between, before, behind⟩ := ordered.of_append
  obtain ⟨token, member, same⟩ := inside.leaf
  have known := behind.mem member
  rw [Token.start, Token.stop, same] at known
  exact .of_ordered before fun outside => by omega

/-- Tokens behind those that spell the name are apart from it. -/
theorem back (ordered : Token.Ordered stop start (own ++ taken)) (inside : g.leaf.SpelledIn own) :
    g.Apart taken := by
  obtain ⟨between, before, behind⟩ := ordered.of_append
  obtain ⟨token, member, same⟩ := inside.leaf
  have known := before.mem member
  rw [Token.start, Token.stop, same] at known
  exact .of_ordered behind fun outside => by omega

end Apart

/-- Tokens of a node that none of its children keeps are apart from the name, if a child holds the
name where its place is in the node. -/
theorem apart_of_held {c c₁ c₂ c₃ : Cursor} {front back : List SyntaxTree}
    (ordered : Token.Ordered stop start c.rest) (ends : c.final.kind = .endOfInput)
    (before : c.Laid front c₁) (passes : c₁.Passes own c₂) (nonempty : own ≠ [])
    (behind : c₂.Laid back c₃)
    (held : g.Within ⟨c.current.start, c₃.stop⟩ → g.leaf ∈ partsAmong (front ++ back)) :
    g.Apart own := by
  obtain ⟨pieces, first, rfl, plain, parts⟩ := before ends
  obtain ⟨pieces', second, rfl, plain', parts'⟩ := behind (by
    rw [passes.final, first.final, ends])
  have all := first.trans (passes.trans second)
  rw [all.rest] at ordered
  obtain ⟨_, ordered, _⟩ := ordered.of_append
  have spelled (pieces : List Piece) (plain : ∀ piece ∈ pieces, piece.isEcho = false)
      (parts : ∀ own sub, .child own sub ∈ pieces → Spelled own sub)
      (inside : g.leaf ∈ partsAmong (Piece.children pieces)) :
      g.leaf.SpelledIn (Piece.spelling pieces) :=
    Piece.spelledIn (fun _ _ echo => by cases plain _ echo)
      (fun _ _ child => (parts _ _ child).spelledIn) _ inside
  by_cases within : g.Within ⟨c.current.start, c₃.stop⟩
  · rcases List.mem_append.1 (Tree.partsAmong_append .. ▸ held within) with member | member
    · refine Apart.back (ordered.of_infix ⟨[], Piece.spelling pieces', ?_⟩)
        (spelled pieces plain parts member)
      simp
    · obtain ⟨_, _, ordered⟩ := ordered.of_append
      exact Apart.front ordered (spelled pieces' plain' parts' member)
  · have ordered := ordered.tight (by simp [nonempty])
    rw [all.spanOf_eq (by simp [nonempty])] at ordered
    exact .of_ordered (ordered.of_infix (List.infix_append' ..)) within

end Graft

end Uncurry
