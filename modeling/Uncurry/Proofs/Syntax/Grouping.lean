import Uncurry.Proofs.Lexical.Items
import Uncurry.Proofs.Progress.Tracking
import Uncurry.Proofs.Syntax.Expressions

/-!
# How binary operators group

Operands with binary operators between them are read in turn, and a tree joins them. `Tree.spine`
reads them off the tree again, `Grammar.Grouped` says that the tree groups them as the levels of the
operators demand. A grouped tree is the only one with its spine, and what the parser above some
level builds is grouped: the loop keeps it, since the operand on the right has taken all operators
that bind more strongly, and the operator in front of which it stops does not.
-/
namespace Uncurry

namespace Tree

variable {α : Type}

/-- Whether a tree is two operands that a binary operator joins. -/
def isJoined (tree : Tree α) : Bool := tree.hasLabel .binary || tree.hasLabel .logical

/-- The operands that the binary operators of a tree join, in the order in which they stand: the
first one, and the others each behind its operator. What stands in parentheses is one operand. -/
def spine : Tree α → Tree α × List (Tree α × Tree α)
  | node label [left, operator, right] info =>
    if label = .binary ∨ label = .logical then
      (left.spine.1, left.spine.2 ++ (operator, right.spine.1) :: right.spine.2)
    else (node label [left, operator, right] info, [])
  | tree => (tree, [])

/-- The level of an operator. -/
def operatorLevel? : Tree α → Option Nat
  | leaf (.token kind) _ _ => Grammar.level? kind
  | _ => none

/-- The level of the operator that joins the operands of a tree, if it is not one operand. -/
def joinLevel? (tree : Tree α) : Option Nat :=
  if tree.isJoined then (tree.child 1).operatorLevel? else none

theorem spine_operand {tree : Tree α} (operand : tree.isJoined = false) :
    tree.spine = (tree, []) := by
  unfold spine
  split
  · rename_i label _ _ _ _
    rw [if_neg]
    simpa [isJoined, hasLabel, label?] using operand
  · rfl

theorem joinLevel?_operand {tree : Tree α} (operand : tree.isJoined = false) :
    tree.joinLevel? = none := if_neg (by rw [operand]; exact Bool.false_ne_true)

end Tree

/-- A parser whose results all have a property. -/
def Parser.Yields {α : Type} (P : α → Prop) (p : Parser α) : Prop :=
  ∀ ⦃context c a c'⦄, p context c = .ok (a, c') → P a

/-- A parser of single operands. -/
abbrev Parser.YieldsOperands : Parser SyntaxTree → Prop :=
  Parser.Yields fun tree => tree.isJoined = false

/-- A rule reads a tree between two cursors, where constructs nest up to some depth. -/
def Rule.Reads (rule : Rule) (context : ParseContext) (c : Cursor) (tree : SyntaxTree)
    (c' : Cursor) : Prop :=
  ∃ depth, parserFuel depth rule context c = .ok (tree, c')

namespace Parser.Yields

variable {α β : Type} {P : α → Prop}

theorem bind {p : Parser β} {f : β → Parser α} (h : ∀ b, (f b).Yields P) : (p >>= f).Yields P :=
  fun _ _ _ _ taken =>
    let ⟨_, _, _, second⟩ := bind_ok.1 taken
    h _ second

/-- The first part may have a property as well. -/
theorem bindOf {Q : β → Prop} {p : Parser β} {f : β → Parser α} (first : p.Yields Q)
    (h : ∀ b, Q b → (f b).Yields P) : (p >>= f).Yields P :=
  fun _ _ _ _ taken =>
    let ⟨_, _, taken₁, second⟩ := bind_ok.1 taken
    h _ (first taken₁) second

theorem ite {b : Prop} [Decidable b] {p q : Parser α} (h : p.Yields P) (h' : q.Yields P) :
    (if b then p else q).Yields P := by
  split
  · exact h
  · exact h'

theorem pure {a : α} (h : P a) : Parser.Yields P (Pure.pure a) := fun _ _ _ _ taken =>
  (pure_ok.1 taken).1 ▸ h

theorem fail {cause : ParseCause} {token : Token} : (Parser.fail cause token : Parser α).Yields P :=
  fun _ _ _ _ taken => (fail_ok.1 taken).elim

theorem takeLeaf : Parser.takeLeaf.YieldsOperands := fun _ _ _ _ taken => by
  rw [takeLeaf_eq] at taken
  cases taken
  rfl

theorem finish {label : Label} {children : List SyntaxTree} {start : Location}
    (other : label ≠ .binary ∧ label ≠ .logical) :
    (Parser.finish label children start).YieldsOperands := fun _ _ _ _ taken => by
  obtain ⟨-, rfl, -⟩ := finish_ok.1 taken
  simpa [Tree.isJoined, Tree.hasLabel, Tree.label?] using other

end Parser.Yields

namespace Grammar

open Uncurry.Parser

variable {rules : Rules}

theorem function_yieldsOperands {nameRequired : Bool} :
    (function rules .functionExpr nameRequired).YieldsOperands :=
  .bind fun _ => .bind fun _ => .bind fun _ => .bind fun _ => .bind fun _ =>
    .ite (.bind fun _ => .bind fun _ => .finish (by decide)) <|
      .ite (.bind fun _ => .bind fun _ => .bind fun _ => .finish (by decide)) <|
        .bind fun _ => .bind fun _ => .finish (by decide)

theorem classDefinition_yieldsOperands {nameRequired : Bool} :
    (classDefinition rules .classExpr nameRequired).YieldsOperands := by
  have behind (start : Location) (name : SyntaxTree) : Parser.YieldsOperands (do
      let base ← if ← accept .kwExtends then rules .leftHand else pure .missing
      let body ← classBody rules
      finish .classExpr [name, base, body] start) :=
    .bind fun _ => .ite (.bind fun _ => .bind fun _ => .finish (by decide)) <|
      .bind fun _ => .bind fun _ => .finish (by decide)
  exact .bind fun _ => .bind fun _ => .bind fun _ =>
    .ite (.bind fun _ => behind _ _) <|
      .ite (.bind fun _ => .bind fun _ => behind _ _) <| .bind fun _ => behind _ _

theorem template_yieldsOperands : (template rules).YieldsOperands :=
  .bind fun _ => .bind fun _ => .ite (.bind fun _ => .finish (by decide)) <|
    .bind fun _ => .bind fun _ => .bind fun _ => .bind fun _ => .finish (by decide)

theorem primary_yieldsOperands : (primary rules).YieldsOperands := by
  refine .bind fun token => ?_
  split
  · exact .bind fun _ => .ite function_yieldsOperands .takeLeaf
  · exact template_yieldsOperands
  · exact template_yieldsOperands
  · exact .bind fun _ => .bind fun _ => .finish (by decide)
  · exact .bind fun _ => .bind fun _ => .bind fun _ => .bind fun _ => .finish (by decide)
  · exact .bind fun _ => .bind fun _ => .bind fun _ => .bind fun _ => .finish (by decide)
  · exact function_yieldsOperands
  · exact classDefinition_yieldsOperands
  · exact .bind fun _ => .bind fun _ => .bind fun _ => .ite (.bind fun _ => .finish (by decide)) <|
      .bind fun _ => .finish (by decide)
  · exact .bind fun _ => .bind fun _ => .bind fun _ => .ite (.bind fun _ => .finish (by decide)) <|
      .bind fun _ => .bind fun _ => .bind fun _ => .bind fun _ =>
        .ite (.bind fun _ => .finish (by decide)) (.bind fun _ => .finish (by decide))
  · exact .ite .takeLeaf .fail

/-- A link behind an operand, if there is one, makes an operand. -/
theorem link_yieldsOperands {callsAllowed : Bool} {start : Location} {object : SyntaxTree} :
    (link rules callsAllowed start object).Yields fun next =>
      ∀ tree ∈ next, tree.isJoined = false := by
  have joined {part : Parser SyntaxTree} (operand : part.YieldsOperands) :
      Parser.Yields (fun next : Option SyntaxTree => ∀ tree ∈ next, tree.isJoined = false)
        (do return some (← part)) :=
    .bindOf operand fun _ operand => .pure (by simpa using operand)
  have none : ∀ tree ∈ (none : Option SyntaxTree), tree.isJoined = false := nofun
  refine .bind fun token => ?_
  split
  · exact .bind fun _ => .bind fun _ => joined (.finish (by decide))
  · exact .bind fun _ => .bind fun _ => joined (.finish (by decide))
  · exact .bind fun _ => joined (.finish (by decide))
  · exact .bind fun _ => joined (.finish (by decide))
  · exact .ite (.bind fun _ => joined (.finish (by decide))) (.pure none)
  · refine .ite (.bind fun _ => joined ?_) (.pure none)
    exact .bind fun _ => .ite (.bind fun _ => .finish (by decide)) <|
      .bind fun _ => .ite (.bind fun _ => .finish (by decide)) <|
        .bind fun _ => .finish (by decide)
  · exact .pure none

theorem leftHand_yieldsOperands : (leftHand rules).YieldsOperands := by
  refine .bind fun start => .bindOf primary_yieldsOperands fun object operand => ?_
  intro context c tree c' taken
  refine iterate_invariant (P := fun tree _ => tree.isJoined = false) ?_ operand taken
  intro context object c next c' operand step
  cases next with
  | none => exact operand
  | some tree => exact link_yieldsOperands step tree rfl

/-- What prefix operators stand before is one operand. -/
theorem unary_yieldsOperands : (unary rules).YieldsOperands := by
  refine .bind fun _ => .bind fun token => .ite ?_ (.ite ?_ (.bind fun _ => .ite ?_ ?_))
  · exact .bind fun _ => .bind fun _ => .finish (by decide)
  · exact .bind fun _ => .bind fun _ => .finish (by decide)
  · exact .bind fun _ => .bind fun _ => .finish (by decide)
  · exact .bind fun _ => .bindOf leftHand_yieldsOperands fun _ operand => .bind fun _ =>
      .ite (.bind fun _ => .finish (by decide)) (.pure operand)

/-- Whether a left operand that an operator on an inner level joins may stand before an operator.
Only powers do not group to the left. -/
def GroupsLeft (kind : TokenKind) (own inner : Nat) : Prop :=
  if kind = .starStar then own < inner else own ≤ inner

/-- Whether a right operand that an operator on an inner level joins may stand behind an operator.
Only powers group to the right. -/
def GroupsRight (kind : TokenKind) (own inner : Nat) : Prop :=
  if kind = .starStar then own ≤ inner else own < inner

/-- The label of a node that an operator joins. -/
def joinLabel (kind : TokenKind) : Label := if isLogical kind then .logical else .binary

/-- A tree that groups its operands as the levels of the operators between them demand. -/
inductive Grouped : SyntaxTree → Prop
  | operand {tree : SyntaxTree} : tree.isJoined = false → Grouped tree
  | join {left right : SyntaxTree} {operator : Token} {own : Nat} (span : Span)
      (level : level? operator.kind = some own) (groupedLeft : Grouped left)
      (groupedRight : Grouped right)
      (onLeft : ∀ inner, left.joinLevel? = some inner → GroupsLeft operator.kind own inner)
      (onRight : ∀ inner, right.joinLevel? = some inner → GroupsRight operator.kind own inner) :
      Grouped (.node (joinLabel operator.kind) [left, leaf operator, right] span)

section

variable {tree other left right : SyntaxTree} {operator : Token} {span : Span} {kind : TokenKind}
variable {own bound : Nat}

theorem joinLabel_eq (kind : TokenKind) : joinLabel kind = .binary ∨ joinLabel kind = .logical := by
  unfold joinLabel
  split
  · exact .inr rfl
  · exact .inl rfl

/-- The table of levels has powers alone on top. -/
theorem level?_le (level : level? kind = some own) : 0 < own ∧ own ≤ 12 ∧
    (own = 12 ↔ kind = .starStar) := by
  cases kind <;> cases level <;> decide

theorem isJoined_join : (Tree.node (joinLabel kind) [left, right, other] span).isJoined = true := by
  simpa [Tree.isJoined, Tree.hasLabel, Tree.label?] using joinLabel_eq kind

theorem joinLevel?_join : (Tree.node (joinLabel kind) [left, leaf operator, right] span).joinLevel? =
    level? operator.kind := if_pos isJoined_join

theorem spine_join : (Tree.node (joinLabel kind) [left, leaf operator, right] span).spine =
    (left.spine.1, left.spine.2 ++ (leaf operator, right.spine.1) :: right.spine.2) :=
  if_pos (joinLabel_eq kind)

/-- What bounds the level of the operator at the root bounds those of all operators in the spine. -/
theorem Grouped.bounded (grouped : Grouped tree)
    (root : ∀ inner, tree.joinLevel? = some inner → bound ≤ inner) :
    ∀ pair ∈ tree.spine.2, ∃ own, pair.1.operatorLevel? = some own ∧ bound ≤ own := by
  induction grouped generalizing bound with
  | operand operand => simp [Tree.spine_operand operand]
  | @join left right operator own span level _ _ onLeft onRight ihLeft ihRight =>
    have above : bound ≤ own := root own (joinLevel?_join.trans level)
    intro pair member
    simp only [spine_join, List.mem_append, List.mem_cons] at member
    rcases member with before | rfl | behind
    · refine ihLeft (fun inner h => ?_) pair before
      have groups := onLeft inner h
      unfold GroupsLeft at groups
      split at groups <;> omega
    · exact ⟨own, level, above⟩
    · refine ihRight (fun inner h => ?_) pair behind
      have groups := onRight inner h
      unfold GroupsRight at groups
      split at groups <;> omega

/-- What stands behind an operator binds more strongly, or as strongly if it is a power. -/
theorem Grouped.behind (grouped : Grouped right)
    (onRight : ∀ inner, right.joinLevel? = some inner → GroupsRight kind own inner) :
    ∀ pair ∈ right.spine.2, ∃ inner, pair.1.operatorLevel? = some inner ∧
      GroupsRight kind own inner := by
  unfold GroupsRight at onRight ⊢
  split
  · rename_i power
    simp only [power, if_true] at onRight
    exact grouped.bounded onRight
  · rename_i plain
    simp only [plain, if_false] at onRight
    have stronger : ∀ inner, right.joinLevel? = some inner → own + 1 ≤ inner := onRight
    exact grouped.bounded stronger

/-- What stands before an operator binds as strongly, or more strongly if it is a power. -/
theorem Grouped.before (grouped : Grouped left)
    (onLeft : ∀ inner, left.joinLevel? = some inner → GroupsLeft kind own inner) :
    ∀ pair ∈ left.spine.2, ∃ inner, pair.1.operatorLevel? = some inner ∧
      GroupsLeft kind own inner := by
  unfold GroupsLeft at onLeft ⊢
  split
  · rename_i power
    simp only [power, if_true] at onLeft
    have stronger : ∀ inner, left.joinLevel? = some inner → own + 1 ≤ inner := onLeft
    exact grouped.bounded stronger
  · rename_i plain
    simp only [plain, if_false] at onLeft
    exact grouped.bounded onLeft

/-- Of two operators, the one behind cannot group to the right of the first one and the first one
to the left of the one behind as well. -/
theorem not_crossed {kind' : TokenKind} {own' : Nat} (level : level? kind = some own)
    (level' : level? kind' = some own') (behind : GroupsRight kind own own') :
    ¬GroupsLeft kind' own' own := by
  intro before
  obtain ⟨_, _, power⟩ := level?_le level
  obtain ⟨_, _, power'⟩ := level?_le level'
  unfold GroupsRight at behind
  unfold GroupsLeft at before
  split at behind <;> split at before <;> simp_all <;> omega

/-- The operator at the root of one grouped tree cannot stand in front of the one at the root of
another one, in its left operand, if the spines are the same. -/
theorem Grouped.not_shifted {left' : SyntaxTree} {operator' : Token} {own' : Nat}
    {shift later' : List (SyntaxTree × SyntaxTree)} {operand operand' : SyntaxTree}
    (level : level? operator.kind = some own) (level' : level? operator'.kind = some own')
    (groupedRight : Grouped right) (groupedLeft' : Grouped left')
    (onRight : ∀ inner, right.joinLevel? = some inner → GroupsRight operator.kind own inner)
    (onLeft' : ∀ inner, left'.joinLevel? = some inner → GroupsLeft operator'.kind own' inner)
    (split : left'.spine.2 = left.spine.2 ++ shift)
    (rest : (leaf operator, operand) :: right.spine.2 =
      shift ++ (leaf operator', operand') :: later') : shift = [] := by
  cases shift with
  | nil => rfl
  | cons pair shift =>
    rw [List.cons_append, List.cons.injEq] at rest
    obtain ⟨rfl, rest⟩ := rest
    obtain ⟨inner', h', groups'⟩ :=
      groupedLeft'.before onLeft' (leaf operator, operand) (by simp [split])
    obtain ⟨inner, h, groups⟩ :=
      groupedRight.behind onRight (leaf operator', operand') (by simp [rest])
    obtain rfl : own = inner' := Option.some.inj (level.symm.trans h')
    obtain rfl : own' = inner := Option.some.inj (level'.symm.trans h)
    exact (not_crossed level level' groups groups').elim

/-- A grouped tree is the only one with its spine, up to places. -/
theorem Grouped.unique (grouped : Grouped tree) (grouped' : Grouped other)
    (same : other.spine = tree.spine) : other.Same tree := by
  induction grouped generalizing other with
  | operand operand =>
    cases grouped' with
    | operand operand' =>
      rw [Tree.spine_operand operand, Tree.spine_operand operand'] at same
      rw [(Prod.mk.inj same).1]
      exact .refl _
    | join =>
      rw [Tree.spine_operand operand, spine_join] at same
      simp at same
  | @join left right operator own span level groupedLeft groupedRight onLeft onRight ihLeft ihRight =>
    cases grouped' with
    | operand operand' =>
      rw [Tree.spine_operand operand', spine_join] at same
      simp at same
    | @join left' right' operator' own' span' level' groupedLeft' groupedRight' onLeft' onRight' =>
      rw [spine_join, spine_join, Prod.mk.injEq] at same
      obtain ⟨first, later⟩ := same
      obtain ⟨before, root, behind⟩ : left'.spine.2 = left.spine.2 ∧
          (leaf operator', right'.spine.1) = (leaf operator, right.spine.1) ∧
            right'.spine.2 = right.spine.2 := by
        rcases List.append_eq_append_iff.1 later with ⟨shift, split, rest⟩ | ⟨shift, split, rest⟩
        · obtain rfl := Grouped.not_shifted level' level groupedRight' groupedLeft onRight' onLeft
            split rest
          simpa using And.intro split.symm (List.cons.inj rest)
        · obtain rfl := Grouped.not_shifted level level' groupedRight groupedLeft' onRight onLeft'
            split rest
          simpa using And.intro split (List.cons.inj rest.symm)
      obtain ⟨sameOperator, firstRight⟩ := Prod.mk.inj root
      have kind : operator'.kind = operator.kind := by
        simpa [leaf] using (Tree.leaf.inj sameOperator).1
      have onLeft := ihLeft groupedLeft' (Prod.ext first before)
      have onRight := ihRight groupedRight' (Prod.ext firstRight behind)
      rw [kind, sameOperator]
      exact (Tree.AllSame.cons onLeft (.cons (.refl _) (.single onRight))).node _ _ _

end

variable {context : ParseContext} {level : Nat} {c c₁ c' : Cursor}

/-- Operands are read between two cursors, and the tokens between them are operators. -/
inductive ReadsOperands (context : ParseContext) :
    Cursor → SyntaxTree → List (Token × SyntaxTree) → Cursor → Prop
  | last {c c' : Cursor} {operand : SyntaxTree} : Rule.unary.Reads context c operand c' →
      ReadsOperands context c operand [] c'
  | more {c c₁ c' : Cursor} {operand next : SyntaxTree} {later : List (Token × SyntaxTree)} :
      Rule.unary.Reads context c operand c₁ → ReadsOperands context c₁.next next later c' →
      ReadsOperands context c operand ((c₁.current, next) :: later) c'

/-- Behind an operator, more operands may be read. -/
theorem ReadsOperands.join {first next : SyntaxTree} {later more : List (Token × SyntaxTree)}
    (h : ReadsOperands context c first later c₁)
    (h' : ReadsOperands context c₁.next next more c') :
    ReadsOperands context c first (later ++ (c₁.current, next) :: more) c' := by
  induction h with
  | last operand => exact .more operand h'
  | more operand _ ih => exact .more operand (ih h')

/-- Whether an operator joins operands above a level. -/
def Joins (context : ParseContext) (level : Nat) (kind : TokenKind) (own : Nat) : Prop :=
  level? kind = some own ∧ level < own ∧ (kind = .kwIn → context.allowIn = true)

/-- What is known of a tree of operands that are joined by operators above a level. -/
structure Joined (context : ParseContext) (level : Nat) (c : Cursor) (tree : SyntaxTree)
    (c' : Cursor) (first : SyntaxTree) (later : List (Token × SyntaxTree)) : Prop where
  reads : ReadsOperands context c first later c'
  spine : tree.spine = (first, later.map fun pair => (leaf pair.1, pair.2))
  grouped : Grouped tree
  joins : ∀ pair ∈ later, ∃ own, Joins context level pair.1.kind own

/-- The operator that joins a tree is above the level. -/
theorem Joined.above {tree first : SyntaxTree} {later : List (Token × SyntaxTree)}
    (joined : Joined context level c tree c' first later) :
    ∀ inner, tree.joinLevel? = some inner → level < inner := by
  intro inner root
  cases joined.grouped with
  | operand operand =>
    rw [Tree.joinLevel?_operand operand] at root
    cases root
  | @join left right operator own span level' =>
    have member : (leaf operator, right.spine.1) ∈
        later.map fun pair => (leaf pair.1, pair.2) := by
      rw [← (Prod.mk.inj (spine_join.symm.trans joined.spine)).2]
      simp
    obtain ⟨pair, member, same⟩ := List.mem_map.1 member
    obtain ⟨own', level'', above, _⟩ := joined.joins pair member
    have kind : pair.1.kind = operator.kind := by
      simpa [leaf] using (Tree.leaf.inj (Prod.mk.inj same).1).1
    rw [joinLevel?_join, ← kind, level''] at root
    exact Option.some.inj root ▸ above

/-- One more operator with its right operand is joined, unless the next token is no operator above
the level. -/
theorem joinOperator_ok {start : Location} {left : SyntaxTree} {answer : Option SyntaxTree}
    (h : joinOperator rules level start left context c = .ok (answer, c')) :
    (answer = none ∧ c' = c ∧ ∀ own, ¬Joins context level c.current.kind own) ∨
    ∃ own right span, Joins context level c.current.kind own ∧
      rules (.binary (rightLevel c.current.kind own)) context c.next = .ok (right, c') ∧
      answer = some (.node (joinLabel c.current.kind) [left, leaf c.current, right] span) := by
  rw [joinOperator, current_bind] at h
  generalize hk : c.current.kind = kind at h ⊢
  cases hl : level? kind with
  | none =>
    simp only [hl, pure_ok] at h
    exact .inl ⟨h.1.symm, h.2.symm, fun own joins => by cases hl.symm.trans joins.1⟩
  | some own =>
    simp only [hl, context_bind] at h
    split at h
    · rename_i stops
      refine .inl ⟨(pure_ok.1 h).1.symm, (pure_ok.1 h).2.symm, ?_⟩
      rintro own' ⟨level', above, allowed⟩
      obtain rfl := Option.some.inj (hl.symm.trans level')
      simp only [Bool.or_eq_true, decide_eq_true_eq, Bool.and_eq_true, Bool.not_eq_true'] at stops
      rcases stops with below | ⟨word, forbidden⟩
      · exact Nat.not_le_of_lt above below
      · exact Bool.false_ne_true (forbidden.symm.trans (allowed word))
    · rename_i goes
      simp only [Bool.or_eq_true, decide_eq_true_eq, Bool.and_eq_true, Bool.not_eq_true', not_or,
        not_and, Bool.not_eq_false, Nat.not_le] at goes
      simp only [takeLeaf_bind, finish_bind, expected_ok, pure_ok, bind_ok] at h
      obtain ⟨right, c₁, hr, -, rfl, rfl⟩ := h
      exact .inr ⟨own, right, _, ⟨hl, goes⟩, hr, rfl⟩

theorem le_rightLevel {kind : TokenKind} {own : Nat} (above : level < own) :
    level ≤ rightLevel kind own := by
  unfold rightLevel
  split <;> omega

/-- The operator in front of which a right operand ends may stand behind the operator before it. -/
theorem groupsLeft_of_not_joins {kind next : TokenKind} {own inner : Nat}
    (level' : level? kind = some own) (ends : ¬Joins context (rightLevel kind own) next inner)
    (joins : Joins context level next inner) : GroupsLeft next inner own := by
  have bound : inner ≤ rightLevel kind own :=
    Nat.not_lt.1 fun above => ends ⟨joins.1, above, joins.2.2⟩
  obtain ⟨positive, _, power⟩ := level?_le level'
  obtain ⟨_, _, power'⟩ := level?_le joins.1
  unfold GroupsLeft
  unfold rightLevel at bound
  split at bound <;> split <;> simp_all
  omega

/-- What is above the level of a right operand may stand behind the operator. -/
theorem groupsRight_of_lt {kind : TokenKind} {own inner : Nat} (level' : level? kind = some own)
    (above : rightLevel kind own < inner) : GroupsRight kind own inner := by
  obtain ⟨positive, _, _⟩ := level?_le level'
  unfold GroupsRight
  unfold rightLevel at above
  split at above <;> simp_all
  omega

/-- What a parser of operands above a level builds: they are joined, and no operator that joins
operands above the level follows. -/
def Rules.JoinsAbove (rules : Rules) (level : Nat) : Prop :=
  ∀ ⦃context c tree c'⦄, rules (.binary level) context c = .ok (tree, c') →
    (∃ first later, Joined context level c tree c' first later) ∧
      ∀ own, ¬Joins context level c'.current.kind own

/-- Where the next operator does not bind more strongly than the one at the root, the loop may
join it to the left operand. -/
structure Ready (context : ParseContext) (level : Nat) (c : Cursor) (tree : SyntaxTree)
    (c' : Cursor) : Prop where
  joined : ∃ first later, Joined context level c tree c' first later
  fits : ∀ own, Joins context level c'.current.kind own →
    ∀ inner, tree.joinLevel? = some inner → GroupsLeft c'.current.kind own inner

/-- The loop keeps joining. -/
theorem joinOperator_ready (above : ∀ level, Rules.JoinsAbove rules level) {start : Location}
    {left next : SyntaxTree} (ready : Ready context level c left c₁)
    (h : joinOperator rules level start left context c₁ = .ok (some next, c')) :
    Ready context level c next c' := by
  rcases joinOperator_ok h with ⟨⟨⟩, -⟩ | ⟨own, right, span, joins, hr, same⟩
  obtain rfl := Option.some.inj same
  obtain ⟨⟨first, later, joined⟩, ends⟩ := above _ hr
  obtain ⟨⟨first₀, later₀, joined₀⟩, fits⟩ := ready
  refine ⟨⟨first₀, later₀ ++ (c₁.current, first) :: later, ?_⟩, fun inner joins' own' root => ?_⟩
  · refine ⟨joined₀.reads.join joined.reads, ?_, ?_, ?_⟩
    · rw [spine_join, joined₀.spine, joined.spine]
      simp
    · exact .join span joins.1 joined₀.grouped joined.grouped (fits own joins)
        fun inner root => groupsRight_of_lt joins.1 (joined.above inner root)
    · intro pair member
      rcases List.mem_append.1 member with before | member
      · exact joined₀.joins pair before
      rcases List.mem_cons.1 member with rfl | behind
      · exact ⟨own, joins⟩
      · obtain ⟨own', level', above', allowed⟩ := joined.joins pair behind
        exact ⟨own', level', Nat.lt_of_le_of_lt (le_rightLevel joins.2.1) above', allowed⟩
  · obtain rfl : own = own' := Option.some.inj (joins.1.symm.trans (joinLevel?_join.symm.trans root))
    exact groupsLeft_of_not_joins joins.1 (ends inner) joins'

/-- What every round of a loop keeps holds where the loop stops. -/
theorem iterate_stops {σ : Type} {step : σ → Parser (Option σ)} {P : σ → Cursor → Prop}
    (keeps : ∀ {state c next c'}, P state c → step state context c = .ok (some next, c') →
      P next c') {state result : σ} (holds : P state c)
    (taken : iterate step state context c = .ok (result, c')) :
    ∃ c₁, P result c₁ ∧ step result context c₁ = .ok (none, c') := by
  have run (fuel : Nat) : ∀ {state : σ} {c : Cursor}, P state c →
      iterateFuel step fuel state context c = .ok (result, c') →
        ∃ c₁, P result c₁ ∧ step result context c₁ = .ok (none, c') := by
    induction fuel with
    | zero => exact fun _ taken => (halt_ok.1 taken).elim
    | succ fuel ih =>
      intro state c holds taken
      rw [iterateFuel, bind_ok] at taken
      obtain ⟨next, c₁, hn, later⟩ := taken
      cases next with
      | none =>
        obtain ⟨rfl, rfl⟩ := pure_ok.1 later
        exact ⟨c, holds, hn⟩
      | some state' => exact ih (keeps holds hn) later
  exact run _ holds taken

/-- Operands joined by the operators above a level, if the right operands are. -/
theorem binary_joinsAbove {depth : Nat}
    (above : ∀ level, Rules.JoinsAbove (Rule.parserFuel depth) level)
    {tree : SyntaxTree} (h : binary (Rule.parserFuel depth) level context c = .ok (tree, c')) :
    (∃ first later, Joined context level c tree c' first later) ∧
      ∀ own, ¬Joins context level c'.current.kind own := by
  rw [binary, here_bind, bind_ok] at h
  obtain ⟨operand, c₁, ho, h⟩ := h
  have plain := unary_yieldsOperands ho
  have start : Ready context level c operand c₁ := by
    refine ⟨⟨operand, [], ?_⟩, fun own _ inner root => ?_⟩
    · exact ⟨.last ⟨depth + 1, ho⟩, Tree.spine_operand plain, .operand plain, by simp⟩
    · rw [Tree.joinLevel?_operand plain] at root
      cases root
  obtain ⟨c₂, ready, stops⟩ := iterate_stops (P := fun tree c₂ => Ready context level c tree c₂)
    (fun ready step => joinOperator_ready above ready step) start h
  rcases joinOperator_ok stops with ⟨-, rfl, ends⟩ | ⟨_, _, _, _, _, ⟨⟩⟩
  exact ⟨ready.joined, ends⟩

theorem parserFuel_joinsAbove (depth level : Nat) :
    Rules.JoinsAbove (Rule.parserFuel depth) level := by
  induction depth generalizing level with
  | zero => exact fun _ _ _ _ h => (halt_ok.1 h).elim
  | succ depth ih => exact fun _ _ _ _ h => binary_joinsAbove ih h

/-- Where operands joined by the operators above a level are read, the tree holds these operands
and operators in their order and groups them as their levels demand, which no other tree does. All
operators are above the level, and the next token is none that is; `in` is one only where it is
allowed. -/
theorem binary_grouped {depth : Nat} {tree : SyntaxTree}
    (h : Rule.parserFuel depth (.binary level) context c = .ok (tree, c')) :
    ∃ first later, ReadsOperands context c first later c' ∧
      tree.spine = (first, later.map fun pair => (leaf pair.1, pair.2)) ∧ Grouped tree ∧
      (∀ pair ∈ later, ∃ own, level? pair.1.kind = some own ∧ level < own) ∧
      (∀ own, level? c'.current.kind = some own → level < own →
        c'.current.kind = .kwIn ∧ context.allowIn = false) ∧
      (context.allowIn = false → ∀ pair ∈ later, pair.1.kind ≠ .kwIn) ∧
      ∀ other, Grouped other → other.spine = tree.spine → other.Same tree := by
  obtain ⟨⟨first, later, joined⟩, ends⟩ := parserFuel_joinsAbove depth level h
  refine ⟨first, later, joined.reads, joined.spine, joined.grouped, fun pair member => ?_,
    fun own level' above => ?_, fun forbidden pair member word => ?_,
    fun other grouped same => joined.grouped.unique grouped same⟩
  · obtain ⟨own, level', above, _⟩ := joined.joins pair member
    exact ⟨own, level', above⟩
  · by_contra allowed
    refine ends own ⟨level', above, fun word => ?_⟩
    simpa [word] using allowed
  · obtain ⟨_, _, _, allowed⟩ := joined.joins pair member
    exact Bool.false_ne_true (forbidden.symm.trans (allowed word))

/-- Operators on three levels, two of them twice, in front of an `in`. -/
def mixedOperators : Text := Text.ofString "a && b - c - d ** e ** f in g"

/-- Where `in` is no operator. -/
def headOfLoop : ParseContext := { ParseContext.outermost with allowIn := false }

theorem binary_grouped_mixed : ∃ tokens tree c', tokenize .skip mixedOperators = .ok tokens ∧
    Rule.parserFuel 8 (.binary 0) headOfLoop (Cursor.ofTokens tokens) = .ok (tree, c') ∧
    tree.joinLevel? = some 3 ∧ c'.current.kind = .kwIn ∧ ∃ first later,
      ReadsOperands headOfLoop (Cursor.ofTokens tokens) first later c' ∧
      tree.spine = (first, later.map fun pair => (leaf pair.1, pair.2)) ∧ Grouped tree ∧
      later.map (fun pair => level? pair.1.kind) = [some 3, some 10, some 10, some 12, some 12] ∧
      ∀ other, Grouped other → other.spine = tree.spine → other.Same tree := by
  have run : ((tokenize .skip mixedOperators).toOption.bind fun tokens =>
      (Rule.parserFuel 8 (.binary 0) headOfLoop (Cursor.ofTokens tokens)).toOption.map
        fun result => (result.1.joinLevel?, result.2.current.kind,
          result.1.spine.2.map fun pair => pair.1.operatorLevel?)) =
      some (some 3, .kwIn, [some 3, some 10, some 10, some 12, some 12]) := by
    decide +kernel
  obtain ⟨tokens, read, run⟩ := Option.bind_eq_some_iff.1 run
  obtain ⟨⟨tree, c'⟩, parsed, found⟩ := Option.map_eq_some_iff.1 run
  obtain ⟨root, next, operators⟩ := by simpa only [Prod.mk.injEq] using found
  have parsed := eq_ok_of_toOption parsed
  obtain ⟨first, later, reads, spine, grouped, -, -, -, unique⟩ := binary_grouped parsed
  refine ⟨tokens, tree, c', eq_ok_of_toOption read, parsed, root, next, first, later, reads, spine,
    grouped, ?_, unique⟩
  rw [spine, List.map_map] at operators
  exact operators

end Grammar

end Uncurry
