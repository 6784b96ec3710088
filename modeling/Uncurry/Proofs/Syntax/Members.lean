import Uncurry.Proofs.Syntax.Expressions

/-!
# A name, a point and another name

An operand behind which the input ends is an expression by itself. Whatever two names are,
`Grammar.fragment` reads three tokens with a point between them as the member of a name.
-/
namespace Uncurry.Grammar

open Uncurry.Parser

variable {rules : Rules} {context : ParseContext} {c c' : Cursor} {tree : SyntaxTree}

theorem run_bind {α β : Type} {context : ParseContext} {c c' : Cursor} {a : α} {p : Parser α}
    (h : p context c = .ok (a, c')) (f : α → Parser β) :
    (p >>= f) context c = f a context c' := by
  simp only [bind, ReaderT.bind, StateT.bind, Except.bind, h]

/-- An identifier that starts no function is an operand. -/
theorem primary_name (name : c.current.kind = .identifier)
    (plain : (c.current.isWord "async" && (c.peek 1).kind = .kwFunction) = false) :
    primary rules context c = .ok (leaf c.current, c.next) := by
  rw [primary, current_bind, name]
  simp only
  rw [seesAsyncFunction_bind, plain, Bool.false_and, if_neg Bool.false_ne_true, takeLeaf_eq]

theorem link_member {callsAllowed : Bool} {start : Location} {object : SyntaxTree}
    (dot : c.current.kind = .dot) (name : c.next.current.kind = .identifier) :
    link rules callsAllowed start object context c =
      .ok (some (.node .member [object, nameLeaf c.next.current] ⟨start, c.next.current.stop⟩),
        c.next.next) := by
  have named : memberName context c.next = .ok (nameLeaf c.next.current, c.next.next) := by
    rw [memberName, current_bind, if_pos (by simp [isName, name]), advance_bind]
    rfl
  rw [link, current_bind, dot]
  simp only
  rw [advance_bind, run_bind named, finish_bind]
  rfl

theorem link_end {callsAllowed : Bool} {start : Location} {object : SyntaxTree}
    (ends : c.current.kind = .endOfInput) :
    link rules callsAllowed start object context c = .ok (none, c) := by
  rw [link, current_bind, ends]
  rfl

section

variable (name : c.current.kind = .identifier)
  (behind : (c.peek 1).kind = .dot ∨ (c.peek 1).kind = .endOfInput)
  (ends : c'.current.kind = .endOfInput)

include name behind ends

theorem unary_operand (operand : leftHand rules .outermost c = .ok (tree, c')) :
    unary rules .outermost c = .ok (tree, c') := by
  have await (f : Bool → Parser SyntaxTree) :
      (seesAwait >>= f) .outermost c = f false .outermost c := by
    have other : awaitOperandStarts.contains (c.peek 1).kind = false := by
      rcases behind with behind | behind <;> rw [behind] <;> rfl
    change f (c.current.isWord "await" && (false || (!false &&
      awaitOperandStarts.contains (c.peek 1).kind && !(c.peek 1).newlineBefore))) _ _ = _
    rw [other, Bool.and_false, Bool.false_and, Bool.or_false, Bool.and_false]
  rw [unary, here_bind, current_bind, name, if_neg (by decide), if_neg (by decide), await,
    if_neg Bool.false_ne_true, postfixExpression, here_bind, run_bind operand, current_bind,
    if_neg (by simp [ends])]
  rfl

theorem conditional_operand (operand : leftHand rules .outermost c = .ok (tree, c')) :
    conditional rules .outermost c = .ok (tree, c') := by
  have join (start : Location) (left : SyntaxTree) :
      joinOperator rules 0 start left .outermost c' = .ok (none, c') := by
    rw [joinOperator, current_bind, ends]
    rfl
  have operands : binary rules 0 .outermost c = .ok (tree, c') := by
    rw [binary, here_bind, run_bind (unary_operand name behind ends operand)]
    change iterateFuel (joinOperator rules 0 _) (c'.rest.length + 1) _ _ _ = _
    rw [iterateFuel, run_bind (join _ _)]
    rfl
  rw [conditional, here_bind, run_bind operands, accept_bind, if_neg (by simp [ends])]
  rfl

theorem assignment_operand (operand : leftHand rules .outermost c = .ok (tree, c')) :
    assignment rules .outermost c = .ok (tree, c') := by
  have arrow (f : Bool → Parser SyntaxTree) :
      (seesArrow >>= f) .outermost c = f false .outermost c := by
    change f (c.current.isWord "async" && !(c.peek 1).newlineBefore &&
      (((c.peek 1).kind = .identifier && (c.peek 2).kind = .arrow) ||
        ((c.peek 1).kind = .leftParen && arrowBehindBracket 0 c.rest.tail)) ||
      (if c.current.kind = .identifier then (c.peek 1).kind = .arrow && !(c.peek 1).newlineBefore
        else c.current.kind = .leftParen && arrowBehindBracket 0 c.rest)) _ _ = _
    rcases behind with behind | behind <;>
      simp only [behind, name, reduceCtorEq, decide_false, Bool.false_and, Bool.or_false,
        Bool.and_false, if_true]
  rw [assignment, arrow, if_neg Bool.false_ne_true, context_bind, seesWord_bind]
  rw [if_neg (by simp [ParseContext.outermost]), here_bind,
    run_bind (conditional_operand name behind ends operand), current_bind]
  rw [if_neg (by simp [ends, TokenKind.isAssignment, TokenKind.assignments])]
  rfl

/-- An operand behind which the input ends is all of an expression. -/
theorem parser_operand
    (operand : leftHand (Rule.parserFuel c.rest.length) .outermost c = .ok (tree, c')) :
    Rule.expression.parser .outermost c = .ok (tree, c') := by
  change expression (Rule.parserFuel c.rest.length) _ _ = _
  rw [expression, here_bind, run_bind (assignment_operand name behind ends operand), sees_bind,
    if_neg (by simp [ends])]
  rfl

end

variable {name dot member final : Token} {passed : List Passage}

/-- The tree of a name, a point and another name. -/
def memberOf (name member : Token) : SyntaxTree :=
  .node .member [leaf name, nameLeaf member] ⟨name.start, member.stop⟩

/-- What was passed behind a name, a point and another name. -/
def behindMember (name dot member : Token) (passed : List Passage) : List Passage :=
  .token member :: .token dot :: .token name :: passed

theorem leftHand_member (kind : name.kind = .identifier) (point : dot.kind = .dot)
    (kind' : member.kind = .identifier) (ends : final.kind = .endOfInput) :
    leftHand rules .outermost ⟨passed, [name, dot, member], final⟩ =
      .ok (memberOf name member, ⟨behindMember name dot member passed, [], final⟩) := by
  have operand : primary rules .outermost ⟨passed, [name, dot, member], final⟩ =
      .ok (leaf name, ⟨.token name :: passed, [dot, member], final⟩) :=
    primary_name kind (by simp [Cursor.peek, point])
  have linked : link rules true name.start (leaf name) .outermost
      ⟨.token name :: passed, [dot, member], final⟩ =
        .ok (some (memberOf name member), ⟨behindMember name dot member passed, [], final⟩) :=
    link_member point kind'
  have stops : link rules true name.start (memberOf name member) .outermost
      ⟨behindMember name dot member passed, [], final⟩ = _ := link_end ends
  rw [leftHand, here_bind, run_bind operand]
  change iterateFuel (link rules true name.start) 3 _ _ _ = _
  rw [iterateFuel, run_bind linked]
  change iterateFuel (link rules true name.start) 2 _ _ _ = _
  rw [iterateFuel, run_bind stops]
  rfl

/-- Three such tokens are the member of a name. -/
theorem fragment_member (kind : name.kind = .identifier) (point : dot.kind = .dot)
    (kind' : member.kind = .identifier) (ends : final.kind = .endOfInput) :
    fragment .outermost ⟨passed, [name, dot, member], final⟩ =
      .ok (memberOf name member, ⟨behindMember name dot member passed, [], final⟩) := by
  have whole : Rule.expression.parser .outermost ⟨passed, [name, dot, member], final⟩ =
      .ok (memberOf name member, ⟨behindMember name dot member passed, [], final⟩) :=
    parser_operand kind (.inl point) ends (leftHand_member kind point kind' ends)
  rw [fragment, run_bind whole, current_bind, if_pos (by simp [Cursor.current, ends])]
  rfl

end Uncurry.Grammar
