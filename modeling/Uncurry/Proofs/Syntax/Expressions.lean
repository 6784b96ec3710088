import Uncurry.Proofs.Syntax.Bindings

/-!
# Expressions build

A chain of links and a chain of operators grow a tree on the left: what stands before a step still
stands behind it.
-/
namespace Uncurry.Grammar

open Uncurry.Parser

variable {rules : Rules} {context : ParseContext} {c c' c₀ : Cursor} {tree : SyntaxTree}

theorem seesAsyncFunction_bind {α : Type} (f : Bool → Parser α) :
    (seesAsyncFunction >>= f) context c = f (c.current.isWord "async" &&
      (c.peek 1).kind = .kwFunction && !(c.peek 1).newlineBefore) context c := rfl

/-- Where `await` is an operator, it is the current token. -/
theorem seesAwait_bind {α : Type} (f : Bool → Parser α) :
    ∃ operator, (seesAwait >>= f) context c = f (c.current.isWord "await" && operator) context c :=
  ⟨_, rfl⟩

theorem seesArrow_bind {α : Type} (f : Bool → Parser α) :
    ∃ answer, (seesArrow >>= f) context c = f answer context c := ⟨_, rfl⟩

theorem inParens_laid (build : rules.Build) (h : inParens rules context c = .ok (tree, c')) :
    c.LaidSome [tree] c' := by
  simp only [inParens, expect_bind, expected_ok, allowingIn_apply, pure_ok, bind_ok] at h
  obtain ⟨opening, inner, c₁, hi, closing, rfl, rfl⟩ := h
  exact Cursor.enclosed_laid (by simp [opening]) (build .expression hi).laid.laid (by simp [closing])

theorem paren_builds (build : rules.Build) : (paren rules).Builds := by
  intro context c tree c' h
  simp only [paren, here_bind, finish_ok, bind_ok] at h
  obtain ⟨inner, c₁, hi, -, rfl, rfl⟩ := h
  exact (inParens_laid build hi).node (by decide)

theorem spreadOrValue_builds (build : rules.Build) : (spreadOrValue rules).Builds := by
  intro context c tree c' h
  rw [spreadOrValue, here_bind, accept_bind] at h
  split at h
  · rename_i ellipsis
    simp only [if_true, finish_ok, bind_ok] at h
    obtain ⟨value, c₁, hv, -, rfl, rfl⟩ := h
    exact ((Cursor.next_laid (by simp [ellipsis])).trans (build .assignment hv).laid.laid).node
      (by decide)
  · exact build .assignment h

/-- Arguments are a node of the values in it. -/
theorem arguments_ok (build : rules.Build) (h : arguments rules context c = .ok (tree, c')) :
    ∃ values span, tree = .node .args values span ∧ c.Stands tree c' := by
  simp only [arguments, here_bind, expect_bind, expected_ok, finish_ok, allowingIn_apply, bind_ok]
    at h
  obtain ⟨opening, values, c₁, hv, closing, -, rfl, rfl⟩ := h
  exact ⟨values, _, rfl, (collectFuel_lists (spreadOrValue_builds build) hv).args opening closing⟩

theorem arguments_builds (build : rules.Build) : (arguments rules).Builds := by
  intro context c tree c' h
  obtain ⟨values, span, _, stands⟩ := arguments_ok build h
  exact stands

theorem arrayLiteral_builds (build : rules.Build) : (arrayLiteral rules).Builds := by
  intro context c tree c' h
  simp only [arrayLiteral, here_bind, expect_bind, expected_ok, finish_ok, allowingIn_apply,
    bind_ok] at h
  obtain ⟨opening, elements, c₁, he, closing, -, rfl, rfl⟩ := h
  have inner := (arrayElement_lays (spreadOrValue_builds build)).collect he
  exact (Cursor.enclosed_laid (by simp [opening]) inner (by simp [closing])).node (by decide)

theorem propertyRest_stands (build : rules.Build) {mayStandAlone : Bool} {key : SyntaxTree}
    (first : c₀.LaidSome [key] c)
    (h : propertyRest rules mayStandAlone key c₀.current.start context c = .ok (tree, c')) :
    c₀.Stands tree c' := by
  rw [propertyRest, accept_bind] at h
  split at h
  · rename_i colon
    simp only [if_true, finish_ok, bind_ok] at h
    obtain ⟨value, c₁, hv, -, rfl, rfl⟩ := h
    exact (first.trans ((Cursor.skip_laid (by simp [colon])).trans
      (build .assignment hv).laid.laid)).node (by decide)
  simp only [Bool.false_eq_true, if_false] at h
  split at h
  · obtain ⟨initial, c₁, hi, h⟩ := accepted_bind (build .assignment) h (by decide)
    obtain ⟨-, rfl, rfl⟩ := finish_ok.1 h
    exact (first.trans hi).node (by decide)
  · simp only [current_bind, fail_ok] at h

theorem objectMember_builds (build : rules.Build) : (objectMember rules).Builds := by
  intro context c tree c' h
  rw [objectMember, here_bind, accept_bind] at h
  split at h
  · rename_i ellipsis
    simp only [if_true, finish_ok, bind_ok] at h
    obtain ⟨value, c₁, hv, -, rfl, rfl⟩ := h
    exact ((Cursor.next_laid (by simp [ellipsis])).trans (build .assignment hv).laid.laid).node
      (by decide)
  simp only [Bool.false_eq_true, if_false] at h
  rw [bind_ok] at h
  obtain ⟨modifiers, c₁, hm, h⟩ := h
  obtain ⟨words, plainLabel⟩ := methodModifiers_laid hm
  rw [sees_bind, bind_ok] at h
  obtain ⟨key, c₂, hk, h⟩ := h
  have first := words.transSome (propertyKey_laid build hk)
  rw [sees_bind] at h
  split at h
  · simp only [finish_ok, bind_ok] at h
    obtain ⟨parts, c₃, hp, -, rfl, rfl⟩ := h
    exact (first.trans (functionRest_laid build hp)).node plainLabel
  split at h
  · simp only [current_bind, fail_ok] at h
  · exact propertyRest_stands build first h

theorem objectLiteral_builds (build : rules.Build) : (objectLiteral rules).Builds := by
  intro context c tree c' h
  simp only [objectLiteral, here_bind, expect_bind, expected_ok, finish_ok, allowingIn_apply,
    bind_ok] at h
  obtain ⟨opening, members, c₁, hm, closing, -, rfl, rfl⟩ := h
  have inner := (objectMember_builds build).listed.collect hm
  exact (Cursor.enclosed_laid (by simp [opening]) inner (by simp [closing])).node (by decide)

theorem template_builds (build : rules.Build) : (template rules).Builds := by
  intro context c tree c' h
  rw [template, here_bind, sees_bind] at h
  split at h
  · rename_i whole
    rw [takeLeaf_bind, finish_ok] at h
    obtain ⟨-, rfl, rfl⟩ := h
    exact (Cursor.next_stands (by simp_all)).laid.node (by decide)
  · simp only [expect_bind, expected_ok, allowingIn_apply, finish_ok, bind_ok] at h
    obtain ⟨head, first, c₁, hf, middle, c₂, hm, tail, -, rfl, rfl⟩ := h
    have inner : c₁.Laid middle c₂ := by
      refine collect_laid (fun {context c trees c'} more taken => ?_) hm
      simp only [bne_eq_false_iff_eq] at more
      simp only [takeLeaf_bind, allowingIn_apply, pure_ok, bind_ok] at taken
      obtain ⟨value, c₃, hv, rfl, rfl⟩ := taken
      exact (Cursor.next_stands (by simp [more])).laid.laid.trans (build .expression hv).laid.laid
    have last := (Cursor.next_stands (c := c₂) (by simp [tail])).laid.laid
    exact ((Cursor.next_stands (by simp [head])).laid.trans
      ((build .expression hf).laid.laid.trans (inner.trans last))).node (by decide)

theorem importCall_builds (build : rules.Build) : (importCall rules).Builds := by
  intro context c tree c' h
  rw [importCall, here_bind, expect_bind, expected_ok, accept_bind] at h
  obtain ⟨word, h⟩ := h
  have first := Cursor.next_laid (c := c) (by simp [word])
  split at h
  · rename_i dot
    simp only [if_true, finish_ok, bind_ok] at h
    obtain ⟨name, c₁, hn, -, rfl, rfl⟩ := h
    exact (first.trans ((Cursor.skip_laid (by simp [dot])).trans (memberName_laid hn).laid)).node
      (by decide)
  · simp only [Bool.false_eq_true, if_false, finish_ok, bind_ok] at h
    obtain ⟨values, c₁, hv, -, rfl, rfl⟩ := h
    exact (first.trans (arguments_builds build hv).laid.laid).node (by decide)

theorem indexRest_laid (build : rules.Build) (h : indexRest rules context c = .ok (tree, c')) :
    c.Laid [tree] c' := by
  simp only [indexRest, expect_bind, expected_ok, allowingIn_apply, pure_ok, bind_ok] at h
  obtain ⟨index, c₁, hi, closing, rfl, rfl⟩ := h
  exact (build .expression hi).laid.laid.skip (Cursor.skip_laid (by simp [closing]))

theorem optionalLink_stands (build : rules.Build) {object : SyntaxTree}
    (first : c₀.LaidSome [object] c)
    (h : optionalLink rules c₀.current.start object context c = .ok (tree, c')) :
    c₀.Stands tree c' := by
  rw [optionalLink, sees_bind] at h
  split at h
  · simp only [finish_ok, bind_ok] at h
    obtain ⟨values, c₁, hv, -, rfl, rfl⟩ := h
    exact (first.trans (arguments_builds build hv).laid.laid).node (by decide)
  rw [accept_bind] at h
  split at h
  · rename_i opening
    simp only [if_true, finish_ok, bind_ok] at h
    obtain ⟨index, c₁, hi, -, rfl, rfl⟩ := h
    exact (first.trans ((Cursor.skip_laid (by simp [opening])).trans (indexRest_laid build hi))).node
      (by decide)
  · simp only [Bool.false_eq_true, if_false, finish_ok, bind_ok] at h
    obtain ⟨name, c₁, hn, -, rfl, rfl⟩ := h
    exact (first.trans (memberName_laid hn).laid).node (by decide)

/-- One more link behind a tree that stands, if there is one, makes a tree that stands. -/
theorem link_stands (build : rules.Build) {callsAllowed : Bool} {object : SyntaxTree}
    {answer : Option SyntaxTree} (first : c₀.Stands object c)
    (h : link rules callsAllowed c₀.current.start object context c = .ok (answer, c')) :
    c₀.Stands (answer.getD object) c' := by
  rw [link, current_bind] at h
  generalize hk : c.current.kind = kind at h
  split at h
  · simp only [advance_bind, finish_bind, expected_ok, pure_ok, bind_ok] at h
    obtain ⟨name, c₁, hn, -, rfl, rfl⟩ := h
    exact (first.laid.trans ((Cursor.skip_laid (by simp [hk])).trans
      (memberName_laid hn).laid)).node (by decide)
  · simp only [advance_bind, finish_bind, expected_ok, pure_ok, bind_ok] at h
    obtain ⟨index, c₁, hi, -, rfl, rfl⟩ := h
    exact (first.laid.trans ((Cursor.skip_laid (by simp [hk])).trans (indexRest_laid build hi))).node
      (by decide)
  · simp only [finish_bind, expected_ok, pure_ok, bind_ok] at h
    obtain ⟨quasi, c₁, hq, -, rfl, rfl⟩ := h
    exact (first.laid.trans (template_builds build hq).laid.laid).node (by decide)
  · simp only [finish_bind, expected_ok, pure_ok, bind_ok] at h
    obtain ⟨quasi, c₁, hq, -, rfl, rfl⟩ := h
    exact (first.laid.trans (template_builds build hq).laid.laid).node (by decide)
  · split at h
    · simp only [finish_bind, expected_ok, pure_ok, bind_ok] at h
      obtain ⟨values, c₁, hv, -, rfl, rfl⟩ := h
      obtain ⟨trees, span, rfl, stands⟩ := arguments_ok build hv
      exact first.call stands
    · obtain ⟨rfl, rfl⟩ := pure_ok.1 h
      exact first
  · split at h
    · simp only [advance_bind, pure_ok, bind_ok] at h
      obtain ⟨next, c₁, hn, rfl, rfl⟩ := h
      exact optionalLink_stands build (first.laid.skip (Cursor.skip_laid (by simp [hk]))) hn
    · obtain ⟨rfl, rfl⟩ := pure_ok.1 h
      exact first
  · obtain ⟨rfl, rfl⟩ := pure_ok.1 h
    exact first

theorem links_stand (build : rules.Build) {callsAllowed : Bool} {object : SyntaxTree}
    (first : c₀.Stands object c)
    (h : iterate (link rules callsAllowed c₀.current.start) object context c = .ok (tree, c')) :
    c₀.Stands tree c' :=
  iterate_invariant (P := fun tree c => c₀.Stands tree c)
    (fun stands step => link_stands build stands step) first h

theorem construct_builds (build : rules.Build) : (construct rules).Builds := by
  intro context c tree c' h
  rw [construct, here_bind, expect_bind, expected_ok, accept_bind] at h
  obtain ⟨word, h⟩ := h
  have first := Cursor.next_laid (c := c) (by simp [word])
  split at h
  · rename_i dot
    simp only [if_true, finish_ok, bind_ok] at h
    obtain ⟨name, c₁, hn, -, rfl, rfl⟩ := h
    exact (first.trans ((Cursor.skip_laid (by simp [dot])).trans (memberName_laid hn).laid)).node
      (by decide)
  · simp only [Bool.false_eq_true, if_false, here_bind] at h
    rw [bind_ok] at h
    obtain ⟨object, c₁, ho, h⟩ := h
    rw [bind_ok] at h
    obtain ⟨callee, c₂, hc, h⟩ := h
    rw [sees_bind] at h
    obtain ⟨values, c₃, hv, h⟩ := present_bind (arguments_builds build) h
    obtain ⟨-, rfl, rfl⟩ := finish_ok.1 h
    exact (first.trans ((links_stand build (build .primary ho) hc).laid.laid.trans hv)).node
      (by decide)

theorem primary_builds (build : rules.Build) : (primary rules).Builds := by
  intro context c tree c' h
  rw [primary, current_bind] at h
  generalize hk : c.current.kind = kind at h
  split at h
  · rw [seesAsyncFunction_bind] at h
    split at h
    · exact function_builds build (.inl (by decide)) h
    · rw [takeLeaf_eq] at h
      cases h
      exact Cursor.next_stands (by simp [hk])
  · exact template_builds build h
  · exact template_builds build h
  · exact paren_builds build h
  · exact arrayLiteral_builds build h
  · exact objectLiteral_builds build h
  · exact function_builds build (.inl (by decide)) h
  · exact classDefinition_builds build (.inl (by decide)) h
  · exact importCall_builds build h
  · exact construct_builds build h
  · split at h
    · rename_i atom
      rw [takeLeaf_eq] at h
      cases h
      refine Cursor.next_stands fun atEnd => ?_
      rw [← hk, atEnd] at atom
      exact absurd atom (by decide)
    · simp only [fail_ok] at h

theorem leftHand_builds (build : rules.Build) : (leftHand rules).Builds := by
  intro context c tree c' h
  rw [leftHand, here_bind, bind_ok] at h
  obtain ⟨object, c₁, ho, h⟩ := h
  exact links_stand build (primary_builds build ho) h

theorem postfixExpression_builds (build : rules.Build) : (postfixExpression rules).Builds := by
  intro context c tree c' h
  rw [postfixExpression, here_bind, bind_ok] at h
  obtain ⟨operand, c₁, ho, h⟩ := h
  have first := leftHand_builds build ho
  rw [current_bind] at h
  split at h
  · rename_i operator
    rw [takeLeaf_bind, finish_ok] at h
    obtain ⟨-, rfl, rfl⟩ := h
    refine (first.laid.trans (Cursor.next_stands ?_).laid.laid).node (by decide)
    rintro atEnd
    simp [atEnd] at operator
  · obtain ⟨rfl, rfl⟩ := pure_ok.1 h
    exact first

theorem unary_builds (build : rules.Build) : (unary rules).Builds := by
  intro context c tree c' h
  rw [unary, here_bind, current_bind] at h
  split at h
  · rename_i operator
    simp only [takeLeaf_bind, finish_ok, bind_ok] at h
    obtain ⟨operand, c₁, ho, -, rfl, rfl⟩ := h
    have live : c.current.kind ≠ .endOfInput := by
      rintro atEnd
      rw [atEnd] at operator
      exact absurd operator (by decide)
    exact ((Cursor.next_stands live).laid.trans (build .unary ho).laid.laid).node (by decide)
  split at h
  · rename_i operator
    simp only [takeLeaf_bind, finish_ok, bind_ok] at h
    obtain ⟨operand, c₁, ho, -, rfl, rfl⟩ := h
    have live : c.current.kind ≠ .endOfInput := by
      rintro atEnd
      simp [atEnd] at operator
    exact ((Cursor.next_stands live).laid.trans (build .unary ho).laid.laid).node (by decide)
  obtain ⟨operator, sees⟩ := seesAwait_bind _
  rw [sees] at h
  split at h
  · rename_i await
    simp only [Bool.and_eq_true] at await
    simp only [advance_bind, finish_ok, bind_ok] at h
    obtain ⟨operand, c₁, ho, -, rfl, rfl⟩ := h
    exact ((Cursor.next_laid (by simp [isWord_kind await.1])).trans
      (build .unary ho).laid.laid).node (by decide)
  · exact postfixExpression_builds build h

/-- One more operator with its right operand behind a tree that stands makes a tree that stands. -/
theorem joinOperator_stands (build : rules.Build) {level : Nat} {left : SyntaxTree}
    {answer : Option SyntaxTree} (first : c₀.Stands left c)
    (h : joinOperator rules level c₀.current.start left context c = .ok (answer, c')) :
    c₀.Stands (answer.getD left) c' := by
  rw [joinOperator, current_bind] at h
  generalize hk : c.current.kind = kind at h
  cases hl : level? kind with
  | none =>
    simp only [hl, pure_ok] at h
    obtain ⟨rfl, rfl⟩ := h
    exact first
  | some own =>
    simp only [hl, context_bind] at h
    split at h
    · obtain ⟨rfl, rfl⟩ := pure_ok.1 h
      exact first
    · simp only [takeLeaf_bind, finish_bind, expected_ok, pure_ok, bind_ok] at h
      obtain ⟨right, c₁, hr, -, rfl, rfl⟩ := h
      have live : c.current.kind ≠ .endOfInput := by
        rintro atEnd
        rw [← hk, atEnd] at hl
        cases hl
      have parts := first.laid.trans ((Cursor.next_stands live).laid.laid.trans
        (build (.binary (rightLevel kind own)) hr).laid.laid)
      exact parts.node (by cases isLogical kind <;> decide)

theorem binary_builds (build : rules.Build) (level : Nat) : (binary rules level).Builds := by
  intro context c tree c' h
  rw [binary, here_bind, bind_ok] at h
  obtain ⟨operand, c₁, ho, h⟩ := h
  exact iterate_invariant (P := fun tree c₂ => c.Stands tree c₂)
    (fun stands step => joinOperator_stands build stands step) (unary_builds build ho) h

theorem conditional_builds (build : rules.Build) : (conditional rules).Builds := by
  intro context c tree c' h
  rw [conditional, here_bind, bind_ok] at h
  obtain ⟨test, c₁, ht, h⟩ := h
  have first := binary_builds build 0 ht
  rw [accept_bind] at h
  split at h
  · rename_i question
    simp only [if_true, allowingIn_apply, expect_bind, expected_ok, finish_ok, bind_ok] at h
    obtain ⟨consequent, c₂, hc, colon, alternate, c₃, ha, -, rfl, rfl⟩ := h
    have branches := (Cursor.skip_laid (by simp [question])).trans
      ((build .assignment hc).laid.laid.trans ((Cursor.skip_laid (by simp [colon])).trans
        (build .assignment ha).laid.laid))
    exact (first.laid.trans branches).node (by decide)
  · simp only [Bool.false_eq_true, if_false, pure_ok] at h
    obtain ⟨rfl, rfl⟩ := h
    exact first

theorem yieldExpression_stands (build : rules.Build) (word : c.current.isWord "yield" = true)
    (h : yieldExpression rules context c = .ok (tree, c')) : c.Stands tree c' := by
  rw [yieldExpression, here_bind, advance_bind, accept_bind] at h
  have first := Cursor.next_laid (c := c) (by simp [isWord_kind word])
  split at h
  · rename_i star
    simp only [if_true, finish_ok, bind_ok] at h
    obtain ⟨values, c₁, hv, -, rfl, rfl⟩ := h
    exact (first.trans ((Cursor.skip_laid (by simp [star])).trans
      (build .assignment hv).laid.laid)).node (by decide)
  · simp only [Bool.false_eq_true, if_false, current_bind] at h
    obtain ⟨value, c₁, hv, h⟩ := absent_bind (build .assignment) h
    obtain ⟨-, rfl, rfl⟩ := finish_ok.1 h
    exact (first.trans hv).node (by decide)

theorem assignment_builds (build : rules.Build) : (assignment rules).Builds := by
  intro context c tree c' h
  obtain ⟨isArrow, sees⟩ := seesArrow_bind _
  rw [assignment, sees] at h
  split at h
  · exact arrow_builds build h
  rw [context_bind, seesWord_bind] at h
  split at h
  · rename_i yields
    simp only [Bool.and_eq_true] at yields
    exact yieldExpression_stands build yields.2 h
  rw [here_bind, bind_ok] at h
  obtain ⟨left, c₁, hl, h⟩ := h
  have first := conditional_builds build hl
  rw [current_bind] at h
  split at h
  · rename_i operator
    simp only [takeLeaf_bind, finish_ok, bind_ok] at h
    obtain ⟨right, c₂, hr, -, rfl, rfl⟩ := h
    have live : c₁.current.kind ≠ .endOfInput := by
      rintro atEnd
      rw [atEnd] at operator
      exact absurd operator (by decide)
    exact (first.laid.trans ((Cursor.next_stands live).laid.laid.trans
      (build .assignment hr).laid.laid)).node (by decide)
  · obtain ⟨rfl, rfl⟩ := pure_ok.1 h
    exact first

/-- Elements with a comma in front of each. -/
theorem behindCommas_laid {element : Parser SyntaxTree} (h : element.Builds)
    {trees : List SyntaxTree}
    (taken : collect (· != .comma) (do let _ ← advance; return [← element]) context c =
      .ok (trees, c')) : c.Laid trees c' := by
  refine collect_laid (fun {context c trees c'} comma taken => ?_) taken
  simp only [bne_eq_false_iff_eq] at comma
  simp only [advance_bind, pure_ok, bind_ok] at taken
  obtain ⟨tree, c₁, ht, rfl, rfl⟩ := taken
  exact (Cursor.skip_laid (by simp [comma])).trans (h ht).laid.laid

theorem expression_builds (build : rules.Build) : (expression rules).Builds := by
  intro context c tree c' h
  rw [expression, here_bind, bind_ok] at h
  obtain ⟨first, c₁, hf, h⟩ := h
  have stands := assignment_builds build hf
  rw [sees_bind] at h
  split at h
  · rw [bind_ok] at h
    obtain ⟨later, c₂, hl, h⟩ := h
    obtain ⟨-, rfl, rfl⟩ := finish_ok.1 h
    exact (stands.laid.trans (behindCommas_laid (build .assignment) hl)).node (by decide)
  · obtain ⟨rfl, rfl⟩ := pure_ok.1 h
    exact stands

end Uncurry.Grammar
