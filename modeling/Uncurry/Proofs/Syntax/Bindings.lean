import Uncurry.Proofs.Syntax.Building

/-!
# Names, patterns, functions and classes build
-/
namespace Uncurry.Grammar

open Uncurry.Parser

variable {rules : Rules} {context : ParseContext} {c c' : Cursor} {tree : SyntaxTree}

theorem isName_live {token : Token} (h : isName token = true) : token.kind ≠ .endOfInput := by
  intro atEnd
  rw [isName, atEnd] at h
  exact absurd h (by decide)

theorem bindingIdentifier_builds : bindingIdentifier.Builds := by
  intro context c tree c' h
  simp only [bindingIdentifier, current_bind, ite_ok, fail_ok, and_false, or_false, takeLeaf_eq]
    at h
  obtain ⟨kind, h⟩ := h
  cases h
  exact Cursor.next_stands (by simp [kind])

/-- The name of a member is a leaf of the current token. -/
theorem memberName_ok (h : memberName context c = .ok (tree, c')) :
    c.current.kind ≠ .endOfInput ∧ c' = c.next ∧
      ∃ kind, tree = .leaf kind c.current.text c.current.span := by
  simp only [memberName, current_bind] at h
  split at h
  · rename_i name
    simp only [advance_bind, pure_ok] at h
    exact ⟨isName_live name, h.2.symm, _, h.1.symm⟩
  · simp only [ite_ok, fail_ok, and_false, or_false, takeLeaf_eq] at h
    obtain ⟨kind, h⟩ := h
    cases h
    exact ⟨by simp [kind], rfl, _, rfl⟩

theorem memberName_laid (h : memberName context c = .ok (tree, c')) : c.LaidSome [tree] c' := by
  obtain ⟨live, rfl, kind, rfl⟩ := memberName_ok h
  exact Cursor.word_laid kind live

theorem exportName_ok (h : exportName context c = .ok (tree, c')) :
    c.current.kind ≠ .endOfInput ∧ c' = c.next ∧
      ∃ kind, tree = .leaf kind c.current.text c.current.span := by
  simp only [exportName, sees_bind, decide_eq_true_eq] at h
  split at h
  · rename_i kind
    rw [takeLeaf_eq] at h
    cases h
    exact ⟨by simp [kind], rfl, _, rfl⟩
  · exact memberName_ok h

theorem exportName_laid (h : exportName context c = .ok (tree, c')) : c.LaidSome [tree] c' := by
  obtain ⟨live, rfl, kind, rfl⟩ := exportName_ok h
  exact Cursor.word_laid kind live

theorem propertyKey_laid (build : rules.Build) (h : propertyKey rules context c = .ok (tree, c')) :
    c.LaidSome [tree] c' := by
  simp only [propertyKey, current_bind] at h
  split at h
  · rename_i name
    simp only [advance_bind, pure_ok] at h
    obtain ⟨rfl, rfl⟩ := h
    exact Cursor.word_laid _ (isName_live name)
  split at h
  · rename_i kind
    rw [takeLeaf_eq] at h
    cases h
    exact (Cursor.next_stands (by intro atEnd; simp [atEnd] at kind)).laid
  · simp only [ite_ok, fail_ok, and_false, or_false, here_bind, advance_bind, expect_bind, expected_ok,
      finish_ok, allowingIn_apply, bind_ok] at h
    obtain ⟨opening, key, c₁, hk, closing, -, rfl, rfl⟩ := h
    have inner := (build .assignment hk).laid.laid
    have key := Cursor.enclosed_laid (by simp [opening]) inner (by simp [closing])
    exact (key.node (by decide)).laid

/-- The key of a property that starts with an identifier is the leaf of this token. -/
theorem propertyKey_identifier (h : propertyKey rules context c = .ok (tree, c'))
    (identifier : c.current.kind = .identifier) : tree = leaf c.current ∧ c' = c.next := by
  have name : isName c.current = true := by simp [isName, identifier]
  simp only [propertyKey, current_bind, name, if_true, advance_bind, pure_ok] at h
  exact ⟨by rw [← h.1, nameLeaf, leaf, identifier], h.2.symm⟩

/-- What follows a word that is taken under some condition. -/
private theorem word_bind {b : Prop} [Decidable b] {k : Bool → Parser MethodModifiers}
    {x : MethodModifiers × Cursor} (live : b → c.current.kind ≠ .endOfInput)
    (h : (if b then advance >>= fun _ => pure true >>= k else pure false >>= k) context c = .ok x) :
    ∃ answer c₁, c.Laid [] c₁ ∧ k answer context c₁ = .ok x := by
  by_cases hb : b
  · simp only [hb, if_true, advance_bind] at h
    exact ⟨true, _, (Cursor.next_laid (live hb)).laid, h⟩
  · simp only [hb, if_false] at h
    exact ⟨false, c, .refl c, h⟩

theorem methodModifiers_laid {modifiers : MethodModifiers}
    (h : methodModifiers context c = .ok (modifiers, c')) :
    c.Laid [] c' ∧ modifiers.label.isPlain = true := by
  simp only [methodModifiers, seesWord_bind, isModifier, bind_assoc, peek_bind, pure_bind'] at h
  obtain ⟨isAsync, c₁, word, h⟩ := word_bind (fun seen => by
    simp only [Bool.and_eq_true] at seen
    simp [isWord_kind seen.1.1]) h
  simp only [bind_ok, peek_bind, pure_bind'] at h
  obtain ⟨isGenerator, c₂, star, h⟩ := h
  have taken := word.trans (accept_laid (by decide) star)
  split at h
  · simp only [acceptWord_bind, ite_apply, if_true, Bool.false_eq_true, if_false] at h
    split at h
    · rename_i seen
      obtain ⟨rfl, rfl⟩ := pure_ok.1 h
      exact ⟨taken.trans (Cursor.next_laid (by simp [isWord_kind seen])).laid, rfl⟩
    split at h
    · rename_i seen
      obtain ⟨rfl, rfl⟩ := pure_ok.1 h
      exact ⟨taken.trans (Cursor.next_laid (by simp [isWord_kind seen])).laid, rfl⟩
    · obtain ⟨rfl, rfl⟩ := pure_ok.1 h
      exact ⟨taken, rfl⟩
  · obtain ⟨rfl, rfl⟩ := pure_ok.1 h
    exact ⟨taken, rfl⟩

theorem restElement_builds (build : rules.Build) : (restElement rules).Builds := by
  intro context c tree c' h
  simp only [restElement, here_bind, expect_bind, expected_ok, finish_ok, bind_ok] at h
  obtain ⟨opening, target, c₁, ht, -, rfl, rfl⟩ := h
  exact ((Cursor.next_laid (by simp [opening])).trans (build .bindingTarget ht).laid.laid).node
    (by decide)

theorem patternProperty_builds (build : rules.Build) : (patternProperty rules).Builds := by
  intro context c tree c' h
  simp only [patternProperty, here_bind, accept_bind] at h
  split at h
  · rename_i opening
    simp only [if_true, bind_ok, finish_ok] at h
    obtain ⟨target, c₁, ht, -, rfl, rfl⟩ := h
    exact ((Cursor.next_laid (by simp [opening])).trans
      (bindingIdentifier_builds ht).laid.laid).node (by decide)
  simp only [Bool.false_eq_true, if_false, sees_bind, decide_eq_true_eq] at h
  rw [bind_ok] at h
  obtain ⟨key, c₁, hk, h⟩ := h
  rw [accept_bind] at h
  split at h
  · rename_i colon
    simp only [if_true, bind_ok, finish_ok] at h
    obtain ⟨value, c₂, hv, -, rfl, rfl⟩ := h
    have target := (Cursor.next_laid (by simp [colon])).laid.trans (build .bindingElement hv).laid.laid
    exact ((propertyKey_laid build hk).trans target).node (by decide)
  simp only [Bool.false_eq_true, if_false] at h
  split at h
  · rename_i identifier
    obtain ⟨rfl, rfl⟩ := propertyKey_identifier hk identifier
    have live : c.current.kind ≠ .endOfInput := by simp [identifier]
    rw [accept_bind] at h
    split at h
    · rename_i assign
      simp only [if_true, allowingIn_apply, finish_bind, expected_ok, bind_ok, finish_ok] at h
      obtain ⟨initial, c₂, hi, -, -, rfl, rfl⟩ := h
      have default := (Cursor.next_laid (by simp [assign])).laid.trans
        (build .assignment hi).laid.laid
      exact (((Cursor.next_stands live).laid.trans default).node (by decide)).echoed
    · simp only [Bool.false_eq_true, if_false, pure_bind', finish_ok] at h
      obtain ⟨-, rfl, rfl⟩ := h
      exact Cursor.next_echoed _ live rfl
  · simp only [current_bind, fail_bind, fail_ok] at h

theorem objectPattern_builds (build : rules.Build) : (objectPattern rules).Builds := by
  intro context c tree c' h
  simp only [objectPattern, here_bind, expect_bind, expected_ok, finish_ok, bind_ok] at h
  obtain ⟨opening, properties, c₁, hp, closing, -, rfl, rfl⟩ := h
  have inner := (patternProperty_builds build).listed.collect hp
  exact (Cursor.enclosed_laid (by simp [opening]) inner (by simp [closing])).node (by decide)

theorem arrayElement_lays {element : Parser SyntaxTree} (h : element.Builds) :
    (arrayElement element).Lays := by
  intro context c trees c' taken
  simp only [arrayElement, accept_bind] at taken
  split at taken
  · rename_i comma
    simp only [if_true, pure_ok] at taken
    obtain ⟨rfl, rfl⟩ := taken
    exact (Cursor.missing_laid c).skip (Cursor.skip_laid (by simp [comma]))
  · simp only [Bool.false_eq_true, if_false] at taken
    exact h.listed taken

theorem restOr_builds (build : rules.Build) {other : Parser SyntaxTree} (h : other.Builds) :
    Parser.Builds (do if ← sees .ellipsis then restElement rules else other) := by
  intro context c tree c' taken
  rw [sees_bind] at taken
  exact (restElement_builds build).ite h taken

theorem arrayPattern_builds (build : rules.Build) : (arrayPattern rules).Builds := by
  intro context c tree c' h
  simp only [arrayPattern, here_bind, expect_bind, expected_ok, finish_ok, bind_ok] at h
  obtain ⟨opening, elements, c₁, he, closing, -, rfl, rfl⟩ := h
  have inner := (arrayElement_lays (restOr_builds build (build .bindingElement))).collect he
  exact (Cursor.enclosed_laid (by simp [opening]) inner (by simp [closing])).node (by decide)

theorem bindingTarget_builds (build : rules.Build) : (bindingTarget rules).Builds := by
  intro context c tree c' h
  rw [bindingTarget, current_bind] at h
  generalize c.current.kind = kind at h
  split at h
  · exact objectPattern_builds build h
  · exact arrayPattern_builds build h
  · exact bindingIdentifier_builds h

theorem bindingElement_builds (build : rules.Build) : (bindingElement rules).Builds := by
  intro context c tree c' h
  rw [bindingElement, here_bind, bind_ok] at h
  obtain ⟨target, c₁, ht, h⟩ := h
  have bound := bindingTarget_builds build ht
  rw [accept_bind] at h
  split at h
  · rename_i assign
    simp only [if_true, allowingIn_apply, bind_ok, finish_ok] at h
    obtain ⟨initial, c₂, hi, -, rfl, rfl⟩ := h
    exact (bound.laid.trans ((Cursor.skip_laid (by simp [assign])).trans
      (build .assignment hi).laid.laid)).node (by decide)
  · simp only [Bool.false_eq_true, if_false, pure_ok] at h
    obtain ⟨rfl, rfl⟩ := h
    exact bound

/-- A block is a node of the items in it. -/
theorem block_ok (build : rules.Build) (h : block rules context c = .ok (tree, c')) :
    ∃ items, tree = .node .block items ⟨c.current.start, c'.stop⟩ ∧ c.LaidBehind items c' := by
  simp only [block, here_bind, expect_bind, expected_ok, finish_ok, allowingIn_apply, bind_ok] at h
  obtain ⟨opening, items, c₁, hi, closing, -, rfl, rfl⟩ := h
  have inner := (build .item).single.collect hi
  exact ⟨items, rfl, (inner.skip (Cursor.skip_laid (by simp [closing]))).behind (by simp [opening])⟩

theorem block_builds (build : rules.Build) : (block rules).Builds := by
  intro context c tree c' h
  obtain ⟨items, rfl, laid⟩ := block_ok build h
  exact laid.listing rfl (by decide)

theorem parameters_builds (build : rules.Build) : (parameters rules).Builds := by
  intro context c tree c' h
  simp only [parameters, here_bind, expect_bind, expected_ok, finish_ok, allowingIn_apply, bind_ok]
    at h
  obtain ⟨opening, values, c₁, hv, closing, -, rfl, rfl⟩ := h
  have inner := (restOr_builds build (build .bindingElement)).listed.collect hv
  exact (Cursor.enclosed_laid (by simp [opening]) inner (by simp [closing])).node (by decide)

theorem functionRest_laid (build : rules.Build) {isAsync isGenerator : Bool}
    {parts : SyntaxTree × SyntaxTree}
    (h : functionRest rules isAsync isGenerator context c = .ok (parts, c')) :
    c.Laid [parts.1, parts.2] c' := by
  simp only [functionRest, insideFunction_apply, allowingIn_apply, bind_ok, pure_ok] at h
  obtain ⟨parameters, c₁, hp, body, c₂, hb, rfl, rfl⟩ := h
  exact (parameters_builds build hp).laid.laid.trans (block_builds build hb).laid.laid

/-- What follows a name that may be left out unless it is required. -/
private theorem name_bind {nameRequired : Bool} {cause : ParseCause}
    {k : SyntaxTree → Parser SyntaxTree} {x : SyntaxTree × Cursor}
    (h : (sees .identifier >>= fun named =>
      if named then takeLeaf >>= k
      else if nameRequired then current >>= fun token => fail cause token >>= k
      else pure .missing >>= k) context c = .ok x) :
    ∃ name c₁, c.Laid [name] c₁ ∧ k name context c₁ = .ok x := by
  rw [sees_bind] at h
  split at h
  · rename_i identifier
    rw [takeLeaf_bind] at h
    exact ⟨_, _, (Cursor.next_stands (by simp_all)).laid.laid, h⟩
  split at h
  · simp only [current_bind, fail_bind, fail_ok] at h
  · exact ⟨_, _, Cursor.missing_laid c, h⟩

/-- A function starts with the word `function` or with the word `async` before it. -/
theorem function_builds (build : rules.Build) {label : Label} {nameRequired : Bool}
    (allowed : label.isPlain = true ∨ label ∈ Curry.declarationLabels) :
    (function rules label nameRequired).Builds := by
  intro context c tree c' h
  rw [function, here_bind, bind_ok] at h
  obtain ⟨isAsync, c₁, ha, h⟩ := h
  rw [expect_bind, expected_ok, bind_ok] at h
  obtain ⟨word, isGenerator, c₂, hg, h⟩ := h
  obtain ⟨name, c₃, hn, h⟩ := name_bind h
  simp only [bind_ok, finish_ok] at h
  obtain ⟨parts, c₄, hp, -, rfl, rfl⟩ := h
  have behind : c₁.Laid [name, parts.1, parts.2] c₄ :=
    (Cursor.skip_laid (by simp [word])).trans ((accept_laid (by decide) hg).trans
      (hn.trans (functionRest_laid build hp)))
  obtain ⟨async, rfl⟩ | ⟨_, rfl⟩ := acceptWord_ok ha
  · have all := (Cursor.next_laid (by simp [isWord_kind async])).trans behind
    exact all.definition (by simp [Token.opensDeclaration, async]) allowed
  · have all := (Cursor.next_laid (by simp [word])).trans ((accept_laid (by decide) hg).trans
      (hn.trans (functionRest_laid build hp)))
    exact all.definition (by simp [Token.opensDeclaration, word]) allowed

/-- What follows the parameters of an arrow function, which may be a single name. -/
theorem arrowParameters_bind (build : rules.Build) {k : SyntaxTree → Parser SyntaxTree}
    {x : SyntaxTree × Cursor}
    (h : (sees .identifier >>= fun single =>
      if single then here >>= fun start => takeLeaf >>= fun name => finish .params [name] start >>= k
      else parameters rules >>= k) context c = .ok x) :
    ∃ names c₁, c.Stands names c₁ ∧ k names context c₁ = .ok x := by
  rw [sees_bind] at h
  split at h
  · rename_i identifier
    rw [here_bind, takeLeaf_bind, finish_bind] at h
    exact ⟨_, _, (Cursor.next_stands (by simp_all)).laid.node (by decide), h⟩
  · obtain ⟨names, c₁, hn, h⟩ := bind_ok.1 h
    exact ⟨names, c₁, parameters_builds build hn, h⟩

theorem arrow_builds (build : rules.Build) : (arrow rules).Builds := by
  intro context c tree c' h
  simp only [arrow, here_bind, peek_bind] at h
  rw [bind_ite, bind_ok] at h
  obtain ⟨isAsync, c₁, ha, h⟩ := h
  obtain ⟨names, c₂, hn, h⟩ := arrowParameters_bind build h
  simp only [expect_bind, expected_ok, insideFunction_apply, sees_bind, finish_ok, bind_ok] at h
  obtain ⟨arrow, body, c₃, hb, -, rfl, rfl⟩ := h
  have names := (acceptWordIf_laid ha).transSome hn.laid
  exact (names.trans ((Cursor.skip_laid (by simp [arrow])).trans
    ((block_builds build).ite (build .assignment) hb).laid.laid)).node (by decide)

variable {c₀ : Cursor}

theorem fieldRest_stands (build : rules.Build) {key : SyntaxTree} (first : c₀.LaidSome [key] c)
    (h : fieldRest rules key c₀.current.start context c = .ok (tree, c')) : c₀.Stands tree c' := by
  rw [fieldRest, accept_bind] at h
  split at h
  · rename_i assign
    simp only [if_true, context_bind, insideFunction_apply, allowingIn_apply, finish_ok, bind_ok]
      at h
    obtain ⟨value, c₁, hv, _, c₂, he, -, rfl, rfl⟩ := h
    have initial := (Cursor.skip_laid (by simp [assign])).trans (build .assignment hv).laid.laid
    exact (first.trans (initial.skip (endStatement_laid he))).node (by decide)
  · simp only [Bool.false_eq_true, if_false, pure_bind', finish_ok, bind_ok] at h
    obtain ⟨_, c₂, he, -, rfl, rfl⟩ := h
    exact (first.trans ((Cursor.missing_laid c).skip (endStatement_laid he))).node (by decide)

theorem methodOrField_stands (build : rules.Build) (before : c₀.Laid [] c)
    (h : methodOrField rules c₀.current.start context c = .ok (tree, c')) : c₀.Stands tree c' := by
  rw [methodOrField, bind_ok] at h
  obtain ⟨modifiers, c₁, hm, h⟩ := h
  rw [bind_ok] at h
  obtain ⟨key, c₂, hk, h⟩ := h
  obtain ⟨words, plainLabel⟩ := methodModifiers_laid hm
  have first := (before.trans words).transSome (propertyKey_laid build hk)
  rw [sees_bind] at h
  split at h
  · simp only [finish_ok, bind_ok] at h
    obtain ⟨parts, c₃, hp, -, rfl, rfl⟩ := h
    exact (first.trans (functionRest_laid build hp)).node plainLabel
  · exact fieldRest_stands build first h

theorem classMember_builds (build : rules.Build) : (classMember rules).Builds := by
  intro context c tree c' h
  simp only [classMember, here_bind, isModifier, bind_assoc, peek_bind, pure_bind'] at h
  rw [bind_ite, bind_ok] at h
  obtain ⟨isStatic, c₁, hs, h⟩ := h
  have before := acceptWordIf_laid hs
  rw [sees_bind] at h
  split at h
  · simp only [insideFunction_apply, finish_ok, bind_ok] at h
    obtain ⟨body, c₂, hb, -, rfl, rfl⟩ := h
    obtain ⟨items, rfl, laid⟩ := block_ok build hb
    exact (before.transBehind laid).listing rfl (by decide)
  · exact methodOrField_stands build before h

theorem classBody_builds (build : rules.Build) : (classBody rules).Builds := by
  intro context c tree c' h
  simp only [classBody, here_bind, expect_bind, expected_ok, finish_ok, bind_ok] at h
  obtain ⟨opening, members, c₁, hm, closing, -, rfl, rfl⟩ := h
  have inner : c.next.Laid members c₁ := by
    refine collect_laid (fun {context c trees c'} _ taken => ?_) hm
    rw [accept_bind] at taken
    split at taken
    · rename_i semicolon
      obtain ⟨rfl, rfl⟩ := pure_ok.1 taken
      exact Cursor.skip_laid (by simp [semicolon])
    · exact (classMember_builds build).single taken
  exact (Cursor.enclosed_laid (by simp [opening]) inner (by simp [closing])).node (by decide)

theorem classDefinition_builds (build : rules.Build) {label : Label} {nameRequired : Bool}
    (allowed : label.isPlain = true ∨ label ∈ Curry.declarationLabels) :
    (classDefinition rules label nameRequired).Builds := by
  intro context c tree c' h
  rw [classDefinition, here_bind, expect_bind, expected_ok] at h
  obtain ⟨word, h⟩ := h
  obtain ⟨name, c₁, hn, h⟩ := name_bind h
  obtain ⟨base, c₂, hb, h⟩ := accepted_bind (build .leftHand) h (by decide)
  simp only [finish_ok, bind_ok] at h
  obtain ⟨body, c₃, hm, -, rfl, rfl⟩ := h
  have all := (Cursor.next_laid (by simp [word])).trans
    (hn.trans (hb.trans (classBody_builds build hm).laid.laid))
  exact all.definition (by simp [Token.opensDeclaration, word]) allowed

end Uncurry.Grammar
