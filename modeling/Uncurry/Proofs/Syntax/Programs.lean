import Uncurry.Proofs.Syntax.Statements

/-!
# Programs build

All rules build, by induction on the depth to which constructs nest. The node of a program spans
the whole text, so that it is spelled by all tokens without being a spelled tree itself.
-/
namespace Uncurry

open Uncurry.Parser

variable {context : ParseContext} {c c' c₀ : Cursor} {tree : SyntaxTree}

namespace Grammar

variable {rules : Rules}

/-- A name with an alias behind it, or alone. -/
theorem specifier_builds {label : Label} (plainLabel : label.isPlain = true)
    (echoes : label.mayEcho = true) : (specifier label).Builds := by
  intro context c tree c' h
  rw [specifier, here_bind, bind_ok] at h
  obtain ⟨name, c₁, hn, h⟩ := h
  rw [acceptWord_bind] at h
  split at h
  · rename_i word
    simp only [if_true, finish_ok, bind_ok] at h
    obtain ⟨outer, c₂, ho, -, rfl, rfl⟩ := h
    exact ((exportName_laid hn).trans ((Cursor.skip_laid (by simp [isWord_kind word])).trans
      (exportName_laid ho).laid)).node plainLabel
  · obtain ⟨live, rfl, kind, rfl⟩ := exportName_ok hn
    simp only [Bool.false_eq_true, if_false, pure_bind', finish_ok] at h
    obtain ⟨-, rfl, rfl⟩ := h
    exact Cursor.next_echoed kind live echoes

theorem specifiers_laid {label : Label} (plainLabel : label.isPlain = true)
    (echoes : label.mayEcho = true) {trees : List SyntaxTree}
    (h : specifiers label context c = .ok (trees, c')) : c.LaidSome trees c' := by
  simp only [specifiers, expect_bind, expected_ok, pure_ok, bind_ok] at h
  obtain ⟨opening, items, c₁, hi, closing, rfl, rfl⟩ := h
  have inner := (specifier_builds plainLabel echoes).listed.collect hi
  exact Cursor.enclosed_laid (by simp [opening]) inner (by simp [closing])

theorem skipAttributes_laid (build : rules.Build) {u : Unit}
    (h : skipAttributes rules context c = .ok (u, c')) : c.Laid [] c' := by
  rw [skipAttributes, current_bind] at h
  split at h
  · rename_i word
    have live : c.current.kind ≠ .endOfInput := by
      rintro atEnd
      simp [Token.isWord, atEnd] at word
    simp only [advance_bind, pure_ok, bind_ok] at h
    obtain ⟨object, c₁, ho, _, rfl⟩ := h
    intro final
    have first := Cursor.next_passes live final
    obtain ⟨own, passes, _⟩ := objectLiteral_builds build ho (by rw [first.final, final])
    have all := first.trans passes
    refine ⟨([c.current] ++ own).map .token, ?_, ?_, by simp [Piece.isEcho], by simp⟩
    · rwa [Piece.spelling_map_token]
    · rw [Piece.children_map_token]
  · obtain ⟨_, rfl⟩ := pure_ok.1 h
    exact .refl _

theorem moduleSource_laid (build : rules.Build) (h : moduleSource rules context c = .ok (tree, c')) :
    c.Laid [tree] c' := by
  simp only [moduleSource, expect_bind, expected_ok, pure_ok, bind_ok] at h
  obtain ⟨word, _, c₁, hs, rfl, rfl⟩ := h
  exact (Cursor.next_stands (by simp [word])).laid.laid.skip (skipAttributes_laid build hs)

theorem namedSpecifiers_laid {trees : List SyntaxTree}
    (h : namedSpecifiers context c = .ok (trees, c')) : c.Laid trees c' := by
  rw [namedSpecifiers, here_bind, current_bind] at h
  generalize hk : c.current.kind = kind at h
  split at h
  · simp only [advance_bind, expectWord_bind, expected_ok, finish_bind, pure_ok, bind_ok] at h
    obtain ⟨word, name, c₁, hn, -, rfl, rfl⟩ := h
    exact ((Cursor.next_laid (by simp [hk])).trans
      ((Cursor.skip_laid (by simp [isWord_kind word])).trans
        (bindingIdentifier_builds hn).laid.laid)).node (by decide) |>.laid.laid
  · exact (specifiers_laid (by decide) rfl h).laid
  · exact (fail_ok.1 h).elim

theorem defaultSpecifier_laid (live : c.current.kind ≠ .endOfInput)
    (h : defaultSpecifier context c = .ok (tree, c')) : c.Laid [tree] c' := by
  rw [defaultSpecifier, here_bind, takeLeaf_bind, finish_ok] at h
  obtain ⟨-, rfl, rfl⟩ := h
  exact ((Cursor.next_stands live).laid.node (by decide)).laid.laid

/-- What follows the name for the default export, which may be left out. -/
private theorem default_bind {k : List SyntaxTree → Parser (List SyntaxTree)}
    {x : List SyntaxTree × Cursor}
    (h : (sees .identifier >>= fun named =>
      if named then defaultSpecifier >>= fun name => pure [name] >>= k else pure [] >>= k) context c =
        .ok x) : ∃ names c₁, c.Laid names c₁ ∧ k names context c₁ = .ok x := by
  rw [sees_bind] at h
  split at h
  · rename_i named
    obtain ⟨name, c₁, hn, h⟩ := bind_ok.1 h
    exact ⟨[name], c₁, defaultSpecifier_laid (by simp_all) hn, h⟩
  · exact ⟨[], c, .refl c, h⟩

theorem importClause_laid {trees : List SyntaxTree}
    (h : importClause context c = .ok (trees, c')) : c.Laid trees c' := by
  rw [importClause] at h
  obtain ⟨names, c₁, hn, h⟩ := default_bind h
  dsimp only at h
  rw [bind_ite, bind_ok] at h
  obtain ⟨more, c₂, hm, h⟩ := h
  have comma : c₁.Laid [] c₂ := by
    split at hm
    · obtain ⟨_, rfl⟩ := pure_ok.1 hm
      exact .refl _
    · exact accept_laid (by decide) hm
  rw [bind_ite, bind_ok] at h
  obtain ⟨later, c₃, hl, h⟩ := h
  have named : c₂.Laid later c₃ := by
    split at hl
    · exact namedSpecifiers_laid hl
    · obtain ⟨rfl, rfl⟩ := pure_ok.1 hl
      exact .refl _
  rw [expectWord_bind, expected_ok, pure_ok] at h
  obtain ⟨word, rfl, rfl⟩ := h
  exact hn.trans (comma.trans (named.skip (Cursor.skip_laid (by simp [isWord_kind word]))))

theorem importDeclaration_builds (build : rules.Build) : (importDeclaration rules).Builds := by
  intro context c tree c' h
  rw [importDeclaration, here_bind, expect_bind, expected_ok, sees_bind] at h
  obtain ⟨word, h⟩ := h
  dsimp only at h
  rw [bind_ite, bind_ok] at h
  obtain ⟨clause, c₁, hc, h⟩ := h
  have brought : c.next.Laid clause c₁ := by
    split at hc
    · obtain ⟨rfl, rfl⟩ := pure_ok.1 hc
      exact .refl _
    · exact importClause_laid hc
  simp only [finish_ok, bind_ok] at h
  obtain ⟨source, c₂, hs, _, c₃, he, -, rfl, rfl⟩ := h
  have parts := (Cursor.next_laid (by simp [word])).trans
    (brought.trans ((moduleSource_laid build hs).skip (endStatement_laid he)))
  exact parts.declaration (by simp [Token.opensDeclaration, word]) (by decide)

theorem exportDefaultRest_stands (build : rules.Build) (first : c₀.LaidSome [] c)
    (word : c₀.current.kind = .kwExport)
    (h : exportDefaultRest rules c₀.current.start context c = .ok (tree, c')) :
    c₀.Stands tree c' := by
  have opens : c₀.current.opensDeclaration = true := by simp [Token.opensDeclaration, word]
  rw [exportDefaultRest, sees_bind, seesAsyncFunction_bind, sees_bind] at h
  split at h
  · simp only [finish_ok, bind_ok] at h
    obtain ⟨declared, c₁, hd, -, rfl, rfl⟩ := h
    exact (first.trans (function_builds build (.inr (by decide)) hd).laid.laid).declaration opens
      (by decide)
  split at h
  · simp only [finish_ok, bind_ok] at h
    obtain ⟨declared, c₁, hd, -, rfl, rfl⟩ := h
    exact (first.trans
      (classDefinition_builds build (.inr (by decide)) hd).laid.laid).declaration opens (by decide)
  · simp only [allowingIn_apply, pure_bind', finish_ok, bind_ok] at h
    obtain ⟨value, c₁, hv, _, c₂, he, -, rfl, rfl⟩ := h
    exact (first.trans ((build .assignment hv).laid.laid.skip (endStatement_laid he))).declaration
      opens (by decide)

theorem exportAllRest_stands (build : rules.Build) (first : c₀.LaidSome [] c)
    (word : c₀.current.kind = .kwExport)
    (h : exportAllRest rules c₀.current.start context c = .ok (tree, c')) :
    c₀.Stands tree c' := by
  rw [exportAllRest] at h
  obtain ⟨name, c₁, hn, h⟩ := acceptedWord_bind (fun taken => (exportName_laid taken).laid) h
  simp only [expectWord_bind, expected_ok, finish_ok, bind_ok] at h
  obtain ⟨word', source, c₂, hs, _, c₃, he, -, rfl, rfl⟩ := h
  have parts := first.trans (hn.trans ((Cursor.skip_laid (by simp [isWord_kind word'])).trans
    ((moduleSource_laid build hs).skip (endStatement_laid he))))
  exact parts.declaration (by simp [Token.opensDeclaration, word]) (by decide)

theorem exportListRest_stands (build : rules.Build) (first : c₀.LaidSome [] c)
    (word : c₀.current.kind = .kwExport)
    (h : exportListRest rules c₀.current.start context c = .ok (tree, c')) :
    c₀.Stands tree c' := by
  rw [exportListRest, here_bind, bind_ok] at h
  obtain ⟨items, c₁, hi, h⟩ := h
  rw [finish_bind, expected_ok] at h
  obtain ⟨source, c₂, hs, h⟩ := acceptedWord_bind (moduleSource_laid build) h.2
  simp only [finish_ok, bind_ok] at h
  obtain ⟨_, c₃, he, -, rfl, rfl⟩ := h
  have list : c.Stands (.node .exportSpecifiers items ⟨c.current.start, c₁.stop⟩) c₁ :=
    (specifiers_laid (by decide) rfl hi).node (by decide)
  have parts := first.trans ((Cursor.missing_laid c).trans
    (list.laid.laid.trans (hs.skip (endStatement_laid he))))
  exact parts.declaration (by simp [Token.opensDeclaration, word]) (by decide)

theorem exportedDeclaration_builds (build : rules.Build) : (exportedDeclaration rules).Builds := by
  intro context c tree c' h
  rw [exportedDeclaration, current_bind] at h
  obtain ⟨answer, sees⟩ := seesLet_bind _
  rw [sees] at h
  split at h
  · rename_i declares
    have opens : opensVariables c.current = true := by
      simp only [opensVariables, Bool.or_eq_true, Bool.and_eq_true] at declares ⊢
      exact declares.imp_right And.left
    exact variableStatement_stands build opens h
  rw [seesAsyncFunction_bind] at h
  split at h
  · exact function_builds build (.inr (by decide)) h
  split at h
  · exact classDefinition_builds build (.inr (by decide)) h
  · exact (fail_ok.1 h).elim

theorem exportDeclaration_builds (build : rules.Build) : (exportDeclaration rules).Builds := by
  intro context c tree c' h
  rw [exportDeclaration, here_bind, expect_bind, expected_ok, accept_bind] at h
  obtain ⟨word, h⟩ := h
  have first := Cursor.next_laid (c := c) (by simp [word])
  split at h
  · rename_i word'
    exact exportDefaultRest_stands build (first.skip (Cursor.skip_laid (by simp [word']))) word h
  simp only [Bool.false_eq_true, if_false, accept_bind] at h
  split at h
  · rename_i star
    exact exportAllRest_stands build (first.skip (Cursor.skip_laid (by simp [star]))) word h
  rw [sees_bind] at h
  split at h
  · exact exportListRest_stands build first word h
  · simp only [finish_ok, bind_ok] at h
    obtain ⟨declaration, c₁, hd, -, rfl, rfl⟩ := h
    have parts := first.trans ((exportedDeclaration_builds build hd).laid.laid.trans
      ((Cursor.missing_laid _).trans (Cursor.missing_laid _)))
    exact parts.declaration (by simp [Token.opensDeclaration, word]) (by decide)

theorem seesImportDeclaration_bind {α : Type} (f : Bool → Parser α) :
    ∃ answer, (seesImportDeclaration >>= f) context c = f answer context c := ⟨_, rfl⟩

theorem item_builds (build : rules.Build) : (item rules).Builds := by
  intro context c tree c' h
  rw [item, seesAsyncFunction_bind] at h
  split at h
  · exact function_builds build (.inr (by decide)) h
  obtain ⟨isImport, sees⟩ := seesImportDeclaration_bind _
  rw [sees] at h
  split at h
  · exact importDeclaration_builds build h
  rw [sees_bind] at h
  split at h
  · exact exportDeclaration_builds build h
  · exact statement_builds build h

end Grammar

theorem Rule.body_build {rules : Rules} (build : rules.Build) : Rules.Build (body rules)
  | item => Grammar.item_builds build
  | statement => Grammar.statement_builds build
  | expression => Grammar.expression_builds build
  | assignment => Grammar.assignment_builds build
  | binary level => Grammar.binary_builds build level
  | unary => Grammar.unary_builds build
  | leftHand => Grammar.leftHand_builds build
  | primary => Grammar.primary_builds build
  | bindingTarget => Grammar.bindingTarget_builds build
  | bindingElement => Grammar.bindingElement_builds build

theorem Rule.parserFuel_build (depth : Nat) : Rules.Build (parserFuel depth) := by
  induction depth with
  | zero => exact fun _ _ _ _ _ h => (halt_ok.1 h).elim
  | succ depth ih => exact Rule.body_build ih

/-- Every rule builds. -/
theorem Rule.parser_builds (rule : Rule) : rule.parser.Builds :=
  fun _ _ _ _ h => parserFuel_build _ rule h

namespace Grammar

/-- The items of a program are laid out over the tokens from the first one on up to the end. -/
theorem program_laid (h : program context c = .ok (tree, c')) :
    ∃ items, tree = .node .program items ⟨.origin, c'.current.start⟩ ∧ c.Laid items c' ∧
      (c.final.kind = .endOfInput → c'.current.kind = .endOfInput) := by
  simp only [program, here_bind, pure_ok, bind_ok] at h
  obtain ⟨items, c₁, hi, rfl, rfl⟩ := h
  have build := Rule.parser_builds .item
  refine ⟨items, rfl, build.single.collect hi, fun final => ?_⟩
  exact of_decide_eq_true (collect_ends hi)

end Grammar

end Uncurry
