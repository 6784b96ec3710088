import Uncurry.Proofs.Syntax.Expressions

/-!
# Statements build
-/
namespace Uncurry.Grammar

open Uncurry.Parser

variable {rules : Rules} {context : ParseContext} {c c' c₀ : Cursor} {tree : SyntaxTree}

/-- The tokens that variables may be declared with. -/
def opensVariables (token : Token) : Bool :=
  [.kwVar, .kwConst].contains token.kind || token.isWord "let"

theorem opensVariables_live (h : opensVariables c.current = true) :
    c.current.kind ≠ .endOfInput := by
  intro atEnd
  simp [opensVariables, Token.isWord, atEnd] at h

theorem opensVariables_opens {token : Token} (h : opensVariables token = true) :
    token.opensDeclaration = true := by
  simp only [opensVariables, List.contains_cons, List.contains_nil, Bool.or_false, Bool.or_eq_true,
    beq_iff_eq] at h
  obtain (h | h) | h := h <;> simp [Token.opensDeclaration, h]

/-- Where `let` declares variables, it is the current token. -/
theorem seesLet_bind {α : Type} (f : Bool → Parser α) :
    ∃ answer, (seesLet >>= f) context c = f (c.current.isWord "let" && answer) context c :=
  ⟨_, rfl⟩

theorem declarator_builds (build : rules.Build) : (declarator rules).Builds := by
  intro context c tree c' h
  rw [declarator, here_bind, bind_ok] at h
  obtain ⟨target, c₁, ht, h⟩ := h
  obtain ⟨initial, c₂, hi, h⟩ := accepted_bind (build .assignment) h (by decide)
  obtain ⟨-, rfl, rfl⟩ := finish_ok.1 h
  exact ((build .bindingTarget ht).laid.trans hi).declarator

theorem declarators_laid (build : rules.Build) {trees : List SyntaxTree}
    (live : c.current.kind ≠ .endOfInput) (h : declarators rules context c = .ok (trees, c')) :
    c.LaidSome trees c' := by
  rw [declarators, advance_bind] at h
  rw [bind_ok] at h
  obtain ⟨first, c₁, hf, h⟩ := h
  rw [bind_ok] at h
  obtain ⟨later, c₂, hl, h⟩ := h
  obtain ⟨rfl, rfl⟩ := pure_ok.1 h
  exact (Cursor.word_laid .binding live).trans ((declarator_builds build hf).laid.laid.trans
    (behindCommas_laid (declarator_builds build) hl))

theorem variableStatement_stands (build : rules.Build) (opens : opensVariables c.current = true)
    (h : variableStatement rules context c = .ok (tree, c')) : c.Stands tree c' := by
  simp only [variableStatement, here_bind, finish_ok, bind_ok] at h
  obtain ⟨parts, c₁, hp, _, c₂, he, -, rfl, rfl⟩ := h
  exact ((declarators_laid build (opensVariables_live opens) hp).skip
    (endStatement_laid he)).declaration (opensVariables_opens opens) (by decide)

theorem expressionStatement_builds (build : rules.Build) : (expressionStatement rules).Builds := by
  intro context c tree c' h
  simp only [expressionStatement, here_bind, allowingIn_apply, finish_ok, bind_ok] at h
  obtain ⟨value, c₁, hv, _, c₂, he, -, rfl, rfl⟩ := h
  exact ((expression_builds build hv).laid.skip (endStatement_laid he)).node (by decide)

theorem emptyStatement_stands (live : c.current.kind ≠ .endOfInput)
    (h : emptyStatement context c = .ok (tree, c')) : c.Stands tree c' := by
  rw [emptyStatement, here_bind, advance_bind, finish_ok] at h
  obtain ⟨-, rfl, rfl⟩ := h
  exact (Cursor.next_laid live).node (by decide)

theorem debuggerStatement_stands (live : c.current.kind ≠ .endOfInput)
    (h : debuggerStatement context c = .ok (tree, c')) : c.Stands tree c' := by
  simp only [debuggerStatement, here_bind, advance_bind, finish_ok, bind_ok] at h
  obtain ⟨_, c₁, he, -, rfl, rfl⟩ := h
  exact ((Cursor.next_laid live).skip (endStatement_laid he)).node (by decide)

theorem ifStatement_builds (build : rules.Build) : (ifStatement rules).Builds := by
  intro context c tree c' h
  rw [ifStatement, here_bind, expect_bind, expected_ok, bind_ok] at h
  obtain ⟨word, test, c₁, ht, h⟩ := h
  rw [bind_ok] at h
  obtain ⟨consequent, c₂, hc, h⟩ := h
  obtain ⟨alternate, c₃, ha, h⟩ := accepted_bind (build .statement) h (by decide)
  obtain ⟨-, rfl, rfl⟩ := finish_ok.1 h
  exact ((Cursor.next_laid (by simp [word])).trans ((inParens_laid build ht).laid.trans
    ((build .statement hc).laid.laid.trans ha))).node (by decide)

theorem forInitial_laid (build : rules.Build) (h : forInitial rules context c = .ok (tree, c')) :
    c.Laid [tree] c' := by
  rw [forInitial, sees_bind] at h
  split at h
  · obtain ⟨rfl, rfl⟩ := pure_ok.1 h
    exact Cursor.missing_laid c
  rw [here_bind, seesAny_bind] at h
  obtain ⟨answer, sees⟩ := seesLet_bind _
  rw [sees] at h
  split at h
  · rename_i declares
    have opens : opensVariables c.current = true := by
      simp only [opensVariables, Bool.or_eq_true, Bool.and_eq_true] at declares ⊢
      exact declares.imp_right And.left
    simp only [forbiddingIn_apply, finish_ok, bind_ok] at h
    obtain ⟨parts, c₁, hp, -, rfl, rfl⟩ := h
    exact ((declarators_laid build (opensVariables_live opens) hp).declaration
      (opensVariables_opens opens) (by decide)).laid.laid
  · exact (build .expression h).laid.laid

theorem forEachRest_stands (build : rules.Build) {label : Label} {binding : SyntaxTree}
    (plainLabel : label.isPlain = true) (live : c.current.kind ≠ .endOfInput)
    (first : c₀.LaidSome [binding] c)
    (h : forEachRest rules label c₀.current.start binding context c = .ok (tree, c')) :
    c₀.Stands tree c' := by
  simp only [forEachRest, advance_bind, allowingIn_apply, expect_bind, expected_ok, finish_ok,
    bind_ok] at h
  obtain ⟨values, c₁, hv, closing, body, c₂, hb, -, rfl, rfl⟩ := h
  exact (first.trans ((Cursor.skip_laid live).trans ((build _ hv).laid.laid.trans
    ((Cursor.skip_laid (by simp [closing])).trans (build .statement hb).laid.laid)))).node plainLabel

theorem forRest_stands (build : rules.Build) {initial : SyntaxTree}
    (first : c₀.LaidSome [initial] c)
    (h : forRest rules c₀.current.start initial context c = .ok (tree, c')) : c₀.Stands tree c' := by
  rw [forRest, expect_bind, expected_ok, sees_bind] at h
  obtain ⟨semicolon, h⟩ := h
  obtain ⟨test, c₁, ht, h⟩ := absent_bind (allowingIn_builds (build .expression)) h
  dsimp only at h
  rw [expect_bind, expected_ok, sees_bind] at h
  obtain ⟨semicolon', h⟩ := h
  obtain ⟨update, c₂, hu, h⟩ := absent_bind (allowingIn_builds (build .expression)) h
  simp only [expect_bind, expected_ok, finish_ok, bind_ok] at h
  obtain ⟨closing, body, c₃, hb, -, rfl, rfl⟩ := h
  have behind := (Cursor.skip_laid (by simp [closing])).trans (build .statement hb).laid.laid
  exact (first.trans ((Cursor.skip_laid (by simp [semicolon])).trans (ht.trans
    ((Cursor.skip_laid (by simp [semicolon'])).trans (hu.trans behind))))).node (by decide)

theorem forStatement_builds (build : rules.Build) : (forStatement rules).Builds := by
  intro context c tree c' h
  rw [forStatement, here_bind, expect_bind, expected_ok, bind_ok] at h
  obtain ⟨word, _, c₁, ha, h⟩ := h
  rw [expect_bind, expected_ok, sees_bind, bind_ok] at h
  obtain ⟨opening, initial, c₂, hi, h⟩ := h
  have first := (Cursor.next_laid (c := c) (by simp [word])).trans ((acceptWord_laid ha).trans
    ((Cursor.skip_laid (by simp [opening])).trans (forInitial_laid build hi)))
  split at h
  · exact forRest_stands build first h
  rw [sees_bind] at h
  split at h
  · rename_i word
    exact forEachRest_stands build (by decide) (by simp_all) first h
  rw [seesWord_bind] at h
  split at h
  · rename_i word
    exact forEachRest_stands build (by decide) (by simp [isWord_kind word]) first h
  · exact forRest_stands build first h

theorem whileStatement_builds (build : rules.Build) : (whileStatement rules).Builds := by
  intro context c tree c' h
  simp only [whileStatement, here_bind, expect_bind, expected_ok, finish_ok, bind_ok] at h
  obtain ⟨word, test, c₁, ht, body, c₂, hb, -, rfl, rfl⟩ := h
  exact ((Cursor.next_laid (by simp [word])).trans ((inParens_laid build ht).laid.trans
    (build .statement hb).laid.laid)).node (by decide)

theorem doWhileStatement_builds (build : rules.Build) : (doWhileStatement rules).Builds := by
  intro context c tree c' h
  simp only [doWhileStatement, here_bind, expect_bind, expected_ok, finish_ok, bind_ok] at h
  obtain ⟨word, body, c₁, hb, word', test, c₂, ht, _, c₃, ha, -, rfl, rfl⟩ := h
  have behind := (Cursor.skip_laid (by simp [word'])).trans (inParens_laid build ht).laid
  exact ((Cursor.next_laid (by simp [word])).trans ((build .statement hb).laid.laid.trans
    (behind.skip (accept_laid (by decide) ha)))).node (by decide)

theorem caseTest_laid (build : rules.Build) (h : caseTest rules context c = .ok (tree, c')) :
    c.LaidBehind [tree] c' := by
  rw [caseTest, accept_bind] at h
  split at h
  · rename_i word
    exact (build .expression h).laid.laid.behind (by simp [word])
  simp only [Bool.false_eq_true, if_false, current_bind] at h
  split at h
  · rename_i word
    rw [advance_bind, pure_ok] at h
    obtain ⟨rfl, rfl⟩ := h
    exact (Cursor.missing_laid _).behind (by simp [word])
  · exact (fail_ok.1 h).elim

theorem switchCase_builds (build : rules.Build) : (switchCase rules).Builds := by
  intro context c tree c' h
  simp only [switchCase, here_bind, expect_bind, expected_ok, finish_ok, bind_ok] at h
  obtain ⟨test, c₁, ht, colon, items, c₂, hi, -, rfl, rfl⟩ := h
  exact ((caseTest_laid build ht).trans ((Cursor.skip_laid (by simp [colon])).trans
    ((build .item).single.collect hi))).listing rfl (by decide)

theorem switchStatement_builds (build : rules.Build) : (switchStatement rules).Builds := by
  intro context c tree c' h
  simp only [switchStatement, here_bind, expect_bind, expected_ok, finish_ok, bind_ok] at h
  obtain ⟨word, subject, c₁, hs, opening, cases, c₂, hc, closing, -, rfl, rfl⟩ := h
  have inner := (switchCase_builds build).single.collect hc
  have body := (Cursor.enclosed_laid (by simp [opening]) inner (by simp [closing])).laid
  exact ((Cursor.next_laid (by simp [word])).trans ((inParens_laid build hs).laid.trans body)).node
    (by decide)

theorem catchClause_builds (build : rules.Build) : (catchClause rules).Builds := by
  intro context c tree c' h
  rw [catchClause, here_bind, expect_bind, expected_ok, accept_bind] at h
  obtain ⟨word, h⟩ := h
  have first := Cursor.next_laid (c := c) (by simp [word])
  split at h
  · rename_i opening
    simp only [if_true, expect_bind, expected_ok, pure_bind', finish_ok, bind_ok] at h
    obtain ⟨target, c₁, ht, closing, body, c₂, hb, -, rfl, rfl⟩ := h
    have bound := Cursor.enclosed_laid (by simp [opening]) (build .bindingTarget ht).laid.laid
      (by simp [closing])
    exact (first.trans (bound.laid.trans (block_builds build hb).laid.laid)).node (by decide)
  · simp only [Bool.false_eq_true, if_false, pure_bind', finish_ok, bind_ok] at h
    obtain ⟨body, c₂, hb, -, rfl, rfl⟩ := h
    exact (first.trans ((Cursor.missing_laid _).trans (block_builds build hb).laid.laid)).node
      (by decide)

theorem tryStatement_builds (build : rules.Build) : (tryStatement rules).Builds := by
  intro context c tree c' h
  rw [tryStatement, here_bind, expect_bind, expected_ok, bind_ok] at h
  obtain ⟨word, body, c₁, hb, h⟩ := h
  rw [sees_bind] at h
  obtain ⟨handler, c₂, hh, h⟩ := present_bind (catchClause_builds build) h
  rw [bind_ok] at h
  obtain ⟨finishes, c₃, hf, h⟩ := h
  obtain ⟨finalizer, c₄, hz, h⟩ := present_bind (block_builds build) h
  split at h
  · obtain ⟨-, rfl, rfl⟩ := finish_ok.1 h
    exact ((Cursor.next_laid (by simp [word])).trans ((block_builds build hb).laid.laid.trans
      (hh.trans ((accept_laid (by decide) hf).trans hz)))).node (by decide)
  · exact (fail_ok.1 h).elim

theorem returnStatement_builds (build : rules.Build) : (returnStatement rules).Builds := by
  intro context c tree c' h
  rw [returnStatement, here_bind, expect_bind, expected_ok, current_bind] at h
  obtain ⟨word, h⟩ := h
  obtain ⟨value, c₁, hv, h⟩ := absent_bind (allowingIn_builds (build .expression)) h
  simp only [finish_ok, bind_ok] at h
  obtain ⟨_, c₂, he, -, rfl, rfl⟩ := h
  exact ((Cursor.next_laid (by simp [word])).trans (hv.skip (endStatement_laid he))).node
    (by decide)

theorem jumpStatement_stands {label : Label} (plainLabel : label.isPlain = true)
    (live : c.current.kind ≠ .endOfInput) (h : jumpStatement label context c = .ok (tree, c')) :
    c.Stands tree c' := by
  rw [jumpStatement, here_bind, advance_bind, current_bind] at h
  obtain ⟨target, c₁, ht, h⟩ : ∃ target c₁, c.next.Laid [target] c₁ ∧
      (do endStatement; finish label [target] c.current.start : Parser SyntaxTree) context c₁ =
        .ok (tree, c') := by
    split at h
    · rename_i named
      simp only [Bool.and_eq_true, decide_eq_true_eq] at named
      rw [takeLeaf_bind] at h
      exact ⟨_, _, (Cursor.next_stands (by simp [named.1])).laid.laid, h⟩
    · exact ⟨_, _, Cursor.missing_laid _, h⟩
  simp only [finish_ok, bind_ok] at h
  obtain ⟨_, c₂, he, -, rfl, rfl⟩ := h
  exact ((Cursor.next_laid live).trans (ht.skip (endStatement_laid he))).node plainLabel

theorem throwStatement_builds (build : rules.Build) : (throwStatement rules).Builds := by
  intro context c tree c' h
  rw [throwStatement, here_bind, expect_bind, expected_ok, current_bind] at h
  obtain ⟨word, h⟩ := h
  split at h
  · rw [fail_bind] at h
    exact (fail_ok.1 h).elim
  · simp only [allowingIn_apply, finish_ok, bind_ok] at h
    obtain ⟨value, c₁, hv, _, c₂, he, -, rfl, rfl⟩ := h
    exact ((Cursor.next_laid (by simp [word])).trans
      ((build .expression hv).laid.laid.skip (endStatement_laid he))).node (by decide)

theorem withStatement_builds (build : rules.Build) : (withStatement rules).Builds := by
  intro context c tree c' h
  simp only [withStatement, here_bind, expect_bind, expected_ok, finish_ok, bind_ok] at h
  obtain ⟨word, object, c₁, ho, body, c₂, hb, -, rfl, rfl⟩ := h
  exact ((Cursor.next_laid (by simp [word])).trans ((inParens_laid build ho).laid.trans
    (build .statement hb).laid.laid)).node (by decide)

theorem labeledStatement_stands (build : rules.Build) (live : c.current.kind ≠ .endOfInput)
    (h : labeledStatement rules context c = .ok (tree, c')) : c.Stands tree c' := by
  simp only [labeledStatement, here_bind, takeLeaf_bind, expect_bind, expected_ok, finish_ok,
    bind_ok] at h
  obtain ⟨colon, body, c₁, hb, -, rfl, rfl⟩ := h
  exact ((Cursor.next_stands live).laid.trans ((Cursor.skip_laid (by simp [colon])).trans
    (build .statement hb).laid.laid)).node (by decide)

theorem wordStatement_builds (build : rules.Build) : (wordStatement rules).Builds := by
  intro context c tree c' h
  rw [wordStatement, peek_bind, sees_bind] at h
  obtain ⟨answer, sees⟩ := seesLet_bind _
  rw [sees] at h
  split at h
  · rename_i word
    simp only [Bool.and_eq_true] at word
    exact variableStatement_stands build (by simp [opensVariables, word.1]) h
  split at h
  · rename_i named
    simp only [Bool.and_eq_true, decide_eq_true_eq] at named
    exact labeledStatement_stands build (by simp [named.1]) h
  · exact expressionStatement_builds build h

theorem statement_builds (build : rules.Build) : (statement rules).Builds := by
  intro context c tree c' h
  rw [statement, current_bind] at h
  generalize hk : c.current.kind = kind at h
  split at h
  · exact block_builds build h
  · exact variableStatement_stands build (by simp [opensVariables, hk]) h
  · exact variableStatement_stands build (by simp [opensVariables, hk]) h
  · exact emptyStatement_stands (by simp [hk]) h
  · exact ifStatement_builds build h
  · exact forStatement_builds build h
  · exact whileStatement_builds build h
  · exact doWhileStatement_builds build h
  · exact switchStatement_builds build h
  · exact tryStatement_builds build h
  · exact returnStatement_builds build h
  · exact jumpStatement_stands (by decide) (by simp [hk]) h
  · exact jumpStatement_stands (by decide) (by simp [hk]) h
  · exact throwStatement_builds build h
  · exact withStatement_builds build h
  · exact debuggerStatement_stands (by simp [hk]) h
  · exact function_builds build (.inr (by decide)) h
  · exact classDefinition_builds build (.inr (by decide)) h
  · exact wordStatement_builds build h

end Uncurry.Grammar
