import Uncurry.Proofs.Progress.Expressions
import Uncurry.Proofs.Syntax.Statements

/-!
# Statements track

A semicolon may be left out at the end of a statement only, so that in front of every statement and
behind it tokens stand, the same ones on both sides.
-/
namespace Uncurry.Grammar

open Uncurry.Parser

variable {n k : Nat} {rules rules' : Rules} {t : Bool} {context : ParseContext} {c : Cursor}

theorem opensVariables_plain (h : opensVariables c.current = true) :
    c.current.kind ≠ .endOfInput ∧ c.current.kind.isPlain = true ∧
      c.current.kind ≠ .kwImport := by
  simp only [opensVariables, Bool.or_eq_true] at h
  rcases h with word | name
  · exact (by decide : ∀ kind ∈ [TokenKind.kwVar, .kwConst], kind ≠ .endOfInput ∧
      kind.isPlain = true ∧ kind ≠ .kwImport) _ (List.contains_iff_mem.1 word)
  · rw [isWord_kind name]
    decide

theorem declarator_tracks (track : rules.Track n rules') :
    Tracks n [] 1 t context c Tree.Same (declarator rules) (declarator rules') := by
  refine .here fun _ _ => (track.free .bindingTarget rfl).bindLead fun _ _ _ target => ?_
  exact .optional nofun nofun rfl (fun _ => track.free .assignment rfl) fun _ _ _ initial =>
    .finish (.cons target (.single initial))

theorem declarators_tracks (track : rules.Track n rules')
    (opens : opensVariables c.current = true) :
    Tracks (n + 1) [] 2 t context c Tree.AllSame (declarators rules) (declarators rules') := by
  have kind := opensVariables_plain opens
  refine .advance kind.1 (TokenKind.nest_of_plain kind.2.1 []) fun _ word => ?_
  refine (declarator_tracks track).bindLead fun _ _ _ first => ?_
  refine .bind (.collect (.inr ?_) fun _ => ?_) fun _ _ _ later =>
    .pure (.cons word.bindingLeaf (.cons first later))
  · rfl
  · exact behindComma_tracks fun _ => declarator_tracks track

theorem variableStatement_tracks (track : rules.Track n rules')
    (opens : opensVariables c.current = true) :
    Tracks (n + 1) [] 2 false context c Tree.Same (variableStatement rules)
      (variableStatement rules') := by
  refine .here fun _ _ => .first (declarators_tracks track opens) Nat.two_pos fun _ _ _ parts => ?_
  exact .bind .endStatement fun _ _ _ _ => .finish parts

/-- A semicolon that is written behind `let` keeps it from declaring variables, but where it does
declare them there is no such semicolon. -/
theorem seesLet_tracks {γ : Type} {same : γ → γ → Prop} {unclosed : List TokenKind}
    {f g : Bool → Parser γ} (lead : 0 < k) (few : k ≤ 2)
    (yes : c.current.isWord "let" = true → Tracks n unclosed 2 t context c same (f true) (g true))
    (no : Tracks n unclosed k t context c same (f false) (g false)) :
    Tracks n unclosed k t context c same (seesLet >>= f) (seesLet >>= g) := by
  let tells (c : Cursor) : Bool :=
    c.current.isWord "let" && [.identifier, .leftBrace, .leftBracket].contains (c.peek 1).kind
  have look (c : Cursor) : seesLet context c = .ok (tells c, c) := rfl
  cases lets : tells c with
  | true =>
    have word := yes (Bool.and_eq_true_iff.1 lets).1
    refine (Tracks.look true (by rw [look, lets]) (fun leads _ aligned => ?_) word).weaken
      (Nat.le_refl n) few
    rw [look, ← lets]
    simp only [tells, (aligned.ofLead (Nat.lt_of_lt_of_le Nat.two_pos leads)).isWord,
      (aligned.peekAlike leads).kind]
  | false =>
    refine .look false (by rw [look, lets]) (fun leads _ aligned => ?_) no
    have leads' := Nat.lt_of_lt_of_le lead leads
    rcases aligned.peekShows leads' with next | ⟨written, _⟩
    · rw [look, ← lets]
      simp only [tells, (aligned.ofLead leads').isWord, next.kind]
    · simp [look, tells, written]

theorem expressionStatement_tracks (track : rules.Track n rules') :
    Tracks (n + 1) [] c.lead false context c Tree.Same (expressionStatement rules)
      (expressionStatement rules') := by
  refine .here fun _ _ => .first (.allowingIn (expression_tracks track)) c.lead_pos
    fun _ _ _ value => ?_
  exact .bind .endStatement fun _ _ _ _ => .finish (.single value)

theorem emptyStatement_tracks (kind : c.current.kind = .semicolon) :
    Tracks n [] 1 t context c Tree.Same emptyStatement emptyStatement :=
  .here fun _ _ => .mid (.advance (by simp [kind]) (by rw [kind]; rfl) fun _ _ => .finish .nil)

theorem debuggerStatement_tracks (kind : c.current.kind = .kwDebugger) :
    Tracks n [] 1 false context c Tree.Same debuggerStatement debuggerStatement :=
  .here fun _ _ => .mid (.advance (by simp [kind]) (by rw [kind]; rfl) fun _ _ =>
    .bind .endStatement fun _ _ _ _ => .finish .nil)

theorem ifStatement_tracks (track : rules.Track n rules') :
    Tracks (n + 1) [] c.lead true context c Tree.Same (ifStatement rules) (ifStatement rules') := by
  refine .here fun _ _ => .expectStart nofun nofun rfl fun _ _ _ => ?_
  refine .bind (inParens_tracks track).lower fun _ _ _ test => ?_
  refine .bind (track.one .statement) fun _ _ _ consequent => ?_
  exact .optional nofun nofun rfl (fun _ => track.one .statement) fun _ _ _ alternate =>
    .finish (.cons test (.cons consequent (.single alternate)))

theorem forEachRest_tracks (track : rules.Track n rules') {label : Label}
    {binding binding' : SyntaxTree} {start start' : Location} (same : binding.Same binding')
    (live : c.current.kind ≠ .endOfInput) (plain : c.current.kind.isPlain = true) :
    Tracks n [.rightParen] 1 true context c Tree.Same (forEachRest rules label start binding)
      (forEachRest rules' label start' binding') := by
  refine .mid (.advance live (TokenKind.nest_of_plain plain _) fun _ _ => ?_)
  refine .bind (.allowingIn (track.free _ ?_)) fun _ _ _ values => ?_
  · split <;> rfl
  refine .mid (.expect nofun rfl fun _ _ _ => ?_)
  exact .bind (track.one .statement) fun _ _ _ body =>
    .finish (.cons same (.cons values (.single body)))

theorem forRest_tracks (track : rules.Track n rules') {initial initial' : SyntaxTree}
    {start start' : Location} (same : initial.Same initial') :
    Tracks n [.rightParen] 1 true context c Tree.Same (forRest rules start initial)
      (forRest rules' start' initial') := by
  refine .mid (.expect nofun rfl fun _ _ _ => ?_)
  refine .partBefore (.allowingIn (track.free .expression rfl)) fun _ _ _ test => ?_
  refine .mid (.expect nofun rfl fun _ _ _ => ?_)
  refine .partBefore (.allowingIn (track.free .expression rfl)) fun _ _ _ update => ?_
  refine .mid (.expect nofun rfl fun _ _ _ => ?_)
  exact .bind (track.one .statement) fun _ _ _ body =>
    .finish (.cons same (.cons test (.cons update (.single body))))

/-- What the head of a loop starts with if it does not start with a semicolon. -/
theorem forInitial_tracks (track : rules.Track n rules') (other : c.current.kind ≠ .semicolon) :
    Tracks n [] 1 t context c Tree.Same (forInitial rules) (forInitial rules') := by
  have declares (opens : opensVariables c.current = true) (start start' : Location) :
      Tracks n [] 2 t context c Tree.Same
        (do let parts ← forbiddingIn (declarators rules); finish .varDecl parts start)
        (do let parts ← forbiddingIn (declarators rules'); finish .varDecl parts start') :=
    (Tracks.forbiddingIn (declarators_tracks track opens).lower).bindLead fun _ _ _ parts =>
      .finish parts
  refine .sees (.inl Nat.one_pos) (fun seen => (other seen).elim) fun _ => .here fun _ _ => ?_
  rw [seesAny, bind_assoc, bind_assoc]
  refine .current (.inl Nat.one_pos) fun token alike => ?_
  simp only [pure_bind, alike.kind]
  refine seesLet_tracks Nat.one_pos (Nat.le_succ 1) (fun lets => ?_) ?_
  · rw [Bool.or_true, if_pos rfl, if_pos rfl]
    exact declares (by simp [opensVariables, lets]) _ _
  · rw [Bool.or_false]
    split
    · rename_i word
      exact (declares (by simp only [opensVariables, word, Bool.true_or]) _ _).weaken
        (Nat.le_refl n) (Nat.le_succ 1)
    · exact .forbiddingIn (track.free .expression rfl)

theorem forStatement_tracks (track : rules.Track n rules') :
    Tracks (n + 1) [] c.lead true context c Tree.Same (forStatement rules)
      (forStatement rules') := by
  refine .here fun start start' => .expectStart nofun nofun rfl fun _ _ _ => ?_
  refine .acceptWordSame fun _ _ => .mid (.expect nofun rfl fun _ _ _ => ?_)
  refine .weaken (k := 1) ?_ (Nat.le_refl n) (Nat.zero_le 1)
  refine .sees (.inl Nat.one_pos) (fun bare => ?_) fun other => ?_
  · have none (rules : Rules) {c : Cursor} (bare : c.current.kind = .semicolon) :
        forInitial rules context c = .ok (.missing, c) := by
      rw [forInitial, sees_bind, bare, decide_eq_true rfl, if_pos rfl]
      rfl
    have rest {c : Cursor} : Tracks n [.rightParen] 1 true context c Tree.Same
        (forRest rules start .missing) (forRest rules' start' .missing) :=
      forRest_tracks track (.refl .missing)
    refine .congr (bind_eq_ok (none rules bare)) (fun lead _ aligned => ?_) rest
    exact bind_eq_ok (none rules' ((aligned.ofLead lead).kind.trans bare))
  · refine (forInitial_tracks track other).bindLead fun _ _ c₁ initial => ?_
    rw [if_neg Bool.false_ne_true, if_neg Bool.false_ne_true]
    refine .weaken (k := 1) ?_ (Nat.le_refl n) (Nat.zero_le 1)
    refine .sees (.inl Nat.one_pos) (fun kind => ?_) fun _ => ?_
    · exact forEachRest_tracks track initial (by simp [kind]) (by rw [kind]; rfl)
    refine .seesWord (.inl Nat.one_pos) (fun word => ?_) (forRest_tracks track initial)
    have kind := isWord_kind word
    exact forEachRest_tracks track initial (by simp [kind]) (by rw [kind]; rfl)

theorem whileStatement_tracks (track : rules.Track n rules') :
    Tracks (n + 1) [] c.lead true context c Tree.Same (whileStatement rules)
      (whileStatement rules') := by
  refine .here fun _ _ => .expectStart nofun nofun rfl fun _ _ _ => ?_
  refine .bind (inParens_tracks track).lower fun _ _ _ test => ?_
  exact .bind (track.one .statement) fun _ _ _ body => .finish (.cons test (.single body))

theorem doWhileStatement_tracks (track : rules.Track n rules') :
    Tracks (n + 1) [] c.lead true context c Tree.Same (doWhileStatement rules)
      (doWhileStatement rules') := by
  refine .here fun _ _ => .expectStart nofun nofun rfl fun _ _ _ => ?_
  refine .bind (track.one .statement) fun _ _ _ body => ?_
  refine .mid (.expect nofun rfl fun _ _ _ => ?_)
  refine .bind (inParens_tracks track).lower fun _ _ _ test => ?_
  have done (c : Cursor) (start start' : Location) : Tracks n [] 0 true context c Tree.Same
      (finish .doWhile _ start) (finish .doWhile _ start') :=
    .finish (.cons body (.single test))
  exact .acceptIf (.inr (.inr rfl)) nofun rfl (fun _ => done _ _ _) fun _ => done _ _ _

theorem caseTest_tracks (track : rules.Track n rules') :
    Tracks n [] 1 t context c Tree.Same (caseTest rules) (caseTest rules') := by
  refine .accept nofun nofun rfl (fun _ => ?_) fun _ => ?_
  · exact .weaken (.allowingIn (track.free .expression rfl)) (Nat.le_refl n) (Nat.zero_le 1)
  refine .current (.inl Nat.one_pos) fun token alike => ?_
  rw [alike.kind]
  split
  · rename_i kind
    exact .mid (.advance (by simp [kind]) (by rw [kind]; rfl) fun _ _ => .pure (.refl .missing))
  · exact .failHere

theorem switchCase_tracks (track : rules.Track n rules') :
    Tracks n [] 1 true context c Tree.Same (switchCase rules) (switchCase rules') := by
  refine .here fun _ _ => (caseTest_tracks track).bindLead fun _ _ _ test => ?_
  refine .mid (.expect nofun rfl fun _ _ _ => ?_)
  exact .bind (.collect (.inl rfl) fun _ _ => .single (track.one .item)) fun _ _ _ items =>
    .finish (.cons test items)

theorem switchStatement_tracks (track : rules.Track n rules') :
    Tracks (n + 1) [] c.lead true context c Tree.Same (switchStatement rules)
      (switchStatement rules') := by
  refine .here fun _ _ => .expectStart nofun nofun rfl fun _ _ _ => ?_
  refine .bind (inParens_tracks track).lower fun _ _ _ subject => ?_
  refine .mid (.expect nofun rfl fun _ _ _ => ?_)
  refine .bindTight (.collect (.inl rfl) fun _ _ => .single (switchCase_tracks track))
    fun _ _ _ cases => ?_
  exact .mid (.expect nofun rfl fun _ _ _ => .finish (.cons subject cases))

theorem catchClause_tracks (track : rules.Track n rules') :
    Tracks n [] 1 t context c Tree.Same (catchClause rules) (catchClause rules') := by
  have behind {target target' : SyntaxTree} (start start' : Location) (c : Cursor)
      (same : target.Same target') : Tracks n [] 0 t context c Tree.Same
        (do let body ← block rules; finish .catchClause [target, body] start)
        (do let body ← block rules'; finish .catchClause [target', body] start') :=
    .bind (block_tracks track).lower fun _ _ _ body => .finish (.cons same (.single body))
  refine .here fun start start' => .mid (.expect nofun rfl fun _ _ _ => ?_)
  refine .accept nofun nofun rfl (fun _ => ?_) fun _ => behind start start' _ (.refl .missing)
  refine .bind (track.free .bindingTarget rfl) fun _ _ _ target => ?_
  exact .mid (.expect nofun rfl fun _ _ _ => behind start start' _ target)

theorem tryStatement_tracks (track : rules.Track n rules') :
    Tracks (n + 1) [] c.lead true context c Tree.Same (tryStatement rules)
      (tryStatement rules') := by
  have ending (catches : Bool) {body body' handler handler' : SyntaxTree} {word word' : Token}
      (start start' : Location) (c : Cursor) (place : word ∈ c.all ∨ word = c.final)
      (same : body.Same body') (same' : handler.Same handler') :
      Tracks n [] 0 true context c Tree.Same
        (do
          let finishes ← accept .kwFinally
          let finalizer ← if finishes then block rules else pure .missing
          if catches || finishes then finish .tryStmt [body, handler, finalizer] start
          else fail .tryAlone word)
        (do
          let finishes ← accept .kwFinally
          let finalizer ← if finishes then block rules' else pure .missing
          if catches || finishes then finish .tryStmt [body', handler', finalizer] start'
          else fail .tryAlone word') := by
    refine .accept nofun nofun rfl (fun _ => ?_) fun _ => ?_
    · simp only [Bool.or_true, if_true]
      exact .bind (block_tracks track).lower fun _ _ _ finalizer =>
        .finish (.cons same (.cons same' (.single finalizer)))
    · cases catches with
      | true => exact .finish (.cons same (.cons same' (.single (.refl .missing))))
      | false => exact .fail place
  refine .here fun start start' => .expectStart nofun nofun rfl fun _ _ _ => ?_
  refine .weaken (.bindMoves (block_tracks track).lower fun body moves _ => ?_) (Nat.le_refl n)
    (Nat.zero_le _)
  have place := moves.mem_all (Cursor.mem_all_next c.current_mem)
  refine .seesOptional nofun (fun _ => ?_) fun _ => ending false start start' _ place body (.refl _)
  refine .bindMoves (catchClause_tracks track) fun handler moves' _ => ?_
  exact ending true start start' _ (moves'.mem_all place) body handler

theorem returnStatement_tracks (track : rules.Track n rules') :
    Tracks (n + 1) [] c.lead false context c Tree.Same (returnStatement rules)
      (returnStatement rules') := by
  refine .here fun _ _ => .expectStart nofun nofun rfl fun _ _ _ => ?_
  refine .operand (fun token =>
      [.semicolon, .rightBrace, .endOfInput].contains token.kind || token.newlineBefore)
    (fun alike => by simp only [alike.kind, alike.newlineBefore]) (fun kind => by simp [kind])
    (.allowingIn (track.free .expression rfl)) fun _ _ _ value => ?_
  exact .bind .endStatement fun _ _ _ _ => .finish (.single value)

theorem jumpStatement_tracks {label : Label} (live : c.current.kind ≠ .endOfInput)
    (plain : c.current.kind.isPlain = true) :
    Tracks n [] 1 false context c Tree.Same (jumpStatement label) (jumpStatement label) := by
  have behind {target target' : SyntaxTree} (start start' : Location) (c : Cursor)
      (same : target.Same target') : Tracks n [] 0 false context c Tree.Same
        (do endStatement; finish label [target] start)
        (do endStatement; finish label [target'] start') :=
    .bind .endStatement fun _ _ _ _ => .finish (.single same)
  refine .here fun start start' => .mid (.advance live (TokenKind.nest_of_plain plain []) fun _ _ => ?_)
  refine .currentIf (fun token => token.kind = .identifier && !token.newlineBefore)
    (fun alike => by simp only [alike.kind, alike.newlineBefore]) (fun kind => by simp [kind])
    (fun named token alike => ?_) fun seen token seen' => ?_
  · rw [if_pos named, if_pos (by simpa only [alike.kind, alike.newlineBefore] using named)]
    have kind := of_decide_eq_true (Bool.and_eq_true_iff.1 named).1
    exact .mid (.takeLeaf (by simp [kind]) (by rw [kind]; rfl) fun _ same => behind _ _ _ same)
  · rw [if_neg (by simpa using seen), if_neg (by simpa using seen')]
    exact behind start start' _ (.refl .missing)

theorem throwStatement_tracks (track : rules.Track n rules') :
    Tracks (n + 1) [] c.lead false context c Tree.Same (throwStatement rules)
      (throwStatement rules') := by
  refine .here fun _ _ => .expectStart nofun nofun rfl fun _ _ _ => ?_
  refine .weaken (k := 1) (.current (.inl Nat.one_pos) fun token alike => ?_) (Nat.le_refl n)
    (Nat.zero_le 1)
  rw [alike.newlineBefore]
  split
  · exact .failHere
  · exact .bindLead (.allowingIn (track.free .expression rfl)) fun _ _ _ value =>
      .bind .endStatement fun _ _ _ _ => .finish (.single value)

theorem withStatement_tracks (track : rules.Track n rules') :
    Tracks (n + 1) [] c.lead true context c Tree.Same (withStatement rules)
      (withStatement rules') := by
  refine .here fun _ _ => .expectStart nofun nofun rfl fun _ _ _ => ?_
  refine .bind (inParens_tracks track).lower fun _ _ _ object => ?_
  exact .bind (track.one .statement) fun _ _ _ body => .finish (.cons object (.single body))

theorem labeledStatement_tracks (track : rules.Track n rules')
    (name : c.current.kind = .identifier) :
    Tracks (n + 1) [] 2 true context c Tree.Same (labeledStatement rules)
      (labeledStatement rules') := by
  refine .here fun _ _ => .takeLeaf (by simp [name]) (by rw [name]; rfl) fun _ leaf => ?_
  refine .mid (.expect nofun rfl fun _ _ _ => ?_)
  exact .bind (track.one .statement) fun _ _ _ body => .finish (.cons leaf (.single body))

/-- Whether a label stands here. -/
def seesLabel (c : Cursor) : Bool := c.current.kind = .identifier && (c.peek 1).kind = .colon

theorem wordStatement_eq : wordStatement rules context c = (seesLet >>= fun declares =>
    if declares then variableStatement rules
    else if seesLabel c then labeledStatement rules
    else expressionStatement rules) context c := rfl

theorem wordStatement_label (label : seesLabel c = true) :
    wordStatement rules context c = labeledStatement rules context c := by
  have kind : (c.peek 1).kind = .colon := of_decide_eq_true (Bool.and_eq_true_iff.1 label).2
  have look : seesLet context c = .ok (false, c) := by
    change Except.ok (c.current.isWord "let" && _, c) = _
    rw [kind]
    simp
  rw [wordStatement_eq, bind_eq_ok look, if_neg Bool.false_ne_true, if_pos label]

theorem wordStatement_tracks (track : rules.Track n rules') :
    Tracks (n + 1) [] c.lead true context c Tree.Same (wordStatement rules)
      (wordStatement rules') := by
  cases label : seesLabel c with
  | true =>
    have name : c.current.kind = .identifier :=
      of_decide_eq_true (Bool.and_eq_true_iff.1 label).1
    refine .weaken (.congr (wordStatement_label label) (fun lead _ aligned => ?_)
      (labeledStatement_tracks track name)) (Nat.le_refl _) c.lead_le_two
    refine wordStatement_label ?_
    rw [← label]
    simp only [seesLabel, (aligned.ofLead (Nat.lt_of_lt_of_le Nat.two_pos lead)).kind,
      (aligned.peekAlike lead).kind]
  | false =>
    have tracks : Tracks (n + 1) [] c.lead true context c Tree.Same
        (seesLet >>= fun declares =>
          if declares then variableStatement rules else expressionStatement rules)
        (seesLet >>= fun declares =>
          if declares then variableStatement rules' else expressionStatement rules') := by
      refine seesLet_tracks c.lead_pos c.lead_le_two (fun word => ?_)
        ((expressionStatement_tracks track).tighten c.lead_pos)
      exact (variableStatement_tracks track (by simp [opensVariables, word])).tighten Nat.two_pos
    refine .congr (by rw [wordStatement_eq, label]; rfl) (fun {_ d} lead _ aligned => ?_) tracks
    have unseen : seesLabel d = false := by
      have lead' := Nat.lt_of_lt_of_le c.lead_pos lead
      rcases aligned.peekShows lead' with next | ⟨written, _⟩
      · rw [← label]
        simp only [seesLabel, (aligned.ofLead lead').kind, next.kind]
      · simp [seesLabel, written]
    rw [wordStatement_eq, unseen]
    rfl

theorem statement_tracks (track : rules.Track n rules') :
    Tracks (n + 1) [] c.lead true context c Tree.Same (statement rules) (statement rules') := by
  refine .current (.inl c.lead_pos) fun token alike => ?_
  rw [alike.kind]
  generalize hk : c.current.kind = kind
  split
  · exact block_tracks track
  · exact .tighten (.start (by simp [hk]) ((variableStatement_tracks track
      (by simp [opensVariables, hk])).weaken (Nat.le_refl _) (Nat.le_succ 1))) c.lead_pos
  · exact .tighten (.start (by simp [hk]) ((variableStatement_tracks track
      (by simp [opensVariables, hk])).weaken (Nat.le_refl _) (Nat.le_succ 1))) c.lead_pos
  · exact .start (by simp [hk]) (emptyStatement_tracks hk)
  · exact ifStatement_tracks track
  · exact forStatement_tracks track
  · exact whileStatement_tracks track
  · exact doWhileStatement_tracks track
  · exact switchStatement_tracks track
  · exact tryStatement_tracks track
  · exact (returnStatement_tracks track).tighten c.lead_pos
  · exact .start (by simp [hk])
      ((jumpStatement_tracks (by simp [hk]) (by rw [hk]; rfl)).tighten Nat.one_pos)
  · exact .start (by simp [hk])
      ((jumpStatement_tracks (by simp [hk]) (by rw [hk]; rfl)).tighten Nat.one_pos)
  · exact (throwStatement_tracks track).tighten c.lead_pos
  · exact withStatement_tracks track
  · exact .start (by simp [hk]) ((debuggerStatement_tracks hk).tighten Nat.one_pos)
  · exact function_tracks track .functionDecl true
  · exact classDefinition_tracks track .classDecl true
  · exact wordStatement_tracks track

end Uncurry.Grammar
