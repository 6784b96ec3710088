import Uncurry.Proofs.Grafting.Expressions
import Uncurry.Proofs.Progress.Statements

/-!
# Statements with a graft

A called name starts none of the statements that are told by their first word, and no parenthesis
stands behind the name of a label.
-/
namespace Uncurry.Grammar

open Uncurry.Parser
open Uncurry.Graft (Grafts GraftsTree GraftsTrees)

variable {g : Graft} {rules rules' : Rules} {demand : Prop} {context : ParseContext} {c : Cursor}

theorem declarator_grafts (grafted : rules.Grafted g rules') :
    g.GraftsTree True context c (declarator rules) (declarator rules') :=
  .here <| .bind (grafted.rule .bindingTarget _ _) fun _ _ _ =>
    .optional nofun (fun _ => grafted.rule .assignment _ _) fun _ _ => .finish rfl nofun (by simp)

theorem declarators_grafts (grafted : rules.Grafted g rules') (uncalled : ¬g.Called c) :
    g.GraftsTrees True context c (declarators rules) (declarators rules') := by
  refine .advance uncalled (.bind (declarator_grafts grafted) fun _ _ _ => ?_)
  refine .bind (behindCommas_grafts fun _ => declarator_grafts grafted) fun _ _ _ => ?_
  refine .pure ?_ (by simp +contextual)
  have word : g.tree (bindingLeaf c.current) = bindingLeaf c.current :=
    Graft.tree_of_ne fun same => by cases same
  rw [List.map_cons, List.map_cons, word]

theorem variableStatement_grafts (grafted : rules.Grafted g rules') (uncalled : ¬g.Called c) :
    g.GraftsTree True context c (variableStatement rules) (variableStatement rules') :=
  .here <| .bind (declarators_grafts grafted uncalled) fun _ _ _ => .bind .endStatement fun _ _ _ =>
    .finish rfl nofun (by simp)

theorem seesLet_grafts {α : Type} {good : α → Cursor → Prop} {act : α → α} {f k : Bool → Parser α}
    (yes : ¬g.Called c → g.Grafts demand context c good act (f true) (k true))
    (no : g.Grafts demand context c good act (f false) (k false)) :
    g.Grafts demand context c good act (seesLet >>= f) (seesLet >>= k) := by
  let tells (next : Token) : Bool := [.identifier, .leftBrace, .leftBracket].contains next.kind
  have uncalled (declares : tells (c.peek 1) = true) : ¬g.Called c := fun called => by
    simp [tells, called.2] at declares
  refine .look (c.current.isWord "let" && tells (c.peek 1)) rfl (fun beside => ?_) ?_
  · rw [← beside.word_pair "let" (by decide) tells (fun like => by simp only [tells, like.kind])
      fun _ called => Bool.eq_false_iff.2 fun declares => uncalled declares called]
    rfl
  · cases c.current.isWord "let" with
    | true => cases declares : tells (c.peek 1) with
      | true => exact yes (uncalled declares)
      | false => exact no
    | false => exact no

theorem expressionStatement_grafts (grafted : rules.Grafted g rules') :
    g.GraftsTree True context c (expressionStatement rules) (expressionStatement rules') :=
  .here <| .bind (.allowingIn (expression_grafts grafted)) fun _ _ _ =>
    .bind .endStatement fun _ _ _ => .finish rfl nofun (by simp)

theorem emptyStatement_grafts (semicolon : c.current.kind = .semicolon) :
    g.GraftsTree True context c emptyStatement emptyStatement :=
  .here <| .advance (Graft.uncalled_of_kind (by rw [semicolon]; nofun)) <|
    .finish rfl nofun fun _ => trivial

theorem debuggerStatement_grafts (word : c.current.kind = .kwDebugger) :
    g.GraftsTree True context c debuggerStatement debuggerStatement :=
  .here <| .advance (Graft.uncalled_of_kind (by rw [word]; nofun)) <|
    .bind .endStatement fun _ _ _ => .finish rfl nofun fun _ => ⟨trivial, trivial⟩

theorem returnStatement_grafts (grafted : rules.Grafted g rules') :
    g.GraftsTree True context c (returnStatement rules) (returnStatement rules') := by
  have behind (value : SyntaxTree) (start : Location) (c : Cursor) :
      g.GraftsTree (g.Apt value) context c (do endStatement; finish .returnStmt [value] start)
        (do endStatement; finish .returnStmt [g.tree value] start) :=
    .bind .endStatement fun _ _ _ => .finish rfl nofun (by simp)
  refine .here (.expect nofun fun _ => .current fun token like => ?_)
  rw [like.kind, like.newlineBefore]
  split
  · exact (behind .missing _ _).imp fun _ => trivial
  · exact .bind (.allowingIn (grafted.rule .expression _ _)) fun value _ _ =>
      (behind value _ _).imp fun apt => ⟨trivial, apt⟩

theorem jumpStatement_grafts (label : Label) (other : label ≠ .call)
    (word : c.current.kind ≠ .identifier) :
    g.GraftsTree True context c (jumpStatement label) (jumpStatement label) := by
  have behind (target : SyntaxTree) (start : Location) (c : Cursor) :
      g.GraftsTree (g.Apt target) context c (do endStatement; finish label [target] start)
        (do endStatement; finish label [g.tree target] start) :=
    .bind .endStatement fun _ _ _ => .finish rfl other (by simp)
  refine .here (.advance (Graft.uncalled_of_kind word) (.current fun token like => ?_))
  rw [like.kind, like.newlineBefore]
  split
  · exact .bind .takeLeaf fun target _ _ => (behind target _ _).imp fun apt => ⟨trivial, apt⟩
  · exact (behind .missing _ _).imp fun _ => trivial

theorem throwStatement_grafts (grafted : rules.Grafted g rules') :
    g.GraftsTree True context c (throwStatement rules) (throwStatement rules') := by
  refine .here (.expect nofun fun _ => .current fun token like => ?_)
  rw [like.newlineBefore]
  split
  · exact .fails
  · exact .bind (.allowingIn (grafted.rule .expression _ _)) fun _ _ _ =>
      .bind .endStatement fun _ _ _ => .finish rfl nofun (by simp)

theorem labeledStatement_grafts (grafted : rules.Grafted g rules') :
    g.GraftsTree True context c (labeledStatement rules) (labeledStatement rules') :=
  .here <| .bind .takeLeaf fun _ _ _ => .expect nofun fun _ =>
    .bind (grafted.rule .statement _ _) fun _ _ _ => .finish rfl nofun (by simp)

theorem wordStatement_grafts (grafted : rules.Grafted g rules') :
    g.GraftsTree True context c (wordStatement rules) (wordStatement rules') := by
  have same {d : Cursor} (beside : g.Beside c d) : seesLabel d = seesLabel c := by
    have next := beside.peek_tells (·.kind = .colon) (fun like => by simp only [like.kind])
      fun other => by rcases other with other | other <;> simp [other]
    rw [seesLabel, seesLabel, beside.current.kind, next]
  cases label : seesLabel c with
  | true =>
    exact .congr (wordStatement_label label)
      (fun beside => wordStatement_label ((same beside).trans label))
      (labeledStatement_grafts grafted)
  | false =>
    have grafts : g.GraftsTree True context c
        (seesLet >>= fun declares =>
          if declares then variableStatement rules else expressionStatement rules)
        (seesLet >>= fun declares =>
          if declares then variableStatement rules' else expressionStatement rules') :=
      seesLet_grafts (variableStatement_grafts grafted) (expressionStatement_grafts grafted)
    refine .congr (by rw [wordStatement_eq, label]; rfl) (fun beside => ?_) grafts
    rw [wordStatement_eq, same beside, label]
    rfl

theorem ifStatement_grafts (grafted : rules.Grafted g rules') :
    g.GraftsTree True context c (ifStatement rules) (ifStatement rules') := by
  refine .here (.expect nofun fun _ => .bind (inParens_grafts grafted) fun _ _ _ => ?_)
  refine .bind (grafted.rule .statement _ _) fun _ _ _ => ?_
  exact .optional nofun (fun _ => grafted.rule .statement _ _) fun _ _ =>
    .finish rfl nofun (by simp +contextual)

theorem forInitial_grafts (grafted : rules.Grafted g rules') :
    g.GraftsTree True context c (forInitial rules) (forInitial rules') := by
  have declares (uncalled : ¬g.Called c) (start : Location) :
      g.GraftsTree True context c
        (do let parts ← forbiddingIn (declarators rules); finish .varDecl parts start)
        (do let parts ← forbiddingIn (declarators rules'); finish .varDecl parts start) :=
    .bind (.forbiddingIn (declarators_grafts grafted uncalled)) fun _ _ _ =>
      .finish rfl nofun (by simp)
  refine .sees (fun _ => .pure rfl fun _ => trivial) fun _ => .here ?_
  rw [seesAny, bind_assoc, bind_assoc]
  refine .current fun token like => ?_
  simp only [pure_bind, like.kind]
  refine seesLet_grafts (fun uncalled => ?_) ?_
  · rw [Bool.or_true, if_pos rfl, if_pos rfl]
    exact declares uncalled _
  · rw [Bool.or_false]
    split
    · rename_i word
      exact declares (Graft.uncalled_of_kind fun kind => by simp [kind] at word) _
    · exact .forbiddingIn (grafted.rule .expression _ _)

theorem forEachRest_grafts (grafted : rules.Grafted g rules') (label : Label) {start : Location}
    {binding : SyntaxTree} (other : label ≠ .call) (uncalled : ¬g.Called c) :
    g.GraftsTree (g.Apt binding) context c (forEachRest rules label start binding)
      (forEachRest rules' label start (g.tree binding)) := by
  refine .advance uncalled (.bind (.allowingIn (grafted.rule _ _ _)) fun _ _ _ => ?_)
  exact .expect nofun fun _ => .bind (grafted.rule .statement _ _) fun _ _ _ =>
    .finish rfl other (by simp +contextual)

/-- A part that is missing in front of the token that has to stand behind it. -/
theorem partBefore_grafts {α : Type} {good : α → Cursor → Prop} {act : α → α} {kind : TokenKind}
    {part part' : Parser SyntaxTree} {f k : SyntaxTree → Parser α}
    (present : g.GraftsTree True context c part part')
    (h : ∀ tree c, g.Grafts (demand ∧ g.Apt tree) context c good act (f tree) (k (g.tree tree))) :
    g.Grafts demand context c good act
      (sees kind >>= fun b => if b then pure .missing >>= f else part >>= f)
      (sees kind >>= fun b => if b then pure .missing >>= k else part' >>= k) :=
  .sees (fun _ => (h .missing c).imp And.left) fun _ => .bind present fun tree c' _ => h tree c'

theorem forRest_grafts (grafted : rules.Grafted g rules') {start : Location}
    {initial : SyntaxTree} :
    g.GraftsTree (g.Apt initial) context c (forRest rules start initial)
      (forRest rules' start (g.tree initial)) := by
  refine .expect nofun fun _ => ?_
  refine partBefore_grafts (.allowingIn (grafted.rule .expression _ _)) fun _ _ =>
    .expect nofun fun _ => ?_
  refine partBefore_grafts (.allowingIn (grafted.rule .expression _ _)) fun _ _ =>
    .expect nofun fun _ => ?_
  exact .bind (grafted.rule .statement _ _) fun _ _ _ => .finish rfl nofun (by simp +contextual)

theorem forStatement_grafts (grafted : rules.Grafted g rules') :
    g.GraftsTree True context c (forStatement rules) (forStatement rules') := by
  refine .here (.expect nofun fun _ => .acceptWordSame (by decide)
    (fun word _ _ _ _ => Graft.uncalled_of_operator word (by decide)) fun _ _ => ?_)
  refine .expect nofun fun _ => .seesSame fun bare => ?_
  refine .bind (forInitial_grafts grafted) fun initial c' _ => ?_
  have met (apt : g.Apt initial) : True ∧ g.Apt initial := ⟨trivial, apt⟩
  split
  · exact (forRest_grafts grafted).imp met
  have uncalled {c : Cursor} (word : c.current.isWord "of" = true) : ¬g.Called c :=
    Graft.uncalled_of_operator word (by decide)
  refine .sees (fun kind => ?_) fun _ => .seesWord (by decide) uncalled (fun word => ?_) fun _ => ?_
  · have uncalled := Graft.uncalled_of_kind (g := g) (by rw [kind]; nofun)
    exact (forEachRest_grafts grafted .forIn nofun uncalled).imp met
  · exact (forEachRest_grafts grafted .forOf nofun (uncalled word)).imp met
  · exact (forRest_grafts grafted).imp met

theorem whileStatement_grafts (grafted : rules.Grafted g rules') :
    g.GraftsTree True context c (whileStatement rules) (whileStatement rules') :=
  .here <| .expect nofun fun _ => .bind (inParens_grafts grafted) fun _ _ _ =>
    .bind (grafted.rule .statement _ _) fun _ _ _ => .finish rfl nofun (by simp)

theorem doWhileStatement_grafts (grafted : rules.Grafted g rules') :
    g.GraftsTree True context c (doWhileStatement rules) (doWhileStatement rules') := by
  refine .here (.expect nofun fun _ => .bind (grafted.rule .statement _ _) fun _ _ _ => ?_)
  refine .expect nofun fun _ => .bind (inParens_grafts grafted) fun _ _ _ => ?_
  exact .acceptSame nofun fun _ _ => .finish rfl nofun (by simp +contextual)

theorem withStatement_grafts (grafted : rules.Grafted g rules') :
    g.GraftsTree True context c (withStatement rules) (withStatement rules') :=
  .here <| .expect nofun fun _ => .bind (inParens_grafts grafted) fun _ _ _ =>
    .bind (grafted.rule .statement _ _) fun _ _ _ => .finish rfl nofun (by simp)

theorem caseTest_grafts (grafted : rules.Grafted g rules') :
    g.GraftsTree True context c (caseTest rules) (caseTest rules') := by
  refine .accept nofun (fun _ => .allowingIn (grafted.rule .expression _ _)) fun _ =>
    .current fun token like => ?_
  rw [like.kind]
  split
  · rename_i kind
    exact .advance (Graft.uncalled_of_kind (by rw [kind]; nofun)) (.pure rfl fun _ => trivial)
  · exact .fails

theorem switchCase_grafts (grafted : rules.Grafted g rules') :
    g.GraftsTree True context c (switchCase rules) (switchCase rules') := by
  refine .here (.bind (caseTest_grafts grafted) fun _ _ _ => .expect nofun fun _ => ?_)
  exact .bind (.collect fun _ _ => .single (grafted.rule .item _ _)) fun _ _ _ =>
    .finish rfl nofun (by simp)

theorem switchStatement_grafts (grafted : rules.Grafted g rules') :
    g.GraftsTree True context c (switchStatement rules) (switchStatement rules') := by
  refine .here (.expect nofun fun _ => .bind (inParens_grafts grafted) fun _ _ _ => ?_)
  refine .expect nofun fun _ => .bind (.collect fun _ _ => .single (switchCase_grafts grafted))
    fun _ _ _ => ?_
  exact .expect nofun fun _ => .finish rfl nofun (by simp)

theorem catchClause_grafts (grafted : rules.Grafted g rules') :
    g.GraftsTree True context c (catchClause rules) (catchClause rules') := by
  have behind (target : SyntaxTree) (start : Location) (c : Cursor) :
      g.GraftsTree (g.Apt target) context c
        (do let body ← block rules; finish .catchClause [target, body] start)
        (do let body ← block rules'; finish .catchClause [g.tree target, body] start) :=
    .bind (block_grafts grafted) fun _ _ _ => .finish rfl nofun (by simp)
  refine .here (.expect nofun fun _ => .accept nofun (fun _ => ?_) fun _ => ?_)
  · refine .bind (grafted.rule .bindingTarget _ _) fun target _ _ => .expect nofun fun _ => ?_
    exact (behind target _ _).imp fun apt => ⟨trivial, apt⟩
  · exact (behind .missing _ _).imp fun _ => trivial

theorem tryStatement_grafts (grafted : rules.Grafted g rules') :
    g.GraftsTree True context c (tryStatement rules) (tryStatement rules') := by
  have ending (catches : Bool) (body handler : SyntaxTree) (word word' : Token)
      (start : Location) (c : Cursor) : g.GraftsTree (g.Apt body ∧ g.Apt handler) context c
        (do
          let finishes ← accept .kwFinally
          let finalizer ← if finishes then block rules else pure .missing
          if catches || finishes then finish .tryStmt [body, handler, finalizer] start
          else fail .tryAlone word)
        (do
          let finishes ← accept .kwFinally
          let finalizer ← if finishes then block rules' else pure .missing
          if catches || finishes then finish .tryStmt [g.tree body, g.tree handler, finalizer] start
          else fail .tryAlone word') := by
    refine .accept nofun (fun _ => ?_) fun _ => ?_
    · simp only [Bool.or_true, if_true]
      exact .bind (block_grafts grafted) fun _ _ _ => .finish rfl nofun (by simp +contextual)
    · cases catches with
      | true => exact .finish rfl nofun (by simp +contextual)
      | false => exact .fails
  refine .here (.expect nofun fun _ => .bind (block_grafts grafted) fun body _ _ => ?_)
  refine .sees (fun _ => ?_) fun _ => ?_
  · exact .bind (catchClause_grafts grafted) fun handler _ _ =>
      (ending true body handler _ _ _ _).imp fun apt => ⟨⟨trivial, apt.1⟩, apt.2⟩
  · exact (ending false body .missing _ _ _ _).imp fun apt => ⟨trivial, apt.1⟩

theorem statement_grafts (grafted : rules.Grafted g rules') :
    g.GraftsTree True context c (statement rules) (statement rules') := by
  refine .current fun token like => ?_
  rw [like.kind]
  generalize hk : c.current.kind = kind
  split
  · exact block_grafts grafted
  · exact variableStatement_grafts grafted (Graft.uncalled_of_kind (by rw [hk]; nofun))
  · exact variableStatement_grafts grafted (Graft.uncalled_of_kind (by rw [hk]; nofun))
  · exact emptyStatement_grafts hk
  · exact ifStatement_grafts grafted
  · exact forStatement_grafts grafted
  · exact whileStatement_grafts grafted
  · exact doWhileStatement_grafts grafted
  · exact switchStatement_grafts grafted
  · exact tryStatement_grafts grafted
  · exact returnStatement_grafts grafted
  · exact jumpStatement_grafts .breakStmt (by decide) (by rw [hk]; decide)
  · exact jumpStatement_grafts .continueStmt (by decide) (by rw [hk]; decide)
  · exact throwStatement_grafts grafted
  · exact withStatement_grafts grafted
  · exact debuggerStatement_grafts hk
  · exact function_grafts grafted .functionDecl (by decide) true
  · exact classDefinition_grafts grafted .classDecl (by decide) true
  · exact wordStatement_grafts grafted

end Uncurry.Grammar
