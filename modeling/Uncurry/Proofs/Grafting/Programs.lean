import Uncurry.Proofs.Grafting.Statements
import Uncurry.Proofs.Progress.Programs

/-!
# Programs with a graft

All rules graft, by induction on the depth to which constructs nest: what the parser makes of a
program in which a name is called, it makes of the tokens with the graft, up to the graft.
-/
namespace Uncurry

open Uncurry.Parser
open Uncurry.Graft (Grafts GraftsTree GraftsTrees)

variable {g : Graft} {rules rules' : Rules} {demand : Prop} {context : ParseContext} {c : Cursor}

namespace Grammar

theorem exportName_shuns : exportName.ShunsParen := by
  intro context c x h paren
  rw [exportName, sees_bind, paren] at h
  simp only [reduceCtorEq, decide_false, Bool.false_eq_true, if_false] at h
  rw [memberName, current_bind, isName, paren] at h
  exact (fail_ok.1 h).elim

theorem bindingIdentifier_shuns : bindingIdentifier.ShunsParen := by
  intro context c x h paren
  rw [bindingIdentifier, current_bind, paren] at h
  exact (fail_ok.1 h).elim

theorem specifier_grafts (label : Label) (other : label ≠ .call) :
    g.GraftsTree True context c (specifier label) (specifier label) := by
  refine .here (.bind exportName_grafts fun _ _ _ => .acceptWord (by decide)
    (fun _ _ _ taken _ => Graft.uncalled_of_shuns exportName_shuns taken) (fun _ => ?_)
    fun _ => .finish rfl other (by simp))
  exact .bind exportName_grafts fun _ _ _ => .finish rfl other (by simp)

theorem specifiers_grafts (label : Label) (other : label ≠ .call) :
    g.GraftsTrees True context c (specifiers label) (specifiers label) :=
  .expect nofun fun _ => .bind (.collect fun _ _ => .listed (specifier_grafts label other))
    fun _ _ _ => .expect nofun fun _ => .pure rfl fun apt => ⟨trivial, apt⟩

/-- Whether attributes start with a token behind the name of a module. -/
def startsAttributes (token : Token) : Bool :=
  token.kind = .kwWith || (token.isWord "assert" && !token.newlineBefore)

theorem skipAttributes_eq (rules : Rules) (context : ParseContext) (d : Cursor) :
    skipAttributes rules context d = if startsAttributes d.current then
      (objectLiteral rules >>= fun _ => pure ()) context d.next else .ok ((), d) := by
  rw [skipAttributes, current_bind]
  split <;> rename_i starts
  · rw [startsAttributes, if_pos starts, advance_bind]
  · rw [startsAttributes, if_neg starts]
    rfl

/-- The name does not occur in the attributes that are skipped here but as a callee. -/
def SkipsApt (g : Graft) (rules : Rules) (context : ParseContext) (c : Cursor) : Prop :=
  startsAttributes c.current = true → ∀ object c',
    objectLiteral rules context c.next = .ok (object, c') → g.Apt object

theorem skipAttributes_grafts (grafted : rules.Grafted g rules') :
    g.Grafts True context c (fun _ _ => SkipsApt g rules context c) id (skipAttributes rules)
      (skipAttributes rules') := by
  refine .given fun taken _ => ?_
  have shuns : (objectLiteral rules).ShunsParen := fun _ _ _ object paren => by
    rw [objectLiteral, here_bind, expect_bind, expected_ok, paren] at object
    cases object.1
  have uncalled (starts : startsAttributes c.current = true) : ¬g.Called c := by
    rw [skipAttributes_eq, if_pos starts] at taken
    exact Graft.uncalled_of_shuns shuns taken
  have same {d : Cursor} (beside : g.Beside c d) :
      startsAttributes d.current = startsAttributes c.current := by
    rw [startsAttributes, startsAttributes, beside.current.kind, beside.current.newlineBefore]
    cases newline : c.current.newlineBefore with
    | true => simp
    | false =>
      rw [beside.isWord (by decide) fun word =>
        uncalled (by simp [startsAttributes, word, newline])]
  cases starts : startsAttributes c.current with
  | true =>
    refine .taking (f := fun _ => objectLiteral rules >>= fun _ => pure ())
      (k := fun _ => objectLiteral rules' >>= fun _ => pure ()) (uncalled starts) ?_
      (fun beside _ => ?_) ?_
    · rw [skipAttributes_eq, if_pos starts]
    · rw [skipAttributes_eq, same beside, if_pos starts]
    · exact .bind (objectLiteral_grafts grafted) fun object c' parsed =>
        .pure rfl fun skips => ⟨trivial, skips starts object c' parsed⟩
  | false =>
    have stays : g.Grafts True context c (fun _ _ => SkipsApt g rules context c) id
        (pure () : Parser Unit) (pure ()) := .pure rfl fun _ => trivial
    refine .congr ?_ (fun beside => ?_) stays
    · rw [skipAttributes_eq, starts]
      rfl
    · rw [skipAttributes_eq, same beside, starts]
      rfl

theorem moduleSource_grafts (grafted : rules.Grafted g rules') :
    g.Grafts True context c (fun tree _ => g.Apt tree ∧ SkipsApt g rules context c.next) g.tree
      (moduleSource rules) (moduleSource rules') := by
  refine .expect nofun fun string => .bind (skipAttributes_grafts grafted) fun _ _ _ => ?_
  exact .pure (tree_leaf_of_kind (by rw [string]; nofun)).symm fun is => ⟨trivial, is.2⟩

theorem moduleSource_shuns : (moduleSource rules).ShunsParen := by
  intro context c x h paren
  rw [moduleSource, expect_bind, expected_ok, paren] at h
  cases h.1

/-- The attributes in a declaration are apart from the name, since no child keeps them. -/
theorem skipsApt_of_held (build : rules.Build) {d c₁ c₂ c₃ : Cursor} {front : List SyntaxTree}
    {source : SyntaxTree} (beside : g.Beside c d) (laid : c.Laid front c₁)
    (parsed : moduleSource rules context c₁ = .ok (source, c₂)) (ended : c₂.Laid [] c₃)
    (held : g.Within ⟨c.current.start, c₃.stop⟩ → g.leaf ∈ Tree.partsAmong (front ++ [source])) :
    SkipsApt g rules context c₁.next := by
  intro starts object c' read
  simp only [moduleSource, expect_bind, expected_ok, bind_ok, pure_ok] at parsed
  obtain ⟨string, _, _, skipped, rfl, rfl⟩ := parsed
  rw [skipAttributes_eq, if_pos starts, bind_eq_ok read] at skipped
  obtain ⟨_, rfl⟩ := pure_ok.1 skipped
  have before := laid.trans (Cursor.next_stands (c := c₁) (by simp [string])).laid.laid
  obtain ⟨_, passed, _⟩ := before beside.ends
  have final : c₁.next.final.kind = .endOfInput := by rw [passed.final, beside.ends]
  have live : c₁.next.current.kind ≠ .endOfInput := fun atEnd => by
    simp [startsAttributes, Token.isWord, atEnd] at starts
  have first := Cursor.next_passes live final
  obtain ⟨own, passes, spelled⟩ := objectLiteral_builds build read (by rw [first.final, final])
  obtain ⟨_, _, ordered⟩ := beside.ordered
  have apart := Graft.apart_of_held ordered beside.ends before (first.trans passes)
    (List.cons_ne_nil _ _) ended (by simpa using held)
  exact (apart.of_infix (List.suffix_cons _ own).isInfix).apt spelled

theorem defaultSpecifier_grafts :
    g.GraftsTree True context c defaultSpecifier defaultSpecifier :=
  .here <| .bind .takeLeaf fun _ _ _ => .finish rfl nofun (by simp)

theorem namedSpecifiers_grafts :
    g.GraftsTrees True context c namedSpecifiers namedSpecifiers := by
  refine .here (.current fun token like => ?_)
  rw [like.kind]
  generalize hk : c.current.kind = kind
  split
  · refine .advance (Graft.uncalled_of_kind (by rw [hk]; nofun)) (.expectWord
      (fun taken _ => Graft.uncalled_of_shuns bindingIdentifier_shuns taken) ?_)
    refine .bind bindingIdentifier_grafts fun _ _ _ => .finishBind rfl (.pure rfl fun all => ?_)
    exact ⟨trivial, (all _ List.mem_cons_self).children nofun _ List.mem_cons_self⟩
  · exact specifiers_grafts .importSpecifier nofun
  · exact .fails

/-- No parenthesis stands behind what an import brings in. -/
theorem importClause_grafts : g.Grafts True context c
    (fun trees c' => (∀ tree ∈ trees, g.Apt tree) ∧ c'.current.kind ≠ .leftParen) (List.map g.tree)
    importClause importClause := by
  have ending (first later : List SyntaxTree) (c : Cursor) :
      g.Grafts ((∀ tree ∈ first, g.Apt tree) ∧ ∀ tree ∈ later, g.Apt tree) context c
        (fun trees c' => (∀ tree ∈ trees, g.Apt tree) ∧ c'.current.kind ≠ .leftParen)
        (List.map g.tree) (do expectWord "from"; return first ++ later)
        (do expectWord "from"; return first.map g.tree ++ later.map g.tree) := by
    refine .expectWord (fun taken is called => ?_) (.pure List.map_append.symm fun is =>
      ⟨fun tree member => is.1 tree (List.mem_append_left _ member),
        fun tree member => is.1 tree (List.mem_append_right _ member)⟩)
    obtain ⟨_, rfl⟩ := pure_ok.1 taken
    exact is.2 called.paren
  refine .sees (fun _ => ?_) fun _ => ?_
  · refine .bind defaultSpecifier_grafts fun first _ _ => ?_
    simp only [pure_bind, List.isEmpty_cons, Bool.false_eq_true, if_false]
    refine .accept nofun (fun _ => ?_) fun _ => (ending [first] [] _).imp (by simp)
    exact .bind namedSpecifiers_grafts fun later _ _ => (ending [first] later _).imp (by simp)
  · simp only [Bool.false_eq_true, if_false, pure_bind, List.isEmpty_nil, if_true]
    exact .bind namedSpecifiers_grafts fun later _ _ => (ending [] later _).imp (by simp)

/-- A declaration that ends with the name of a module. -/
theorem attributed_grafts (grafted : rules.Grafted g rules') {c₀ d₀ : Cursor}
    (beside : g.Beside c₀ d₀) (label : Label) (other : label ≠ .call) (front : List SyntaxTree)
    (laid : c₀.Laid front c) :
    g.GraftsTree (∀ tree ∈ front, g.Apt tree) context c
      (do
        let source ← moduleSource rules
        endStatement
        finish label (front ++ [source]) c₀.current.start)
      (do
        let source ← moduleSource rules'
        endStatement
        finish label (front.map g.tree ++ [source]) c₀.current.start) := by
  refine .bind (moduleSource_grafts grafted) fun source _ parsed => .bind .endStatement
    fun _ _ ended => .finishApt (by simp) fun apt => ?_
  have parts := List.forall_mem_append.1 (apt.children other)
  have skips := skipsApt_of_held grafted.build beside laid parsed (endStatement_laid ended) apt.held
  exact ⟨⟨parts.1, parts.2 _ List.mem_cons_self, skips⟩, trivial⟩

theorem importDeclaration_grafts (grafted : rules.Grafted g rules') :
    g.GraftsTree True context c (importDeclaration rules) (importDeclaration rules') := by
  refine .beside fun beside => .here (.expect nofun fun word => ?_)
  have first : c.Laid [] c.next := Cursor.skip_laid (by simp [word])
  refine .sees (fun _ => ?_) fun _ => ?_
  · exact (attributed_grafts grafted beside .importDecl nofun [] first).imp fun _ => trivial
  · refine .bind importClause_grafts fun clause c₁ parsed => .given fun taken _ => ?_
    obtain ⟨_, _, source, _⟩ := bind_ok.1 taken
    have laid := first.trans (importClause_laid parsed)
    exact (attributed_grafts grafted beside .importDecl nofun clause laid).imp fun apt =>
      ⟨trivial, apt, moduleSource_shuns source⟩

theorem exportDefaultRest_grafts (grafted : rules.Grafted g rules') {start : Location} :
    g.GraftsTree True context c (exportDefaultRest rules start)
      (exportDefaultRest rules' start) := by
  refine .seesSame fun isFunction => seesAsyncFunction_grafts fun isAsync =>
    .seesSame fun isClass => ?_
  split
  · refine .bind (function_grafts grafted .functionDecl nofun false) fun _ _ _ => ?_
    exact .finish rfl nofun (by simp)
  split
  · refine .bind (classDefinition_grafts grafted .classDecl nofun false) fun _ _ _ => ?_
    exact .finish rfl nofun (by simp)
  · exact .bind (.allowingIn (grafted.rule .assignment _ _)) fun _ _ _ =>
      .bind .endStatement fun _ _ _ => .finish rfl nofun (by simp)

theorem exportAllRest_grafts (grafted : rules.Grafted g rules') {c₀ d₀ : Cursor}
    (beside : g.Beside c₀ d₀) (first : c₀.Laid [] c) :
    g.GraftsTree True context c (exportAllRest rules c₀.current.start)
      (exportAllRest rules' c₀.current.start) := by
  have behind (name : SyntaxTree) (c₁ : Cursor) (laid : c₀.Laid [name] c₁) :
      g.GraftsTree (g.Apt name) context c₁
        (do
          expectWord "from"
          let source ← moduleSource rules
          endStatement
          finish .exportAll [name, source] c₀.current.start)
        (do
          expectWord "from"
          let source ← moduleSource rules'
          endStatement
          finish .exportAll [g.tree name, source] c₀.current.start) := by
    refine .given fun taken _ => ?_
    have word := (expected_ok.1 ((expectWord_bind ..).symm.trans taken)).1
    refine .expectWord (fun taken _ => Graft.uncalled_of_shuns moduleSource_shuns taken) ?_
    have laid := laid.skip (Cursor.skip_laid (by simp [isWord_kind word]))
    exact (attributed_grafts grafted beside .exportAll nofun [name] laid).imp fun apt =>
      apt _ List.mem_cons_self
  refine .acceptWord (by decide)
    (fun _ _ _ taken _ => Graft.uncalled_of_shuns exportName_shuns taken) (fun word => ?_)
    fun _ => (behind .missing _ (first.trans (Cursor.missing_laid c))).imp fun _ => trivial
  refine .bind exportName_grafts fun name c₁ parsed => (behind name c₁ ?_).imp
    fun apt => ⟨trivial, apt⟩
  exact first.trans ((Cursor.skip_laid (by simp [isWord_kind word])).trans
    (exportName_laid parsed).laid)

theorem exportListRest_grafts (grafted : rules.Grafted g rules') {c₀ d₀ : Cursor}
    (beside : g.Beside c₀ d₀) (first : c₀.Laid [] c) :
    g.GraftsTree True context c (exportListRest rules c₀.current.start)
      (exportListRest rules' c₀.current.start) := by
  refine .here (.bind (specifiers_grafts .exportSpecifier nofun) fun items c₁ parsed =>
    .finishBind rfl ?_)
  let list : SyntaxTree := .node .exportSpecifiers items ⟨c.current.start, c₁.stop⟩
  have parts (apt : g.Apt list) : ∀ item ∈ items, g.Apt item := apt.children nofun
  have stands : c.Stands list c₁ := (specifiers_laid (by decide) rfl parsed).node (by decide)
  have alone : g.GraftsTree (g.Apt list) context c₁
      (do endStatement; finish .exportNamed [.missing, list, .missing] c₀.current.start)
      (do endStatement; finish .exportNamed [.missing, g.tree list, .missing] c₀.current.start) :=
    .bind .endStatement fun _ _ _ => .finish rfl nofun (by simp +contextual)
  refine .acceptWord (by decide)
    (fun _ _ _ taken _ => Graft.uncalled_of_shuns moduleSource_shuns taken) (fun word => ?_)
    fun _ => alone.imp fun apt => ⟨trivial, parts apt⟩
  have laid := first.trans ((Cursor.missing_laid c).trans
    (stands.laid.laid.skip (Cursor.skip_laid (by simp [isWord_kind word]))))
  exact (attributed_grafts grafted beside .exportNamed nofun [.missing, list] laid).imp fun apt =>
    ⟨trivial, parts (apt list (by simp))⟩

theorem exportedDeclaration_grafts (grafted : rules.Grafted g rules') :
    g.GraftsTree True context c (exportedDeclaration rules) (exportedDeclaration rules') := by
  refine .current fun token like => ?_
  simp only [like.kind]
  refine seesLet_grafts (fun uncalled => ?_) ?_
  · rw [Bool.or_true, if_pos rfl, if_pos rfl]
    exact variableStatement_grafts grafted uncalled
  rw [Bool.or_false]
  split
  · rename_i word
    exact variableStatement_grafts grafted (Graft.uncalled_of_kind fun kind => by
      simp [kind] at word)
  refine seesAsyncFunction_grafts fun isAsync => ?_
  split
  · exact function_grafts grafted .functionDecl (by decide) true
  split
  · exact classDefinition_grafts grafted .classDecl (by decide) true
  · exact .fails

theorem exportDeclaration_grafts (grafted : rules.Grafted g rules') :
    g.GraftsTree True context c (exportDeclaration rules) (exportDeclaration rules') := by
  refine .beside fun beside => .here (.expect nofun fun word => ?_)
  have first : c.Laid [] c.next := Cursor.skip_laid (by simp [word])
  refine .accept nofun (fun _ => exportDefaultRest_grafts grafted) fun _ => ?_
  refine .accept nofun (fun star => exportAllRest_grafts grafted beside
    (first.skip (Cursor.skip_laid (by simp [star])))) fun _ => ?_
  refine .sees (fun _ => exportListRest_grafts grafted beside first) fun _ => ?_
  exact .bind (exportedDeclaration_grafts grafted) fun _ _ _ =>
    .finish rfl nofun (by simp +contextual)

theorem item_grafts (grafted : rules.Grafted g rules') :
    g.GraftsTree True context c (item rules) (item rules') := by
  refine seesAsyncFunction_grafts fun isAsync => ?_
  split
  · exact function_grafts grafted .functionDecl nofun true
  let tells (c : Cursor) : Bool :=
    c.current.kind = .kwImport && (c.peek 1).kind != .leftParen && (c.peek 1).kind != .dot
  refine .look (tells c) rfl (fun {d} beside => ?_) ?_
  · have next := beside.peek_tells
      (fun next => next.kind != .leftParen && next.kind != .dot)
      (fun like => by simp only [like.kind])
      fun other => by rcases other with other | other <;> simp [other]
    have same : tells d = tells c := by
      simp only [tells, beside.current.kind, Bool.and_assoc] at next ⊢
      rw [next]
    rw [← same]
    rfl
  split
  · exact importDeclaration_grafts grafted
  refine .seesSame fun isExport => ?_
  split
  · exact exportDeclaration_grafts grafted
  · exact statement_grafts grafted

end Grammar

theorem Rule.body_grafted (grafted : rules.Grafted g rules') :
    Rules.Grafted g (body rules) (body rules') where
  build := body_build grafted.build
  rule
    | item, _, _ => Grammar.item_grafts grafted
    | statement, _, _ => Grammar.statement_grafts grafted
    | expression, _, _ => Grammar.expression_grafts grafted
    | assignment, _, _ => Grammar.assignment_grafts grafted
    | binary level, _, _ => Grammar.binary_grafts grafted level
    | unary, _, _ => Grammar.unary_grafts grafted
    | leftHand, _, _ => Grammar.leftHand_grafts grafted
    | primary, _, _ => Grammar.primary_grafts grafted
    | bindingTarget, _, _ => Grammar.bindingTarget_grafts grafted
    | bindingElement, _, _ => Grammar.bindingElement_grafts grafted

/-- The parsers for some depth graft beside those for more depth. -/
theorem Rule.parserFuel_grafted {n m : Nat} (deeper : n ≤ m) :
    Rules.Grafted g (parserFuel n) (parserFuel m) := by
  induction n generalizing m with
  | zero => exact ⟨parserFuel_build 0, fun _ _ _ => .halts⟩
  | succ n ih =>
    obtain ⟨m, rfl⟩ : ∃ less, m = less + 1 := ⟨m - 1, by omega⟩
    exact Rule.body_grafted (ih (Nat.le_of_succ_le_succ deeper))

theorem Rule.parser_grafts (rule : Rule) : g.GraftsTree True context c rule.parser rule.parser :=
  .sized (p := fun depth => parserFuel depth rule) (q := fun depth => parserFuel depth rule)
    fun _ deeper => (parserFuel_grafted deeper).rule rule context c

namespace Grammar

theorem program_grafts : g.GraftsTree True context c program program := by
  refine .bind (.collect fun _ _ => .single (Rule.parser_grafts .item)) fun items _ _ => ?_
  refine .here (.pure (Graft.tree_node).symm fun apt => ⟨trivial, apt.children nofun⟩)

end Grammar

end Uncurry
