import Uncurry.Grammar.Program
import Uncurry.Proofs.Progress.Statements
import Uncurry.Proofs.Syntax.Programs

/-!
# Programs track

All rules track, by induction on the depth to which constructs nest. The parser of a rule is given
more depth than there are tokens, so that it never stops for lack of depth.
-/
namespace Uncurry

open Uncurry.Parser

variable {n m k : Nat} {rules rules' : Rules} {t : Bool} {context : ParseContext} {c : Cursor}

namespace Grammar

theorem specifier_tracks (label : Label) :
    Tracks n [] 1 t context c Tree.Same (specifier label) (specifier label) := by
  have behind {name name' outer outer' : SyntaxTree} (start start' : Location) (c : Cursor)
      (same : name.Same name') (same' : outer.Same outer') : Tracks n [] 0 t context c Tree.Same
        (finish label [name, outer] start) (finish label [name', outer'] start') :=
    .finish (.cons same (.single same'))
  refine .here fun start start' => exportName_tracks.bindLead fun _ _ _ name => ?_
  refine .acceptWord rfl (fun _ => ?_) fun _ => behind start start' _ name name
  exact .bind exportName_tracks fun _ _ _ outer => behind start start' _ name outer

theorem specifiers_tracks (label : Label) :
    Tracks n [] 1 t context c Tree.AllSame (specifiers label) (specifiers label) := by
  refine .mid (.expect nofun rfl fun _ _ _ => ?_)
  refine .bindTight (.collect (.inl rfl) fun _ _ => .listed (specifier_tracks label))
    fun _ _ _ items => ?_
  exact .mid (.expect nofun rfl fun _ _ _ => .pure items)

theorem skipAttributes_tracks (track : rules.Track n rules') :
    Tracks n [] 0 t context c (fun _ _ => True) (skipAttributes rules) (skipAttributes rules') := by
  refine .currentIf
    (fun token => token.kind = .kwWith || (token.isWord "assert" && !token.newlineBefore))
    (fun alike => by simp only [alike.kind, alike.isWord, alike.newlineBefore])
    (fun kind => by simp [Token.isWord, kind]) (fun seen token alike => ?_) fun seen token seen' => ?_
  · rw [if_pos seen, if_pos (by simpa only [alike.kind, alike.isWord, alike.newlineBefore] using seen)]
    have kind : c.current.kind ≠ .endOfInput ∧ c.current.kind.isPlain = true := by
      simp only [Bool.or_eq_true, Bool.and_eq_true, decide_eq_true_eq] at seen
      rcases seen with kind | word
      · rw [kind]
        decide
      · rw [isWord_kind word.1]
        decide
    exact .mid (.advance kind.1 (TokenKind.nest_of_plain kind.2 []) fun _ _ =>
      .bind (objectLiteral_tracks track).lower fun _ _ _ _ => .pure trivial)
  · rw [if_neg (by simpa using seen), if_neg (by simpa using seen')]
    exact .pure trivial

theorem moduleSource_tracks (track : rules.Track n rules') :
    Tracks n [] 1 t context c Tree.Same (moduleSource rules) (moduleSource rules') :=
  .mid (.expect nofun rfl fun _ _ source => .bind (skipAttributes_tracks track) fun _ _ _ _ =>
    .pure source.leaf)

theorem defaultSpecifier_tracks (name : c.current.kind = .identifier) :
    Tracks n [] 1 t context c Tree.Same defaultSpecifier defaultSpecifier :=
  .here fun _ _ => .mid (.takeLeaf (by simp [name]) (by rw [name]; rfl) fun _ same =>
    .finish (.single same))

theorem namedSpecifiers_tracks :
    Tracks n [] 1 t context c Tree.AllSame namedSpecifiers namedSpecifiers := by
  refine .here fun _ _ => .current (.inl Nat.one_pos) fun token alike => ?_
  rw [alike.kind]
  generalize hk : c.current.kind = kind
  split
  · refine .mid (.advance (by simp [hk]) (by rw [hk]; rfl) fun _ _ => ?_)
    refine .mid (.expectWord rfl ?_)
    exact .bind bindingIdentifier_tracks fun _ _ _ name => .bind (.finish (.single name))
      fun _ _ _ whole => .pure (.single whole)
  · exact specifiers_tracks .importSpecifier
  · exact .failHere

theorem importClause_tracks :
    Tracks n [] 1 t context c Tree.AllSame importClause importClause := by
  have ending {first first' later later' : List SyntaxTree} (c : Cursor)
      (same : Tree.AllSame first first') (same' : Tree.AllSame later later') :
      Tracks n [] 0 t context c Tree.AllSame (do expectWord "from"; return first ++ later)
        (do expectWord "from"; return first' ++ later') :=
    .mid (.expectWord rfl (.pure (same.append same')))
  refine .sees (.inl Nat.one_pos) (fun name => ?_) fun _ => ?_
  · refine (defaultSpecifier_tracks name).bindLead fun _ _ _ first => ?_
    simp only [pure_bind, List.isEmpty_cons, Bool.false_eq_true, if_false]
    refine .accept nofun nofun rfl (fun _ => ?_) fun _ => ending _ (.single first) .nil
    exact .bind namedSpecifiers_tracks fun _ _ _ later => ending _ (.single first) later
  · exact namedSpecifiers_tracks.bindLead fun _ _ _ later => ending _ .nil later

theorem importDeclaration_tracks (track : rules.Track n rules') :
    Tracks (n + 1) [] c.lead false context c Tree.Same (importDeclaration rules)
      (importDeclaration rules') := by
  have behind {clause clause' : List SyntaxTree} (start start' : Location) (c : Cursor)
      (same : Tree.AllSame clause clause') : Tracks n [] 1 false context c Tree.Same
        (do
          let source ← moduleSource rules
          endStatement
          finish .importDecl (clause ++ [source]) start)
        (do
          let source ← moduleSource rules'
          endStatement
          finish .importDecl (clause' ++ [source]) start') :=
    (moduleSource_tracks track).bindLead fun _ _ _ source => .bind .endStatement fun _ _ _ _ =>
      .finish (same.append (.single source))
  refine .weaken (k := 2) (.here fun start start' => .expect nofun rfl fun _ _ _ => ?_)
    (Nat.le_refl _) c.lead_le_two
  refine .sees (.inl Nat.one_pos) (fun _ => behind start start' _ .nil) fun _ => ?_
  exact importClause_tracks.bindLead fun _ _ _ clause =>
    (behind start start' _ clause).weaken (Nat.le_refl n) (Nat.zero_le 1)

theorem exportDefaultRest_tracks (track : rules.Track n rules') (start start' : Location) :
    Tracks n [] 0 false context c Tree.Same (exportDefaultRest rules start)
      (exportDefaultRest rules' start') := by
  have behind {declared declared' : SyntaxTree} (c : Cursor) (same : declared.Same declared') :
      Tracks n [] 0 false context c Tree.Same (finish .exportDefault [declared] start)
        (finish .exportDefault [declared'] start') := .finish (.single same)
  refine .weaken (k := 1) ?_ (Nat.le_refl n) (Nat.zero_le 1)
  refine .seesSame (.inl Nat.one_pos) fun isFunction => ?_
  refine seesAsyncFunction_tracks Nat.one_pos fun isAsync => ?_
  split
  · exact ((function_tracks track _ _).lower.weaken (Nat.le_refl n) c.lead_pos).bindLead
      fun _ _ _ => behind _
  refine .seesSame (.inl Nat.one_pos) fun isClass => ?_
  split
  · exact ((classDefinition_tracks track _ _).lower.weaken (Nat.le_refl n) c.lead_pos).bindLead
      fun _ _ _ => behind _
  · exact .bindLead (.allowingIn (track.free .assignment rfl)) fun _ _ _ value =>
      .bind .endStatement fun _ _ _ _ => behind _ value

theorem exportAllRest_tracks (track : rules.Track n rules') (start start' : Location) :
    Tracks n [] 0 false context c Tree.Same (exportAllRest rules start)
      (exportAllRest rules' start') := by
  have behind {name name' : SyntaxTree} (c : Cursor) (same : name.Same name') :
      Tracks n [] 0 false context c Tree.Same
        (do
          expectWord "from"
          let source ← moduleSource rules
          endStatement
          finish .exportAll [name, source] start)
        (do
          expectWord "from"
          let source ← moduleSource rules'
          endStatement
          finish .exportAll [name', source] start') :=
    .mid (.expectWord rfl (.bind (moduleSource_tracks track) fun _ _ _ source =>
      .bind .endStatement fun _ _ _ _ => .finish (.cons same (.single source))))
  refine .acceptWord rfl (fun _ => ?_) fun _ => behind _ (.refl .missing)
  exact .bind exportName_tracks fun _ _ _ => behind _

theorem exportListRest_tracks (track : rules.Track n rules') (start start' : Location) :
    Tracks n [] 1 false context c Tree.Same (exportListRest rules start)
      (exportListRest rules' start') := by
  have behind {list list' source source' : SyntaxTree} (c : Cursor) (same : list.Same list')
      (same' : source.Same source') : Tracks n [] 0 false context c Tree.Same
        (do endStatement; finish .exportNamed [.missing, list, source] start)
        (do endStatement; finish .exportNamed [.missing, list', source'] start') :=
    .bind .endStatement fun _ _ _ _ => .finish (.cons (.refl .missing) (.cons same (.single same')))
  refine .here fun _ _ => (specifiers_tracks _).bindLead fun _ _ _ items => ?_
  refine .bind (.finish items) fun _ _ _ list => ?_
  refine .acceptWord rfl (fun _ => ?_) fun _ => behind _ list (.refl .missing)
  exact .bind (moduleSource_tracks track) fun _ _ _ source => behind _ list source

theorem exportedDeclaration_tracks (track : rules.Track n rules') :
    Tracks n [] 1 false context c Tree.Same (exportedDeclaration rules)
      (exportedDeclaration rules') := by
  refine .current (.inl Nat.one_pos) fun token alike => ?_
  simp only [alike.kind]
  refine seesLet_tracks Nat.one_pos (Nat.le_succ 1) (fun lets => ?_) ?_
  · rw [Bool.or_true, if_pos rfl, if_pos rfl]
    exact (variableStatement_tracks track (by simp [opensVariables, lets])).lower
  rw [Bool.or_false]
  split
  · rename_i word
    exact (variableStatement_tracks track (by simp only [opensVariables, word, Bool.true_or])).weaken
      (Nat.le_succ n) (Nat.le_succ 1)
  refine seesAsyncFunction_tracks Nat.one_pos fun isAsync => ?_
  split
  · exact (function_tracks track _ _).weaken (Nat.le_succ n) c.lead_pos
  split
  · exact (classDefinition_tracks track _ _).weaken (Nat.le_succ n) c.lead_pos
  · exact .failHere

theorem exportDeclaration_tracks (track : rules.Track n rules') :
    Tracks (n + 1) [] c.lead false context c Tree.Same (exportDeclaration rules)
      (exportDeclaration rules') := by
  refine .here fun start start' => .expectStart nofun nofun rfl fun _ _ _ => ?_
  refine .accept nofun nofun rfl (fun _ => exportDefaultRest_tracks track start start') fun _ => ?_
  refine .accept nofun nofun rfl (fun _ => exportAllRest_tracks track start start') fun _ => ?_
  refine .seesOptional nofun (fun _ => exportListRest_tracks track start start') fun _ => ?_
  exact .bind (exportedDeclaration_tracks track) fun _ _ _ declaration =>
    .finish (.cons declaration (.cons (.refl .missing) (.single (.refl .missing))))

/-- The token behind an `import` is looked at only where it is taken as well. -/
theorem seesImportDeclaration_tracks {γ : Type} {same : γ → γ → Prop} {unclosed : List TokenKind}
    {f g : Bool → Parser γ}
    (h : ∀ b, Tracks n unclosed c.lead t context c same (f b) (g b)) :
    Tracks n unclosed c.lead t context c same (seesImportDeclaration >>= f)
      (seesImportDeclaration >>= g) := by
  let tells (c : Cursor) : Bool :=
    c.current.kind = .kwImport && (c.peek 1).kind != .leftParen && (c.peek 1).kind != .dot
  refine .look (tells c) rfl (fun {_ d} lead _ aligned => ?_) (h _)
  have same : tells d = tells c := by
    have first := aligned.ofLead (Nat.lt_of_lt_of_le c.lead_pos lead)
    by_cases word : c.current.kind = .kwImport
    · have two : c.lead = 2 := if_pos word
      simp only [tells, first.kind, (aligned.peekAlike (two ▸ lead)).kind]
    · simp [tells, first.kind, word]
  rw [← same]
  rfl

theorem item_tracks (track : rules.Track n rules') :
    Tracks (n + 1) [] c.lead true context c Tree.Same (item rules) (item rules') := by
  refine seesAsyncFunction_tracks c.lead_pos fun isAsync => ?_
  split
  · exact function_tracks track .functionDecl true
  refine seesImportDeclaration_tracks fun isImport => ?_
  split
  · exact (importDeclaration_tracks track).tighten c.lead_pos
  refine .seesSame (.inl c.lead_pos) fun isExport => ?_
  split
  · exact (exportDeclaration_tracks track).tighten c.lead_pos
  · exact statement_tracks track

end Grammar

theorem Rule.body_track (track : rules.Track n rules') :
    Rules.Track (n + 1) (body rules) (body rules')
  | item, _, _ => Grammar.item_tracks track
  | statement, _, _ => Grammar.statement_tracks track
  | expression, _, _ => Grammar.expression_tracks track
  | assignment, _, _ => Grammar.assignment_tracks track
  | binary level, _, _ => Grammar.binary_tracks track level
  | unary, _, _ => Grammar.unary_tracks track
  | leftHand, _, _ => Grammar.leftHand_tracks track
  | primary, _, _ => Grammar.primary_tracks track
  | bindingTarget, _, _ => Grammar.bindingTarget_tracks track
  | bindingElement, _, _ => Grammar.bindingElement_tracks track

/-- The parsers for some depth track beside those for more depth. -/
theorem Rule.parserFuel_track (deeper : n ≤ m) :
    Rules.Track n (parserFuel n) (parserFuel m) := by
  induction n generalizing m with
  | zero => exact fun _ _ _ => ⟨fun _ _ _ taken => (halt_ok.1 taken).elim, fun _ _ stopped => by
      obtain rfl := Except.error.inj stopped
      exact Nat.zero_le _⟩
  | succ n ih =>
    obtain ⟨m, rfl⟩ : ∃ less, m = less + 1 := ⟨m - 1, by omega⟩
    exact Rule.body_track (ih (Nat.le_of_succ_le_succ deeper))

/-- Depth does not matter where there is more than there are tokens. -/
theorem Parser.Tracks.unbounded {α β : Type} {unclosed : List TokenKind} {same : α → β → Prop}
    {p : Parser α} {q : Parser β}
    (h : Tracks (c.rest.length + 1) unclosed k t context c same p q) :
    Tracks n unclosed k t context c same p q where
  ok := h.ok
  error final halt stopped := by
    have allowed := h.error final stopped
    obtain ⟨cause, cursor⟩ := halt
    cases cause with
    | error => exact allowed
    | nothingTaken => exact allowed
    | exhausted => exact (Nat.not_succ_le_self _ allowed).elim

theorem Rule.parser_tracks (rule : Rule) :
    Tracks n [] 1 rule.isTight context c Tree.Same rule.parser rule.parser :=
  .sized (p := fun depth => parserFuel depth rule) (q := fun depth => parserFuel depth rule)
    fun _ deeper => ((parserFuel_track deeper).one rule).unbounded

namespace Grammar

/-- A program takes a token, unless there is none. -/
theorem program_tracks :
    Tracks n [] (if c.current.kind = .endOfInput then 0 else 1) true context c Tree.Same program
      program := by
  have items : Tracks n [] _ true context c Tree.AllSame
      (collect (fun kind => decide (kind = .endOfInput)) _) _ :=
    .collectLead (.inl rfl) fun _ _ => .single (Rule.parser_tracks .item)
  simp only [decide_eq_true_eq] at items
  exact items.bindLead fun _ _ _ same => .here fun _ _ => .pure (same.node _ _ _)

end Grammar

end Uncurry
