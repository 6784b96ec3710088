import Uncurry.Proofs.Progress.Bindings
import Uncurry.Proofs.Syntax.Expressions

/-!
# Expressions track

Where an expression looks at more than one token, a semicolon between these tokens would tell
that it does not go on, but it goes on only where no semicolon is left out.
-/
namespace Uncurry.Grammar

open Uncurry.Parser

variable {n k : Nat} {rules rules' : Rules} {t : Bool} {context : ParseContext} {c : Cursor}

section

variable {γ : Type} {same : γ → γ → Prop} {unclosed : List TokenKind}

theorem seesAsyncFunction_tracks {f g : Bool → Parser γ} (lead : 0 < k)
    (h : ∀ b, Tracks n unclosed k t context c same (f b) (g b)) :
    Tracks n unclosed k t context c same (seesAsyncFunction >>= f) (seesAsyncFunction >>= g) := by
  let tells (token next : Token) : Bool :=
    token.isWord "async" && next.kind = .kwFunction && !next.newlineBefore
  refine .look (tells c.current (c.peek 1)) rfl (fun {_ d} leads _ aligned => ?_) (h _)
  have same := aligned.pair_eq (Nat.lt_of_lt_of_le lead leads) tells
    (fun first next => by simp only [tells, first.isWord, next.kind, next.newlineBefore])
    (fun _ _ newline => by simp [tells, newline])
    (fun _ _ kind => by rcases kind with kind | kind | kind <;> simp [tells, kind])
  rw [← same]
  rfl

theorem seesAwait_tracks {f g : Bool → Parser γ} (lead : 0 < k)
    (yes : c.current.isWord "await" = true →
      Tracks n unclosed k t context c same (f true) (g true))
    (no : Tracks n unclosed k t context c same (f false) (g false)) :
    Tracks n unclosed k t context c same (seesAwait >>= f) (seesAwait >>= g) := by
  let tells (_ next : Token) : Bool :=
    !context.insideFunction && awaitOperandStarts.contains next.kind && !next.newlineBefore
  refine .look (c.current.isWord "await" &&
    (context.insideAsync || tells c.current (c.peek 1))) rfl (fun {_ d} leads _ aligned => ?_) ?_
  · have leads' := Nat.lt_of_lt_of_le lead leads
    have same := aligned.pair_eq leads' tells
      (fun _ next => by simp only [tells, next.kind, next.newlineBefore])
      (fun _ _ newline => by simp [tells, newline])
      (fun _ _ kind => by
        rcases kind with kind | kind | kind <;> simp [tells, kind, awaitOperandStarts])
    rw [← same, ← (aligned.ofLead leads').isWord]
    rfl
  · cases await : c.current.isWord "await" with
    | true => cases (context.insideAsync || tells c.current (c.peek 1)) with
      | true => exact yes await
      | false => exact no
    | false => exact no

end

theorem inParens_tracks (track : rules.Track n rules') :
    Tracks (n + 1) [] c.lead t context c Tree.Same (inParens rules) (inParens rules') := by
  refine .expectStart nofun nofun rfl fun _ _ _ => ?_
  refine .bind (.allowingIn (track.free .expression rfl)) fun _ _ _ same => ?_
  exact .mid (.expect nofun rfl fun _ _ _ => .pure same)

theorem paren_tracks (track : rules.Track n rules') :
    Tracks (n + 1) [] c.lead t context c Tree.Same (paren rules) (paren rules') :=
  .here fun _ _ => .first (inParens_tracks track) c.lead_pos fun _ _ _ same =>
    .finish (.single same)

theorem spreadOrValue_tracks (track : rules.Track n rules') :
    Tracks n [] 1 t context c Tree.Same (spreadOrValue rules) (spreadOrValue rules') := by
  refine .here fun _ _ => .accept nofun nofun rfl (fun _ => ?_) fun _ =>
    track.free .assignment rfl
  exact .bind (track.free .assignment rfl) fun _ _ _ same => .finish (.single same)

theorem arguments_tracks (track : rules.Track n rules') :
    Tracks (n + 1) [] c.lead t context c Tree.Same (arguments rules) (arguments rules') := by
  refine .here fun _ _ => .expectStart nofun nofun rfl fun _ _ _ => ?_
  refine .bindTight (.allowingIn (.collect (.inl rfl) fun _ _ =>
    .listed (spreadOrValue_tracks track))) fun _ _ _ same => ?_
  exact .mid (.expect nofun rfl fun _ _ _ => .finish same)

theorem arrayLiteral_tracks (track : rules.Track n rules') :
    Tracks (n + 1) [] c.lead t context c Tree.Same (arrayLiteral rules) (arrayLiteral rules') := by
  refine .here fun _ _ => .expectStart nofun nofun rfl fun _ _ _ => ?_
  refine .bindTight (.allowingIn (.collect (.inl rfl) fun _ _ =>
    arrayElement_tracks fun _ => spreadOrValue_tracks track)) fun _ _ _ same => ?_
  exact .mid (.expect nofun rfl fun _ _ _ => .finish same)

theorem propertyRest_tracks (track : rules.Track n rules') {mayStandAlone : Bool}
    {key key' : SyntaxTree} {start start' : Location} (same : key.Same key') :
    Tracks n [] 0 t context c Tree.Same (propertyRest rules mayStandAlone key start)
      (propertyRest rules' mayStandAlone key' start') := by
  refine .accept nofun nofun rfl (fun _ => ?_) fun _ => ?_
  · exact .bind (track.free .assignment rfl) fun _ _ _ same' =>
      .finish (.cons same (.single same'))
  rw [if_neg Bool.false_ne_true, if_neg Bool.false_ne_true]
  cases mayStandAlone with
  | true =>
    rw [if_pos rfl, if_pos rfl]
    exact .optional nofun nofun rfl (fun _ => track.free .assignment rfl)
      fun _ _ _ same' => .finish (.cons same (.single same'))
  | false => exact .currentAny fun _ _ => .failHere

theorem objectMember_tracks (track : rules.Track n rules') :
    Tracks n [] 1 t context c Tree.Same (objectMember rules) (objectMember rules') := by
  refine .here fun _ _ => .accept nofun nofun rfl (fun _ => ?_) fun _ => ?_
  · exact .bind (track.free .assignment rfl) fun _ _ _ same => .finish (.single same)
  refine methodModifiers_tracks fun modifiers _ => ?_
  refine .seesSame (.inl Nat.one_pos) fun mayStandAlone => ?_
  refine .bindLead (propertyKey_tracks track) fun _ _ _ same => ?_
  refine .seesOptional nofun (fun _ => ?_) fun _ => ?_
  · exact (functionRest_tracks track _ _).bindLead fun _ _ _ same' =>
      .finish (.cons same (.cons same'.1 (.single same'.2)))
  · rw [if_neg Bool.false_ne_true, if_neg Bool.false_ne_true]
    split
    · exact .currentAny fun _ _ => .failHere
    · exact propertyRest_tracks track same

theorem objectLiteral_tracks (track : rules.Track n rules') :
    Tracks (n + 1) [] c.lead t context c Tree.Same (objectLiteral rules)
      (objectLiteral rules') := by
  refine .here fun _ _ => .expectStart nofun nofun rfl fun _ _ _ => ?_
  refine .bindTight (.allowingIn (.collect (.inl rfl) fun _ _ =>
    .listed (objectMember_tracks track))) fun _ _ _ same => ?_
  exact .mid (.expect nofun rfl fun _ _ _ => .finish same)

theorem template_tracks (track : rules.Track n rules') :
    Tracks (n + 1) [] c.lead t context c Tree.Same (template rules) (template rules') := by
  refine .here fun _ _ => .sees (.inl c.lead_pos) (fun kind => ?_) fun _ => ?_
  · exact .start (by simp [kind]) (.takeLeaf (by simp [kind]) (by rw [kind]; rfl)
      fun _ same => .finish (.single same))
  refine .expectStart nofun nofun rfl fun _ _ head => ?_
  refine .bind (.allowingIn (track.free .expression rfl)) fun _ _ _ first => ?_
  refine .bind (.collect (.inr rfl) fun c chunk => ?_) fun _ _ _ middle => ?_
  · have kind : c.current.kind = .templateMiddle := by simpa using chunk
    refine .mid (.takeLeaf (by simp [kind]) (by rw [kind]; rfl) fun _ same => ?_)
    exact .bind (.allowingIn (track.free .expression rfl)) fun _ _ _ same' =>
      .pure (.cons same (.single same'))
  · exact .mid (.expect nofun rfl fun _ _ tail =>
      .finish (.append (.cons head.leaf (.cons first middle)) (.single tail.leaf)))

theorem importCall_tracks (track : rules.Track n rules') :
    Tracks (n + 1) [] c.lead t context c Tree.Same (importCall rules) (importCall rules') := by
  refine .weaken (k := 2) (.here fun _ _ => .expect nofun rfl fun _ _ _ => ?_) (Nat.le_refl _)
    c.lead_le_two
  refine .accept nofun nofun rfl (fun _ => ?_) fun _ => ?_
  · exact .bind memberName_tracks fun _ _ _ same => .finish (.single same)
  · exact ((arguments_tracks track).lower.weaken (Nat.le_refl n) (Cursor.lead_pos _)).bindLead
      fun _ _ _ same => .finish (.single same)

theorem indexRest_tracks (track : rules.Track n rules') :
    Tracks n [.rightBracket] 0 t context c Tree.Same (indexRest rules) (indexRest rules') := by
  refine .bind (.allowingIn (track.free .expression rfl)) fun _ _ _ same => ?_
  exact .mid (.expect nofun rfl fun _ _ _ => .pure same)

theorem optionalLink_tracks (track : rules.Track n rules') {object object' : SyntaxTree}
    {start start' : Location} (same : object.Same object') :
    Tracks n [] 1 t context c Tree.Same (optionalLink rules start object)
      (optionalLink rules' start' object') := by
  refine .sees (.inl Nat.one_pos) (fun _ => ?_) fun _ => ?_
  · exact ((arguments_tracks track).lower.weaken (Nat.le_refl n) c.lead_pos).bindLead
      fun _ _ _ same' => .finish (.cons same (.single same'))
  refine .accept nofun nofun rfl (fun _ => ?_) fun _ => ?_
  · exact (indexRest_tracks track).bindClosing fun _ _ _ same' =>
      .finish (.cons same (.single same'))
  · exact .bindLead memberName_tracks fun _ _ _ same' => .finish (.cons same (.single same'))

/-- The kinds of tokens that a link starts with. -/
def startsLink (callsAllowed : Bool) : TokenKind → Bool
  | .dot | .leftBracket | .template | .templateHead => true
  | .leftParen | .optionalChain => callsAllowed
  | _ => false

theorem link_none {callsAllowed : Bool} {start : Location} {object : SyntaxTree}
    (h : startsLink callsAllowed c.current.kind = false) :
    link rules callsAllowed start object context c = .ok (none, c) := by
  rw [link, current_bind]
  generalize c.current.kind = kind at h
  split
  · cases h
  · cases h
  · cases h
  · cases h
  · rw [if_neg (by simpa [startsLink] using h)]
    rfl
  · rw [if_neg (by simpa [startsLink] using h)]
    rfl
  · rfl

/-- What is joined to an object goes on with the whole. -/
private theorem joined_tracks {label : Label} {object object' : SyntaxTree}
    {start start' : Location} {part part' : Parser SyntaxTree} (same : object.Same object')
    (h : Tracks n [] k t context c Tree.Same part part') :
    Tracks n [] k t context c (fun next next' => ∃ tree tree' : SyntaxTree, next = some tree ∧
        next' = some tree' ∧ tree.Same tree')
      (do let part ← part; return some (← finish label [object, part] start))
      (do let part ← part'; return some (← finish label [object', part] start')) :=
  h.bindLead fun _ _ _ same' => .bind (.finish (.cons same (.single same'))) fun _ _ _ whole =>
    .pure ⟨_, _, rfl, rfl, whole⟩

theorem link_steps (track : rules.Track n rules') {callsAllowed : Bool} {start start' : Location}
    {object object' : SyntaxTree} (same : object.Same object') :
    Steps n t context c (link rules callsAllowed start object)
      (link rules' callsAllowed start' object') := by
  cases links : startsLink callsAllowed c.current.kind with
  | false =>
    refine .ends (link_none links) fun {_ d} aligned => link_none ?_
    rcases aligned.shows with alike | ⟨written, _⟩
    · rw [alike.kind, links]
    · rw [written]
      rfl
  | true =>
    refine .goes (.current (.inl Nat.one_pos) fun token alike => ?_)
    rw [alike.kind]
    generalize hk : c.current.kind = kind at links
    split
    · refine .mid (.advance (by simp [hk]) (by rw [hk]; rfl) fun _ _ => ?_)
      exact (joined_tracks same memberName_tracks).weaken (Nat.le_refl n) (Nat.zero_le 1)
    · refine .mid (.advance (by simp [hk]) (by rw [hk]; rfl) fun _ _ => ?_)
      exact (indexRest_tracks track).bindClosing fun _ _ _ same' =>
        .bind (.finish (.cons same (.single same'))) fun _ _ _ whole =>
          .pure ⟨_, _, rfl, rfl, whole⟩
    · exact joined_tracks same ((template_tracks track).lower.weaken (Nat.le_refl n) c.lead_pos)
    · exact joined_tracks same ((template_tracks track).lower.weaken (Nat.le_refl n) c.lead_pos)
    · rw [if_pos (by simpa [startsLink] using links), if_pos (by simpa [startsLink] using links)]
      exact joined_tracks same ((arguments_tracks track).lower.weaken (Nat.le_refl n) c.lead_pos)
    · rw [if_pos (by simpa [startsLink] using links), if_pos (by simpa [startsLink] using links)]
      refine .mid (.advance (by simp [hk]) (by rw [hk]; rfl) fun _ _ => ?_)
      exact .bind (optionalLink_tracks track same) fun _ _ _ whole =>
        .pure ⟨_, _, rfl, rfl, whole⟩
    · simp_all [startsLink]

theorem construct_tracks (track : rules.Track n rules') :
    Tracks (n + 1) [] c.lead t context c Tree.Same (construct rules) (construct rules') := by
  refine .here fun _ _ => .expectStart nofun nofun rfl fun _ _ _ => ?_
  refine .accept nofun nofun rfl (fun _ => ?_) fun _ => ?_
  · exact .bind memberName_tracks fun _ _ _ same => .finish (.single same)
  refine .here fun _ _ => .bind (track.free .primary rfl) fun _ _ _ object => ?_
  refine .bind (.iterate (fun _ _ _ same => link_steps track same) object) fun _ _ _ callee => ?_
  refine .seesOptional nofun (fun _ => ?_) fun _ => .finish (.cons callee (.single (.refl .missing)))
  exact ((arguments_tracks track).lower.weaken (Nat.le_refl n) (Cursor.lead_pos _)).bindLead
    fun _ _ _ same => .finish (.cons callee (.single same))

theorem primary_tracks (track : rules.Track n rules') :
    Tracks (n + 1) [] c.lead t context c Tree.Same (primary rules) (primary rules') := by
  refine .current (.inl c.lead_pos) fun token alike => ?_
  rw [alike.kind]
  generalize hk : c.current.kind = kind
  split
  · refine seesAsyncFunction_tracks c.lead_pos fun isFunction => ?_
    split
    · exact function_tracks track .functionExpr false
    · exact .start (by simp [hk]) (.lastLeaf (by simp [hk]) (by rw [hk]; rfl))
  · exact template_tracks track
  · exact template_tracks track
  · exact paren_tracks track
  · exact arrayLiteral_tracks track
  · exact objectLiteral_tracks track
  · exact function_tracks track .functionExpr false
  · exact classDefinition_tracks track .classExpr false
  · exact importCall_tracks track
  · exact construct_tracks track
  · split
    · rename_i atom
      have atom' := List.contains_iff_mem.1 atom
      have plain := (by decide : ∀ kind ∈ atoms, kind.isPlain = true ∧ kind ≠ .endOfInput ∧
        kind ≠ .kwImport) _ atom'
      exact .start (by rw [hk]; exact plain.2.2)
        (.lastLeaf (by rw [hk]; exact plain.2.1) (by rw [hk]; exact plain.1))
    · exact .failHere

theorem leftHand_tracks (track : rules.Track n rules') :
    Tracks (n + 1) [] c.lead t context c Tree.Same (leftHand rules) (leftHand rules') :=
  .here fun _ _ => .first (primary_tracks track) c.lead_pos fun _ _ _ same =>
    .iterate (fun _ _ _ same => link_steps track same) same

theorem postfixExpression_tracks (track : rules.Track n rules') :
    Tracks (n + 1) [] c.lead t context c Tree.Same (postfixExpression rules)
      (postfixExpression rules') := by
  refine .here fun _ _ => .first (leftHand_tracks track) c.lead_pos fun _ _ _ same => ?_
  refine .currentIf
    (fun token => (token.kind = .plusPlus || token.kind = .minusMinus) && !token.newlineBefore)
    (fun alike => by simp only [alike.kind, alike.newlineBefore]) (fun kind => by simp [kind])
    (fun seen token alike => ?_) fun seen token seen' => ?_
  · rw [if_pos seen, if_pos (by simpa only [alike.kind, alike.newlineBefore] using seen)]
    simp only [Bool.and_eq_true, Bool.or_eq_true, decide_eq_true_eq] at seen
    refine .mid (.takeLeaf ?_ ?_ fun _ operator => .finish (.cons same (.single operator)))
    · rcases seen.1 with kind | kind <;> simp [kind]
    · rcases seen.1 with kind | kind <;> (rw [kind]; rfl)
  · rw [if_neg (by simpa using seen), if_neg (by simpa using seen')]
    exact .pure same

/-- An operator in front of its operand. -/
private theorem prefixed_tracks (track : rules.Track n rules') {label : Label}
    {start start' : Location} (live : c.current.kind ≠ .endOfInput)
    (plain : c.current.kind.isPlain = true) (other : c.current.kind ≠ .kwImport) :
    Tracks (n + 1) [] c.lead t context c Tree.Same
      (do
        let operator ← takeLeaf
        let operand ← rules .unary
        finish label [operator, operand] start)
      (do
        let operator ← takeLeaf
        let operand ← rules' .unary
        finish label [operator, operand] start') :=
  .start other (.takeLeaf live (TokenKind.nest_of_plain plain []) fun _ operator =>
    .bind (track.free .unary rfl) fun _ _ _ same => .finish (.cons operator (.single same)))

theorem unary_tracks (track : rules.Track n rules') :
    Tracks (n + 1) [] c.lead t context c Tree.Same (unary rules) (unary rules') := by
  refine .here fun _ _ => .current (.inl c.lead_pos) fun token alike => ?_
  simp only [alike.kind]
  split
  · rename_i operator
    have kind := (by decide : ∀ kind ∈ prefixOperators, kind ≠ .endOfInput ∧ kind.isPlain = true ∧
      kind ≠ .kwImport) _ (List.contains_iff_mem.1 operator)
    exact prefixed_tracks track kind.1 kind.2.1 kind.2.2
  split
  · rename_i operator
    simp only [Bool.or_eq_true, decide_eq_true_eq] at operator
    have kind := (by decide : ∀ kind ∈ [TokenKind.plusPlus, .minusMinus], kind ≠ .endOfInput ∧
      kind.isPlain = true ∧ kind ≠ .kwImport) c.current.kind (by simpa using operator)
    exact prefixed_tracks track kind.1 kind.2.1 kind.2.2
  refine seesAwait_tracks c.lead_pos (fun await => ?_) (postfixExpression_tracks track)
  have kind := isWord_kind await
  refine .start (by simp [kind]) (.advance (by simp [kind]) (by rw [kind]; rfl) fun _ _ => ?_)
  exact .bind (track.free .unary rfl) fun _ _ _ same => .finish (.single same)

theorem isPlain_of_level {kind : TokenKind} {own : Nat} (h : level? kind = some own) :
    kind.isPlain = true ∧ kind ≠ .endOfInput := by
  unfold level? at h
  split at h <;> first | exact ⟨rfl, nofun⟩ | cases h

/-- Whether an operator of some kind joins operands on some level. -/
def joins (context : ParseContext) (level : Nat) (kind : TokenKind) : Bool :=
  match level? kind with
  | none => false
  | some own => !(own ≤ level || (kind = .kwIn && !context.allowIn))

theorem joinOperator_none {level : Nat} {start : Location} {left : SyntaxTree}
    (h : joins context level c.current.kind = false) :
    joinOperator rules level start left context c = .ok (none, c) := by
  rw [joinOperator, current_bind]
  unfold joins at h
  cases own : level? c.current.kind with
  | none => rfl
  | some own =>
    simp only [own, Bool.not_eq_false'] at h
    dsimp only
    rw [context_bind, if_pos h]
    rfl

theorem joinOperator_steps (track : rules.Track n rules') {level : Nat}
    {start start' : Location} {left left' : SyntaxTree} (same : left.Same left') :
    Steps n t context c (joinOperator rules level start left)
      (joinOperator rules' level start' left') := by
  cases joined : joins context level c.current.kind with
  | false =>
    refine .ends (joinOperator_none joined) fun {_ d} aligned => joinOperator_none ?_
    rcases aligned.shows with alike | ⟨written, _⟩
    · rw [alike.kind, joined]
    · rw [written]
      rfl
  | true =>
    refine .goes (.current (.inl Nat.one_pos) fun token alike => ?_)
    simp only [alike.kind]
    unfold joins at joined
    cases own : level? c.current.kind with
    | none => simp [own] at joined
    | some own =>
      simp only [own, Bool.not_eq_true'] at joined
      dsimp only
      have kind := isPlain_of_level own
      refine .within ?_
      simp only [joined, Bool.false_eq_true, if_false]
      refine .mid (.takeLeaf kind.2 (TokenKind.nest_of_plain kind.1 []) fun _ operator => ?_)
      refine .bind (track.free (.binary _) rfl) fun _ _ _ right => ?_
      exact .bind (.finish (.cons same (.cons operator (.single right)))) fun _ _ _ whole =>
        .pure ⟨_, _, rfl, rfl, whole⟩

theorem binary_tracks (track : rules.Track n rules') (level : Nat) :
    Tracks (n + 1) [] c.lead t context c Tree.Same (binary rules level) (binary rules' level) :=
  .here fun _ _ => .first (unary_tracks track) c.lead_pos fun _ _ _ same =>
    .iterate (fun _ _ _ same => joinOperator_steps track same) same

theorem conditional_tracks (track : rules.Track n rules') :
    Tracks (n + 1) [] c.lead t context c Tree.Same (conditional rules) (conditional rules') := by
  refine .here fun _ _ => .first (binary_tracks track 0) c.lead_pos fun _ _ _ test => ?_
  refine .accept nofun nofun rfl (fun _ => ?_) fun _ => .pure test
  refine .bind (.allowingIn (track.free .assignment rfl)) fun _ _ _ consequent => ?_
  refine .mid (.expect nofun rfl fun _ _ _ => ?_)
  exact .bind (track.free .assignment rfl) fun _ _ _ alternate =>
    .finish (.cons test (.cons consequent (.single alternate)))

theorem yieldExpression_tracks (track : rules.Track n rules')
    (word : c.current.isWord "yield" = true) :
    Tracks (n + 1) [] c.lead t context c Tree.Same (yieldExpression rules)
      (yieldExpression rules') := by
  have kind := isWord_kind word
  refine .here fun _ _ => .start (by simp [kind]) (.advance (by simp [kind]) (by rw [kind]; rfl)
    fun _ _ => ?_)
  refine .accept nofun nofun rfl (fun _ => ?_) fun _ => ?_
  · exact .bind (track.free .assignment rfl) fun _ _ _ same => .finish (.single same)
  · exact .operand (fun token => token.newlineBefore || yieldEnds.contains token.kind)
      (fun alike => by simp only [alike.kind, alike.newlineBefore])
      (fun kind => by simp [kind, yieldEnds]) (track.free .assignment rfl)
      fun _ _ _ same => .finish (.single same)

/-- Whether an arrow function with a single name behind the word `async` starts here. -/
def asyncNameArrow (c : Cursor) : Bool :=
  c.current.isWord "async" && !(c.peek 1).newlineBefore && (c.peek 1).kind = .identifier &&
    (c.peek 2).kind = .arrow

/-- Whether any other arrow function starts here. -/
def otherArrow (c : Cursor) : Bool :=
  c.current.isWord "async" && !(c.peek 1).newlineBefore && (c.peek 1).kind = .leftParen &&
      arrowBehindBracket 0 c.rest.tail ||
    if c.current.kind = .identifier then (c.peek 1).kind = .arrow && !(c.peek 1).newlineBefore
    else c.current.kind = .leftParen && arrowBehindBracket 0 c.rest

theorem seesArrow_eq : seesArrow context c = .ok (asyncNameArrow c || otherArrow c, c) := by
  have same : (asyncNameArrow c || otherArrow c) = (c.current.isWord "async" &&
      !(c.peek 1).newlineBefore && (((c.peek 1).kind = .identifier && (c.peek 2).kind = .arrow) ||
        ((c.peek 1).kind = .leftParen && arrowBehindBracket 0 c.rest.tail)) ||
      if c.current.kind = .identifier then (c.peek 1).kind = .arrow && !(c.peek 1).newlineBefore
      else c.current.kind = .leftParen && arrowBehindBracket 0 c.rest) := by
    rw [asyncNameArrow, otherArrow, ← Bool.or_assoc, Bool.and_or_distrib_left]
    simp only [Bool.and_assoc]
  rw [same]
  rfl

section

variable {d : Cursor} {future : List Passage}

theorem asyncNameArrow_alike (h : Cursor.Aligned future c d) (lead : 3 ≤ Passage.lead future) :
    asyncNameArrow d = asyncNameArrow c := by
  have first := h.ofLead (Nat.lt_of_lt_of_le (by decide) lead)
  have next := h.peekAlike (Nat.le_of_succ_le lead)
  simp only [asyncNameArrow, first.isWord, next.kind, next.newlineBefore,
    (h.peekBeyondAlike lead).kind]

theorem asyncNameArrow_absent (h : Cursor.Aligned future c d) (lead : 1 ≤ Passage.lead future)
    (absent : asyncNameArrow c = false) : asyncNameArrow d = false := by
  rcases h.peekShows lead with next | ⟨written, _⟩
  · by_cases name : (d.peek 1).kind = .identifier
    · rcases h.peekBeyondShows lead (by simp [name]) (by simp [name]) with beyond | ⟨written, _⟩
      · rw [← absent]
        simp only [asyncNameArrow, (h.ofLead lead).isWord, next.kind, next.newlineBefore,
          beyond.kind]
      · simp [asyncNameArrow, written]
    · simp [asyncNameArrow, name]
  · simp [asyncNameArrow, written]

theorem otherArrow_eq (h : Cursor.Aligned future c d) (lead : 1 ≤ Passage.lead future) :
    otherArrow d = otherArrow c := by
  have first := h.ofLead lead
  have whole := h.filled.arrowBehindBracket 0
  have behind : arrowBehindBracket 0 d.rest.tail = arrowBehindBracket 0 c.rest.tail := by
    obtain ⟨token, later, rfl⟩ := Passage.exists_of_lead lead
    exact h.ofToken.2.filled.arrowBehindBracket 0
  have async := h.pair_eq lead (fun token next => token.isWord "async" && !next.newlineBefore &&
      next.kind = .leftParen && arrowBehindBracket 0 c.rest.tail)
    (fun first next => by simp only [first.isWord, next.kind, next.newlineBefore])
    (fun _ _ newline => by simp [newline])
    (fun _ _ kind => by rcases kind with kind | kind | kind <;> simp [kind])
  have plain := h.pair_eq lead (fun _ next => next.kind = .arrow && !next.newlineBefore)
    (fun _ next => by simp only [next.kind, next.newlineBefore])
    (fun _ _ newline => by simp [newline])
    (fun _ _ kind => by rcases kind with kind | kind | kind <;> simp [kind])
  simp only [otherArrow, behind, whole, first.kind, async, plain]

end

/-- An arrow function or something else. -/
private theorem seesArrow_tracks {f g : Bool → Parser SyntaxTree}
    (async : c.current.isWord "async" = true → (c.peek 1).kind = .identifier →
      Tracks n [] 3 t context c Tree.Same (f true) (g true))
    (arrow : Tracks n [] c.lead t context c Tree.Same (f true) (g true))
    (no : Tracks n [] c.lead t context c Tree.Same (f false) (g false)) :
    Tracks n [] c.lead t context c Tree.Same (seesArrow >>= f) (seesArrow >>= g) := by
  cases named : asyncNameArrow c with
  | true =>
    have parts := named
    simp only [asyncNameArrow, Bool.and_eq_true, decide_eq_true_eq] at parts
    refine .weaken (k := 3) ?_ (Nat.le_refl n) (Nat.le_succ_of_le c.lead_le_two)
    refine .look true (by rw [seesArrow_eq, named]; rfl) (fun lead _ aligned => ?_)
      (async parts.1.1.1 parts.1.2)
    rw [seesArrow_eq, asyncNameArrow_alike aligned lead, named]
    rfl
  | false =>
    refine .look (otherArrow c) (by rw [seesArrow_eq, named]; rfl) (fun lead _ aligned => ?_) ?_
    · have lead' := Nat.lt_of_lt_of_le c.lead_pos lead
      rw [seesArrow_eq, asyncNameArrow_absent aligned lead' named, otherArrow_eq aligned lead']
      rfl
    · cases otherArrow c with
      | true => exact arrow
      | false => exact no

theorem assignment_tracks (track : rules.Track n rules') :
    Tracks (n + 1) [] c.lead t context c Tree.Same (assignment rules) (assignment rules') := by
  refine seesArrow_tracks (arrow_async_tracks track) (arrow_tracks track) (.within ?_)
  have plain : Tracks (n + 1) [] c.lead t context c Tree.Same
      (do
        let start ← here
        let left ← conditional rules
        if (← current).kind.isAssignment then
          let operator ← takeLeaf
          let right ← rules .assignment
          finish .assign [left, operator, right] start
        else return left)
      (do
        let start ← here
        let left ← conditional rules'
        if (← current).kind.isAssignment then
          let operator ← takeLeaf
          let right ← rules' .assignment
          finish .assign [left, operator, right] start
        else return left) := by
    refine .here fun _ _ => .first (conditional_tracks track) c.lead_pos fun _ _ _ left => ?_
    refine .currentIf (·.kind.isAssignment) (fun alike => by rw [alike.kind])
      (fun kind => by rw [kind]; rfl) (fun assigns token alike => ?_) fun seen token seen' => ?_
    · rw [alike.kind, assigns, if_pos rfl, if_pos rfl]
      have kind := (by decide : ∀ kind ∈ TokenKind.assignments, kind ≠ .endOfInput ∧
        kind.isPlain = true) _ (List.contains_iff_mem.1 assigns)
      refine .mid (.takeLeaf kind.1 (TokenKind.nest_of_plain kind.2 []) fun _ operator => ?_)
      exact .bind (track.free .assignment rfl) fun _ _ _ right =>
        .finish (.cons left (.cons operator (.single right)))
    · rw [seen, seen', if_neg Bool.false_ne_true, if_neg Bool.false_ne_true]
      exact .pure left
  cases generator : context.insideGenerator with
  | true => exact .seesWord (.inl c.lead_pos) (fun word => yieldExpression_tracks track word) plain
  | false => exact .seesWord (.inl c.lead_pos) (fun _ => plain) plain

/-- An element with a comma in front of it. -/
theorem behindComma_tracks {element element' : Parser SyntaxTree}
    (h : ∀ c, Tracks n [] 1 t context c Tree.Same element element')
    (comma : (c.current.kind != .comma) = false) :
    Tracks n [] 1 t context c Tree.AllSame (do let _ ← advance; return [← element])
      (do let _ ← advance; return [← element']) := by
  have kind : c.current.kind = .comma := by simpa using comma
  exact .mid (.advance (by simp [kind]) (by rw [kind]; rfl) fun _ _ =>
    (Tracks.single (h _)).weaken (Nat.le_refl n) (Nat.zero_le 1))

theorem expression_tracks (track : rules.Track n rules') :
    Tracks (n + 1) [] c.lead t context c Tree.Same (expression rules) (expression rules') := by
  refine .here fun _ _ => .first (assignment_tracks track) c.lead_pos fun _ _ c₁ first => ?_
  refine .seesOptional nofun (fun comma => ?_) fun _ => .pure first
  refine .bindLead (.collectSome (.inr ?_) ?_ fun c => ?_) fun _ _ _ same =>
    .finish (.cons first same)
  · rfl
  · rw [comma]
    rfl
  · exact behindComma_tracks fun _ => track.free .assignment rfl

end Uncurry.Grammar
