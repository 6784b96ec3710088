import Uncurry.Proofs.Progress.Tracking
import Uncurry.Proofs.Syntax.Bindings

/-!
# Names, patterns, functions and classes track
-/
namespace Uncurry.Grammar

open Uncurry.Parser

variable {n k : Nat} {rules rules' : Rules} {t : Bool} {context : ParseContext} {c : Cursor}

theorem bindingIdentifier_tracks :
    Tracks n [] c.lead t context c Tree.Same bindingIdentifier bindingIdentifier := by
  refine .current (.inl c.lead_pos) fun token alike => ?_
  rw [alike.kind]
  split
  · rename_i kind
    exact .start (by simp [kind]) (.lastLeaf (by simp [kind]) (by rw [kind]; rfl))
  · exact .failHere

theorem isName_alike {token other : Token} (h : token.Alike other) :
    isName other = isName token := by
  rw [isName, isName, h.kind]

theorem isPlain_of_isName {token : Token} (h : isName token = true) :
    token.kind.isPlain = true := by
  simp only [isName, Bool.or_eq_true, decide_eq_true_eq] at h
  rcases h with identifier | reserved
  · rw [identifier]
    rfl
  · obtain ⟨entry, member, same⟩ := List.any_eq_true.1 reserved
    rw [← of_decide_eq_true same]
    exact (by decide : ∀ entry ∈ TokenKind.reservedWords, entry.2.isPlain = true) entry member

/-- A name that is taken as such. -/
private theorem name_tracks (name : isName c.current = true) :
    Tracks n [] 1 t context c Tree.Same (do return nameLeaf (← advance))
      (do return nameLeaf (← advance)) :=
  .mid (.advance (isName_live name) (TokenKind.nest_of_plain (isPlain_of_isName name) [])
    fun _ alike => .pure alike.nameLeaf)

theorem memberName_tracks :
    Tracks n [] 1 t context c Tree.Same memberName memberName := by
  refine .current (.inl Nat.one_pos) fun token alike => ?_
  rw [isName_alike alike, alike.kind]
  split
  · rename_i name
    exact name_tracks name
  split
  · rename_i kind
    exact .lastLeaf (by simp [kind]) (by rw [kind]; rfl)
  · exact .failHere

theorem exportName_tracks :
    Tracks n [] 1 t context c Tree.Same exportName exportName := by
  refine .sees (.inl Nat.one_pos) (fun kind => ?_) fun _ => memberName_tracks
  exact .lastLeaf (by simp [kind]) (by rw [kind]; rfl)

theorem propertyKey_tracks (track : rules.Track n rules') :
    Tracks n [] 1 t context c Tree.Same (propertyKey rules) (propertyKey rules') := by
  refine .current (.inl Nat.one_pos) fun token alike => ?_
  rw [isName_alike alike, alike.kind]
  split
  · rename_i name
    exact name_tracks name
  split
  · rename_i kind
    refine .lastLeaf (by intro atEnd; simp [atEnd] at kind) ?_
    exact (by decide : ∀ kind ∈ [TokenKind.string, .number, .bigInt, .privateName],
      kind.isPlain = true) _ (List.contains_iff_mem.1 kind)
  split
  · rename_i kind
    refine .here fun _ _ => .mid (.advance (by simp [kind]) (by rw [kind]; rfl) fun _ _ => ?_)
    refine .bind (.allowingIn (track.free .assignment rfl)) fun key key' _ same => ?_
    exact .mid (.expect nofun rfl fun _ _ _ => .finish (.single same))
  · exact .failHere

variable {γ : Type} {same : γ → γ → Prop} {p q p' q' p'' q'' : Parser γ}

/-- Whether the second token from a cursor on lets the first one modify it. -/
def modifies (c : Cursor) : Bool :=
  !([.leftParen, .assign, .semicolon, .rightBrace, .colon, .comma].contains (c.peek 1).kind)

/-- Whether a word stands here as a modifier, on one line with what follows if it has to. -/
def modifiesAs (word : String) (oneLine : Bool) (c : Cursor) : Bool :=
  c.current.isWord word && modifies c && !(oneLine && (c.peek 1).newlineBefore)

theorem isModifier_bind (f : Bool → Parser γ) :
    (isModifier >>= f) context c = f (modifies c) context c := rfl

theorem modifiesAs_alike (word : String) (oneLine : Bool) {d : Cursor}
    (h : c.current.Alike d.current) (h' : (c.peek 1).Alike (d.peek 1)) :
    modifiesAs word oneLine d = modifiesAs word oneLine c := by
  simp only [modifiesAs, modifies, h.isWord, h'.kind, h'.newlineBefore]

/-- A semicolon that is written behind a word keeps it from modifying what follows, but where it
does modify it there is no such semicolon. -/
theorem modifier_tracks (word : String) (oneLine : Bool)
    (here : ∀ d, p context d = if modifiesAs word oneLine d then p' context d.next
      else p'' context d)
    (there : ∀ d, q context d = if modifiesAs word oneLine d then q' context d.next
      else q'' context d)
    (yes : Tracks n [] 1 t context c.next same p' q')
    (no : Tracks n [] 1 t context c same p'' q'') :
    Tracks n [] 1 t context c same p q := by
  cases seen : modifiesAs word oneLine c with
  | true =>
    have isWord : c.current.isWord word = true := by
      simp only [modifiesAs, Bool.and_eq_true] at seen
      exact seen.1.1
    have taken : Tracks (n + 1) [] 2 t context c same (acceptWord word >>= fun _ => p')
        (acceptWord word >>= fun _ => q') := .takeWord isWord rfl yes
    refine (Tracks.congr ?_ (fun lead _ aligned => ?_) taken).weaken (Nat.le_succ n)
      (Nat.le_succ 1)
    · rw [here, if_pos seen, acceptWord_bind, if_pos isWord]
    · have alike := aligned.ofLead (Nat.lt_of_lt_of_le Nat.two_pos lead)
      have same := modifiesAs_alike word oneLine alike (aligned.peekAlike lead)
      rw [there, if_pos (same.trans seen), acceptWord_bind,
        if_pos ((alike.isWord word).trans isWord)]
  | false =>
    refine Tracks.congr ((here c).trans (if_neg (by simp [seen])))
      (fun {_ d} lead _ aligned => ?_) no
    have unseen : modifiesAs word oneLine d = false := by
      rcases aligned.peekShows lead with next | ⟨written, _⟩
      · rw [modifiesAs_alike word oneLine (aligned.ofLead lead) next, seen]
      · simp [modifiesAs, modifies, written]
    exact (there d).trans (if_neg (by simp [unseen]))

/-- What `methodModifiers` does behind the word `async`. -/
def accessorModifiers (isAsync isGenerator : Bool) : Parser MethodModifiers := do
  if ← isModifier then
    if ← acceptWord "get" then return ⟨.getter, isAsync, isGenerator⟩
    if ← acceptWord "set" then return ⟨.setter, isAsync, isGenerator⟩
  return ⟨.method, isAsync, isGenerator⟩

theorem methodModifiers_bind (f : MethodModifiers → Parser γ) (d : Cursor) :
    (methodModifiers >>= f) context d =
      if modifiesAs "async" true d then
        (accept .star >>= fun isGenerator => accessorModifiers true isGenerator >>= f) context d.next
      else
        (accept .star >>= fun isGenerator => accessorModifiers false isGenerator >>= f) context d := by
  simp only [methodModifiers, bind_assoc, seesWord_bind, isModifier_bind, peek_bind]
  have same : (d.current.isWord "async" && modifies d && !(d.peek 1).newlineBefore) =
      modifiesAs "async" true d := by rw [modifiesAs, Bool.true_and]
  rw [same]
  split
  · rw [bind_assoc, advance_bind]
    simp only [pure_bind, accessorModifiers, bind_assoc]
  · simp only [pure_bind, accessorModifiers, bind_assoc]

theorem accessorModifiers_bind (f : MethodModifiers → Parser γ) (isAsync isGenerator : Bool)
    (d : Cursor) :
    (accessorModifiers isAsync isGenerator >>= f) context d =
      if modifiesAs "get" false d then f ⟨.getter, isAsync, isGenerator⟩ context d.next
      else if modifiesAs "set" false d then f ⟨.setter, isAsync, isGenerator⟩ context d.next
      else f ⟨.method, isAsync, isGenerator⟩ context d := by
  simp only [accessorModifiers, bind_assoc, isModifier_bind, modifiesAs, Bool.false_and,
    Bool.not_false, Bool.and_true]
  by_cases free : modifies d = true
  · simp [free, acceptWord_bind]
  · simp [free, pure_bind']

/-- The modifiers of a method, and a key behind them. -/
theorem methodModifiers_tracks {f g : MethodModifiers → Parser γ}
    (h : ∀ modifiers c, Tracks n [] 1 t context c same (f modifiers) (g modifiers)) :
    Tracks n [] 1 t context c same (methodModifiers >>= f) (methodModifiers >>= g) := by
  have accessor (isAsync isGenerator : Bool) (c : Cursor) : Tracks n [] 1 t context c same
      (accessorModifiers isAsync isGenerator >>= f) (accessorModifiers isAsync isGenerator >>= g) := by
    let behindGet (f : MethodModifiers → Parser γ) : Parser γ := fun context d =>
      if modifiesAs "set" false d then f ⟨.setter, isAsync, isGenerator⟩ context d.next
      else f ⟨.method, isAsync, isGenerator⟩ context d
    have second : Tracks n [] 1 t context c same (behindGet f) (behindGet g) :=
      modifier_tracks "set" false (fun _ => rfl) (fun _ => rfl) (h _ _) (h _ _)
    exact modifier_tracks "get" false (accessorModifiers_bind f _ _)
      (accessorModifiers_bind g _ _) (h _ _) second
  have behind (isAsync : Bool) (c : Cursor) : Tracks n [] 1 t context c same
      (accept .star >>= fun isGenerator => accessorModifiers isAsync isGenerator >>= f)
      (accept .star >>= fun isGenerator => accessorModifiers isAsync isGenerator >>= g) :=
    .accept nofun nofun rfl (fun _ => (accessor _ _ _).weaken (Nat.le_refl n) (Nat.zero_le 1))
      fun _ => accessor _ _ _
  exact modifier_tracks "async" true (methodModifiers_bind f) (methodModifiers_bind g)
    (behind _ _) (behind _ _)

theorem restElement_tracks (track : rules.Track n rules') :
    Tracks n [] 1 t context c Tree.Same (restElement rules) (restElement rules') := by
  refine .here fun _ _ => .mid (.expect nofun rfl fun _ _ _ => ?_)
  exact .bind (track.free .bindingTarget rfl) fun _ _ _ same => .finish (.single same)

theorem patternProperty_tracks (track : rules.Track n rules') :
    Tracks n [] 1 true context c Tree.Same (patternProperty rules) (patternProperty rules') := by
  refine .here fun _ _ => .accept nofun nofun rfl (fun _ => ?_) fun _ => ?_
  · exact .bind bindingIdentifier_tracks fun _ _ _ same => .finish (.single same)
  refine .seesSame (.inr rfl) fun mayStandAlone => ?_
  refine .bindLead (propertyKey_tracks track) fun key key' _ key_same => ?_
  refine .accept nofun nofun rfl (fun _ => ?_) fun _ => ?_
  · exact .bind (track.free .bindingElement rfl) fun _ _ _ same =>
      .finish (.cons key_same (.single same))
  cases mayStandAlone with
  | true =>
    refine .accept nofun nofun rfl (fun _ => ?_) fun _ => ?_
    · refine .bind (.allowingIn (track.free .assignment rfl)) fun _ _ _ same => ?_
      exact .bind (.finish (.cons key_same (.single same))) fun _ _ _ same' =>
        .finish (.cons key_same (.single same'))
    · exact .finish (.cons key_same (.single key_same))
  | false => exact .current (.inr rfl) fun _ _ => .failHere

theorem objectPattern_tracks (track : rules.Track n rules') :
    Tracks (n + 1) [] c.lead t context c Tree.Same (objectPattern rules) (objectPattern rules') := by
  refine .here fun _ _ => .expectStart nofun nofun rfl fun _ _ _ => ?_
  refine .bindTight (.collect (.inl rfl) fun _ _ => .listed (patternProperty_tracks track))
    fun _ _ _ same => ?_
  exact .mid (.expect nofun rfl fun _ _ _ => .finish same)

theorem arrayElement_tracks {element element' : Parser SyntaxTree}
    (h : ∀ c, Tracks n [] 1 true context c Tree.Same element element') :
    Tracks n [] 1 true context c Tree.AllSame (arrayElement element) (arrayElement element') :=
  .accept nofun nofun rfl (fun _ => .pure (.single (.refl _))) fun _ => .listed (h c)

theorem restOr_tracks (track : rules.Track n rules') {other other' : Parser SyntaxTree}
    (h : Tracks n [] 1 t context c Tree.Same other other') :
    Tracks n [] 1 t context c Tree.Same
      (do if ← sees .ellipsis then restElement rules else other)
      (do if ← sees .ellipsis then restElement rules' else other') :=
  .sees (.inl Nat.one_pos) (fun _ => restElement_tracks track) fun _ => h

theorem arrayPattern_tracks (track : rules.Track n rules') :
    Tracks (n + 1) [] c.lead t context c Tree.Same (arrayPattern rules) (arrayPattern rules') := by
  refine .here fun _ _ => .expectStart nofun nofun rfl fun _ _ _ => ?_
  refine .bindTight (.collect (.inl rfl) fun _ _ => arrayElement_tracks fun _ =>
    restOr_tracks track (track.free .bindingElement rfl)) fun _ _ _ same => ?_
  exact .mid (.expect nofun rfl fun _ _ _ => .finish same)

theorem bindingTarget_tracks (track : rules.Track n rules') :
    Tracks (n + 1) [] c.lead t context c Tree.Same (bindingTarget rules) (bindingTarget rules') := by
  refine .current (.inl c.lead_pos) fun token alike => ?_
  rw [alike.kind]
  split
  · exact objectPattern_tracks track
  · exact arrayPattern_tracks track
  · exact bindingIdentifier_tracks

theorem bindingElement_tracks (track : rules.Track n rules') :
    Tracks (n + 1) [] c.lead t context c Tree.Same (bindingElement rules)
      (bindingElement rules') := by
  refine .here fun _ _ => .first (bindingTarget_tracks track) c.lead_pos fun _ _ _ same => ?_
  refine .accept nofun nofun rfl (fun _ => ?_) fun _ => .pure same
  exact .bind (.allowingIn (track.free .assignment rfl)) fun _ _ _ same' =>
    .finish (.cons same (.single same'))

theorem block_tracks (track : rules.Track n rules') :
    Tracks (n + 1) [] c.lead t context c Tree.Same (block rules) (block rules') := by
  refine .here fun _ _ => .expectStart nofun nofun rfl fun _ _ _ => ?_
  refine .bindTight (.allowingIn (.collect (.inl rfl) fun _ _ => .single (track.one .item)))
    fun _ _ _ same => ?_
  exact .mid (.expect nofun rfl fun _ _ _ => .finish same)

theorem parameters_tracks (track : rules.Track n rules') :
    Tracks (n + 1) [] c.lead t context c Tree.Same (parameters rules) (parameters rules') := by
  refine .here fun _ _ => .expectStart nofun nofun rfl fun _ _ _ => ?_
  refine .bindTight (.allowingIn (.collect (.inl rfl) fun _ _ => .listed
    (restOr_tracks track (track.free .bindingElement rfl)))) fun _ _ _ same => ?_
  exact .mid (.expect nofun rfl fun _ _ _ => .finish same)

/-- Pairs of trees that are the same up to the places of their parts. -/
def SamePair (parts parts' : SyntaxTree × SyntaxTree) : Prop :=
  parts.1.Same parts'.1 ∧ parts.2.Same parts'.2

theorem functionRest_tracks (track : rules.Track n rules') (isAsync isGenerator : Bool) :
    Tracks n [] 1 t context c SamePair (functionRest rules isAsync isGenerator)
      (functionRest rules' isAsync isGenerator) := by
  refine .insideFunction fun _ => .allowingIn ?_
  refine ((parameters_tracks track).lower.weaken (Nat.le_refl n) c.lead_pos).bindLead
    fun _ _ _ same => ?_
  exact .bind (block_tracks track).lower fun _ _ _ same' => .pure ⟨same, same'⟩

/-- What follows a name that may be left out unless it is required. -/
theorem optionalName_tracks {nameRequired : Bool} {cause : ParseCause}
    {f g : SyntaxTree → Parser SyntaxTree}
    (h : ∀ name name' c, name.Same name' →
      Tracks n [] 0 t context c Tree.Same (f name) (g name')) :
    Tracks n [] 0 t context c Tree.Same
      (sees .identifier >>= fun named =>
        if named then takeLeaf >>= f
        else if nameRequired then current >>= fun token => fail cause token >>= f
        else pure .missing >>= f)
      (sees .identifier >>= fun named =>
        if named then takeLeaf >>= g
        else if nameRequired then current >>= fun token => fail cause token >>= g
        else pure .missing >>= g) := by
  refine .seesOptional nofun (fun kind => ?_) fun _ => ?_
  · exact .mid (.takeLeaf (by simp [kind]) (by rw [kind]; rfl) fun _ same => h _ _ _ same)
  · cases nameRequired with
    | true => exact .currentAny fun _ _ => .failHere
    | false => exact h _ _ _ (.refl _)

/-- The word `function`, with the word `async` before it or without. -/
private theorem functionWord_tracks {f g : Bool → Token → Parser SyntaxTree}
    (h : ∀ isAsync token token' c, Tracks n [] 0 t context c Tree.Same (f isAsync token)
      (g isAsync token')) :
    Tracks (n + 1) [] c.lead t context c Tree.Same
      (acceptWord "async" >>= fun isAsync => expect .kwFunction >>= f isAsync)
      (acceptWord "async" >>= fun isAsync => expect .kwFunction >>= g isAsync) := by
  cases seen : c.current.isWord "async" with
  | true =>
    refine .start (by simp [isWord_kind seen]) (.takeWord seen rfl ?_)
    exact .mid (.expect nofun rfl fun _ _ _ => h _ _ _ _)
  | false => exact .skipWord seen (.expectStart nofun nofun rfl fun _ _ _ => h _ _ _ _)

theorem function_tracks (track : rules.Track n rules') (label : Label) (nameRequired : Bool) :
    Tracks (n + 1) [] c.lead t context c Tree.Same (function rules label nameRequired)
      (function rules' label nameRequired) := by
  refine .here fun _ _ => functionWord_tracks fun isAsync _ _ _ => ?_
  refine .acceptSame nofun nofun rfl fun isGenerator _ => ?_
  refine optionalName_tracks fun _ _ _ named => ?_
  exact .bind (functionRest_tracks track isAsync isGenerator) fun _ _ _ same =>
    .finish (.cons named (.cons same.1 (.single same.2)))

/-- The part of `arrow` behind the word `async`, or without it. -/
def arrowBehind (rules : Rules) (start : Location) (isAsync : Bool) : Parser SyntaxTree := do
  let parameters ←
    if ← sees .identifier then
      let parameterStart ← here
      let parameter ← takeLeaf
      finish .params [parameter] parameterStart
    else parameters rules
  let _ ← expect .arrow
  let body ← insideFunction isAsync false do
    if ← sees .leftBrace then block rules else rules .assignment
  finish .arrow [parameters, body] start

/-- The part of `arrow` behind its first look. -/
def arrowFrom (rules : Rules) (start : Location) : Parser SyntaxTree := do
  let isAsync ← if (← peek 1).kind != .arrow then acceptWord "async" else pure false
  arrowBehind rules start isAsync

theorem arrow_eq : arrow rules = here >>= arrowFrom rules := by
  rw [arrow]
  congr 1

theorem arrowFrom_eq (start : Location) (d : Cursor) : arrowFrom rules start context d =
    if d.current.isWord "async" && (d.peek 1).kind != .arrow then
      arrowBehind rules start true context d.next
    else arrowBehind rules start false context d := by
  rw [arrowFrom, peek_bind]
  by_cases arrows : (d.peek 1).kind = .arrow
  · simp [arrows, pure_bind']
  · simp [arrows, acceptWord_bind]

/-- The arrow and the body behind the parameters. -/
private theorem arrowBody_tracks (track : rules.Track n rules') {isAsync : Bool}
    {parameters parameters' : SyntaxTree} {start start' : Location}
    (same : parameters.Same parameters') :
    Tracks n [] 1 t context c Tree.Same
      (do
        let _ ← expect .arrow
        let body ← insideFunction isAsync false do
          if ← sees .leftBrace then block rules else rules .assignment
        finish .arrow [parameters, body] start)
      (do
        let _ ← expect .arrow
        let body ← insideFunction isAsync false do
          if ← sees .leftBrace then block rules' else rules' .assignment
        finish .arrow [parameters', body] start') := by
  refine .mid (.expect nofun rfl fun _ _ _ => ?_)
  refine .bind (k := 1) (.insideFunction fun _ => ?_) fun _ _ _ same' =>
    .finish (.cons same (.single same'))
  refine .sees (.inl Nat.one_pos) (fun _ => ?_) fun _ => track.free .assignment rfl
  exact (block_tracks track).lower.weaken (Nat.le_refl n) (Cursor.lead_pos _)

theorem arrowBehind_name_tracks (track : rules.Track n rules') (start start' : Location)
    (isAsync : Bool) (name : c.current.kind = .identifier) :
    Tracks (n + 1) [] 2 t context c Tree.Same (arrowBehind rules start isAsync)
      (arrowBehind rules' start' isAsync) := by
  refine .sees (.inl Nat.two_pos) (fun _ => .here fun _ _ => ?_) fun other => (other name).elim
  refine .takeLeaf (by simp [name]) (by rw [name]; rfl) fun _ same => ?_
  exact .finishBind rfl (.single same) fun _ _ same => arrowBody_tracks track same

theorem arrowBehind_tracks (track : rules.Track n rules') (start start' : Location)
    (isAsync : Bool) :
    Tracks (n + 1) [] c.lead t context c Tree.Same (arrowBehind rules start isAsync)
      (arrowBehind rules' start' isAsync) := by
  by_cases name : c.current.kind = .identifier
  · exact .start (by simp [name])
      ((arrowBehind_name_tracks track start start' isAsync name).weaken (Nat.le_refl _) (Nat.le_succ 1))
  · refine .sees (.inl c.lead_pos) (fun name' => (name name').elim) fun _ => ?_
    exact .first (parameters_tracks track) c.lead_pos fun _ _ _ same =>
      (arrowBody_tracks track same).weaken (Nat.le_refl n) (Nat.zero_le 1)

/-- The word `async` in front of the parameters, with something else than the arrow behind it. -/
private theorem arrowFrom_async_tracks {start start' : Location}
    (async : c.current.isWord "async" = true) (goes : (c.peek 1).kind ≠ .arrow)
    (h : Tracks n [] (k + 1) t context c.next Tree.Same (arrowBehind rules start true)
      (arrowBehind rules' start' true)) :
    Tracks (n + 1) [] (k + 2) t context c Tree.Same (arrowFrom rules start)
      (arrowFrom rules' start') := by
  have taken : Tracks (n + 1) [] (k + 2) t context c Tree.Same
      (acceptWord "async" >>= fun _ => arrowBehind rules start true)
      (acceptWord "async" >>= fun _ => arrowBehind rules' start' true) := .takeWord async rfl h
  refine .congr ?_ (fun lead _ aligned => ?_) taken
  · rw [arrowFrom_eq, if_pos (by simp [async, goes]), acceptWord_bind, if_pos async]
  · have lead₂ : 2 ≤ _ := Nat.le_trans (Nat.le_add_left 2 k) lead
    have async' := ((aligned.ofLead (Nat.lt_of_lt_of_le Nat.two_pos lead₂)).isWord "async").trans
      async
    have goes' : _ ≠ TokenKind.arrow := (aligned.peekAlike lead₂).kind ▸ goes
    rw [arrowFrom_eq, if_pos (by simp [async', goes']), acceptWord_bind, if_pos async']

/-- An arrow function with a single name behind the word `async`. -/
theorem arrow_async_tracks (track : rules.Track n rules')
    (async : c.current.isWord "async" = true) (name : (c.peek 1).kind = .identifier) :
    Tracks (n + 1) [] 3 t context c Tree.Same (arrow rules) (arrow rules') := by
  rw [arrow_eq, arrow_eq]
  exact .here fun _ _ => arrowFrom_async_tracks async (by simp [name])
    (arrowBehind_name_tracks track _ _ _ (by rwa [← c.peek_one])).lower

theorem arrow_tracks (track : rules.Track n rules') :
    Tracks (n + 1) [] c.lead t context c Tree.Same (arrow rules) (arrow rules') := by
  rw [arrow_eq, arrow_eq]
  refine .here fun start start' => ?_
  cases async : c.current.isWord "async" with
  | true =>
    refine .start (by simp [isWord_kind async]) (.weaken (k := 2) ?_ (Nat.le_refl _) (Nat.le_succ 1))
    by_cases goes : (c.peek 1).kind = .arrow
    · refine .congr ?_ (fun lead _ aligned => ?_)
        (arrowBehind_name_tracks track start start' false (isWord_kind async))
      · rw [arrowFrom_eq, if_neg (by simp [goes])]
      · have goes' : _ = TokenKind.arrow := (aligned.peekAlike lead).kind.trans goes
        rw [arrowFrom_eq, if_neg (by simp [goes'])]
    · exact arrowFrom_async_tracks async goes
        ((arrowBehind_tracks track _ _ _).lower.weaken (Nat.le_refl n) (Cursor.lead_pos _))
  | false =>
    refine .congr ?_ (fun lead _ aligned => ?_) (arrowBehind_tracks track start start' false)
    · rw [arrowFrom_eq, async, Bool.false_and, if_neg Bool.false_ne_true]
    · have async' := ((aligned.ofLead (Nat.lt_of_lt_of_le c.lead_pos lead)).isWord "async").trans
        async
      rw [arrowFrom_eq, async', Bool.false_and, if_neg Bool.false_ne_true]

theorem fieldRest_tracks (track : rules.Track n rules') {key key' : SyntaxTree}
    {start start' : Location} (same : key.Same key') :
    Tracks n [] 0 false context c Tree.Same (fieldRest rules key start)
      (fieldRest rules' key' start') := by
  have behind (value value' : SyntaxTree) (c : Cursor) (same' : value.Same value') :
      Tracks n [] 0 false context c Tree.Same (do endStatement; finish .field [key, value] start)
        (do endStatement; finish .field [key', value'] start') :=
    .bind .endStatement fun _ _ _ _ => .finish (.cons same (.single same'))
  refine .accept nofun nofun rfl (fun _ => .within ?_) fun _ => behind _ _ _ (.refl .missing)
  exact .bind (.insideFunction fun _ => .allowingIn (track.free .assignment rfl)) behind

theorem methodOrField_tracks (track : rules.Track n rules') {start start' : Location} :
    Tracks n [] 1 false context c Tree.Same (methodOrField rules start)
      (methodOrField rules' start') := by
  refine methodModifiers_tracks fun modifiers _ => ?_
  refine .bindLead (propertyKey_tracks track) fun _ _ _ same => ?_
  refine .seesOptional nofun (fun _ => ?_) fun _ => fieldRest_tracks track same
  exact (functionRest_tracks track _ _).bindLead fun _ _ _ same' =>
    .finish (.cons same (.cons same'.1 (.single same'.2)))

/-- The part of `classMember` behind the word `static`, or without it. -/
def memberBehind (rules : Rules) (start : Location) (isStatic : Bool) : Parser SyntaxTree := do
  let opensBlock ← sees .leftBrace
  if isStatic && opensBlock then
    let body ← insideFunction false false (block rules)
    finish .staticBlock body.children start
  else methodOrField rules start

theorem classMember_eq : classMember rules = here >>= fun start => isModifier >>= fun free =>
    (if free then acceptWord "static" else pure false) >>= memberBehind rules start := by
  simp only [classMember, bind_ite]
  rfl

theorem memberBehind_tracks (track : rules.Track n rules') (start start' : Location)
    (isStatic : Bool) :
    Tracks n [] 1 false context c Tree.Same (memberBehind rules start isStatic)
      (memberBehind rules' start' isStatic) := by
  refine .seesSame (.inl Nat.one_pos) fun opensBlock => ?_
  split
  · refine .bindLead (.insideFunction fun _ =>
      (block_tracks track).lower.weaken (Nat.le_refl n) c.lead_pos) fun _ _ _ same => ?_
    exact .finish same.children
  · exact methodOrField_tracks track

theorem classMember_tracks (track : rules.Track n rules') :
    Tracks n [] 1 false context c Tree.Same (classMember rules) (classMember rules') := by
  rw [classMember_eq, classMember_eq]
  refine .here fun start start' => ?_
  have static (rules : Rules) (start : Location) (d : Cursor) :
      (isModifier >>= fun free => (if free then acceptWord "static" else pure false) >>=
        memberBehind rules start) context d =
      if modifiesAs "static" false d then memberBehind rules start true context d.next
      else memberBehind rules start false context d := by
    rw [isModifier_bind, modifiesAs]
    by_cases free : modifies d = true
    · simp [free, acceptWord_bind]
    · simp [free, pure_bind']
  exact modifier_tracks "static" false (static rules start) (static rules' start')
    (memberBehind_tracks track _ _ _) (memberBehind_tracks track _ _ _)

theorem classBody_tracks (track : rules.Track n rules') :
    Tracks n [] 1 t context c Tree.Same (classBody rules) (classBody rules') := by
  refine .here fun _ _ => .mid (.expect nofun rfl fun _ _ _ => ?_)
  refine .bindTight (.collect (.inl rfl) fun _ _ => ?_) fun _ _ _ same => ?_
  · refine .acceptIf (.inr (.inr rfl)) nofun rfl (fun _ => .pure .nil) fun _ => ?_
    exact .single ((classMember_tracks track).tighten Nat.one_pos)
  · exact .mid (.expect nofun rfl fun _ _ _ => .finish same)

theorem classDefinition_tracks (track : rules.Track n rules') (label : Label)
    (nameRequired : Bool) :
    Tracks (n + 1) [] c.lead t context c Tree.Same (classDefinition rules label nameRequired)
      (classDefinition rules' label nameRequired) := by
  refine .here fun _ _ => .expectStart nofun nofun rfl fun _ _ _ => ?_
  refine optionalName_tracks fun _ _ _ named => ?_
  refine .optional nofun nofun rfl (fun _ => track.free .leftHand rfl) fun _ _ _ base => ?_
  exact .bind (classBody_tracks track) fun _ _ _ same =>
    .finish (.cons named (.cons base (.single same)))

end Uncurry.Grammar
