import Uncurry.Proofs.Grafting.Parsing
import Uncurry.Proofs.Progress.Bindings

/-!
# Names, patterns, functions and classes with a graft

A name that is bound, or that names a member, is no callee, so it is not the name that makes way.
-/
namespace Uncurry.Grammar

open Uncurry.Parser
open Uncurry.Graft (Grafts GraftsTree GraftsTrees)

variable {g : Graft} {rules rules' : Rules} {demand : Prop} {context : ParseContext} {c : Cursor}

theorem bindingIdentifier_grafts :
    g.GraftsTree True context c bindingIdentifier bindingIdentifier := by
  refine .current fun token like => ?_
  rw [like.kind]
  split
  · exact .takeLeaf
  · exact .fails

theorem isName_resembles {token other : Token} (h : token.Resembles other) :
    isName other = isName token := by
  rw [isName, isName, h.kind]

theorem memberName_grafts : g.GraftsTree True context c memberName memberName := by
  refine .current fun token like => ?_
  rw [isName_resembles like, like.kind]
  split
  · exact .takeName
  split
  · exact .takeLeaf
  · exact .fails

theorem exportName_grafts : g.GraftsTree True context c exportName exportName :=
  .sees (fun _ => .takeLeaf) fun _ => memberName_grafts

theorem propertyKey_grafts (grafted : rules.Grafted g rules') :
    g.GraftsTree True context c (propertyKey rules) (propertyKey rules') := by
  refine .current fun token like => ?_
  rw [isName_resembles like, like.kind]
  split
  · exact .takeName
  split
  · exact .takeLeaf
  split
  · rename_i kind
    refine .here (.advance (Graft.uncalled_of_kind (by rw [kind]; nofun)) ?_)
    refine .bind (.allowingIn (grafted.rule .assignment _ _)) fun _ _ _ => ?_
    exact .expect nofun fun _ => .finish rfl nofun (by simp)
  · exact .fails

section

variable {α : Type} {good : α → Cursor → Prop} {act : α → α} {p q p' q' p'' q'' : Parser α}

/-- A called name modifies nothing, and neither does what makes way for it. -/
theorem modifier_grafts (word : String) (known : word ∈ contextualWords) (oneLine : Bool)
    (here : ∀ d, p context d = if modifiesAs word oneLine d then p' context d.next
      else p'' context d)
    (there : ∀ d, q context d = if modifiesAs word oneLine d then q' context d.next
      else q'' context d)
    (yes : g.Grafts demand context c.next good act p' q')
    (no : g.Grafts demand context c good act p'' q'') : g.Grafts demand context c good act p q := by
  have same {d : Cursor} (beside : g.Beside c d) :
      modifiesAs word oneLine d = modifiesAs word oneLine c := by
    have pair := beside.word_pair _ known (fun next =>
      !([.leftParen, .assign, .semicolon, .rightBrace, .colon, .comma].contains next.kind) &&
        !(oneLine && next.newlineBefore))
      (fun like => by simp only [like.kind, like.newlineBefore])
      fun _ called => by simp [called.2]
    simpa only [modifiesAs, modifies, Bool.and_assoc] using pair
  cases seen : modifiesAs word oneLine c with
  | true =>
    have uncalled : ¬g.Called c := fun called => by simp [modifiesAs, modifies, called.2] at seen
    refine .taking (f := fun _ => p') (k := fun _ => q') uncalled
      ((here c).trans (if_pos seen)) (fun beside _ => ?_) yes
    rw [there, if_pos ((same beside).trans seen)]
  | false =>
    refine .congr ((here c).trans (if_neg (by simp [seen]))) (fun beside => ?_) no
    rw [there, same beside, seen, if_neg Bool.false_ne_true]

theorem methodModifiers_grafts {f k : MethodModifiers → Parser α}
    (h : ∀ modifiers c, modifiers.label ≠ .call →
      g.Grafts demand context c good act (f modifiers) (k modifiers)) :
    g.Grafts demand context c good act (methodModifiers >>= f) (methodModifiers >>= k) := by
  have accessor (isAsync isGenerator : Bool) (c : Cursor) : g.Grafts demand context c good act
      (accessorModifiers isAsync isGenerator >>= f)
      (accessorModifiers isAsync isGenerator >>= k) := by
    let behindGet (f : MethodModifiers → Parser α) : Parser α := fun context d =>
      if modifiesAs "set" false d then f ⟨.setter, isAsync, isGenerator⟩ context d.next
      else f ⟨.method, isAsync, isGenerator⟩ context d
    have second : g.Grafts demand context c good act (behindGet f) (behindGet k) :=
      modifier_grafts "set" (by decide) false (fun _ => rfl) (fun _ => rfl)
        (h ⟨.setter, _, _⟩ _ nofun) (h ⟨.method, _, _⟩ _ nofun)
    exact modifier_grafts "get" (by decide) false (accessorModifiers_bind f _ _)
      (accessorModifiers_bind k _ _) (h ⟨.getter, _, _⟩ _ nofun) second
  have behind (isAsync : Bool) (c : Cursor) : g.Grafts demand context c good act
      (accept .star >>= fun isGenerator => accessorModifiers isAsync isGenerator >>= f)
      (accept .star >>= fun isGenerator => accessorModifiers isAsync isGenerator >>= k) :=
    .accept nofun (fun _ => accessor _ _ _) fun _ => accessor _ _ _
  exact modifier_grafts "async" (by decide) true (methodModifiers_bind f)
    (methodModifiers_bind k) (behind _ _) (behind _ _)

end

theorem restElement_grafts (grafted : rules.Grafted g rules') :
    g.GraftsTree True context c (restElement rules) (restElement rules') :=
  .here <| .expect nofun fun _ => .bind (grafted.rule .bindingTarget _ _) fun _ _ _ =>
    .finish rfl nofun (by simp)

theorem patternProperty_grafts (grafted : rules.Grafted g rules') :
    g.GraftsTree True context c (patternProperty rules) (patternProperty rules') := by
  refine .here (.accept nofun (fun _ => ?_) fun _ => ?_)
  · exact .bind bindingIdentifier_grafts fun _ _ _ => .finish rfl nofun (by simp)
  refine .seesSame fun mayStandAlone => .bind (propertyKey_grafts grafted) fun key c' _ => ?_
  refine .accept nofun (fun _ => ?_) fun _ => ?_
  · exact .bind (grafted.rule .bindingElement _ _) fun _ _ _ => .finish rfl nofun (by simp)
  cases mayStandAlone with
  | true =>
    refine .accept nofun (fun _ => ?_) fun _ => .finish rfl nofun (by simp)
    refine .bind (.allowingIn (grafted.rule .assignment _ _)) fun initial _ _ => ?_
    refine .finishBind rfl (.finish rfl nofun fun all => ?_)
    have pattern := (all _ (List.mem_cons_of_mem _ List.mem_cons_self)).children nofun
    exact ⟨⟨trivial, all _ List.mem_cons_self⟩, pattern _ (by simp)⟩
  | false => exact .current fun _ _ => .fails

theorem objectPattern_grafts (grafted : rules.Grafted g rules') :
    g.GraftsTree True context c (objectPattern rules) (objectPattern rules') := by
  refine .here (.expect nofun fun _ => ?_)
  refine .bind (.collect fun _ _ => .listed (patternProperty_grafts grafted)) fun _ _ _ => ?_
  exact .expect nofun fun _ => .finish rfl nofun (by simp)

theorem arrayElement_grafts {element element' : Parser SyntaxTree}
    (h : ∀ c, g.GraftsTree True context c element element') :
    g.GraftsTrees True context c (arrayElement element) (arrayElement element') :=
  .accept nofun (fun _ => .pure rfl fun _ => trivial) fun _ => .listed (h c)

theorem restOr_grafts (grafted : rules.Grafted g rules') {other other' : Parser SyntaxTree}
    (h : g.GraftsTree True context c other other') :
    g.GraftsTree True context c (do if ← sees .ellipsis then restElement rules else other)
      (do if ← sees .ellipsis then restElement rules' else other') :=
  .sees (fun _ => restElement_grafts grafted) fun _ => h

theorem arrayPattern_grafts (grafted : rules.Grafted g rules') :
    g.GraftsTree True context c (arrayPattern rules) (arrayPattern rules') := by
  refine .here (.expect nofun fun _ => ?_)
  refine .bind (.collect fun _ _ => arrayElement_grafts fun _ =>
    restOr_grafts grafted (grafted.rule .bindingElement _ _)) fun _ _ _ => ?_
  exact .expect nofun fun _ => .finish rfl nofun (by simp)

theorem bindingTarget_grafts (grafted : rules.Grafted g rules') :
    g.GraftsTree True context c (bindingTarget rules) (bindingTarget rules') := by
  refine .current fun token like => ?_
  rw [like.kind]
  split
  · exact objectPattern_grafts grafted
  · exact arrayPattern_grafts grafted
  · exact bindingIdentifier_grafts

theorem bindingElement_grafts (grafted : rules.Grafted g rules') :
    g.GraftsTree True context c (bindingElement rules) (bindingElement rules') := by
  refine .here (.bind (bindingTarget_grafts grafted) fun _ _ _ => ?_)
  refine .accept nofun (fun _ => ?_) fun _ => .pure rfl fun apt => ⟨trivial, apt⟩
  exact .bind (.allowingIn (grafted.rule .assignment _ _)) fun _ _ _ => .finish rfl nofun (by simp)

theorem block_grafts (grafted : rules.Grafted g rules') :
    g.GraftsTree True context c (block rules) (block rules') := by
  refine .here (.expect nofun fun _ => ?_)
  refine .bind (.allowingIn (.collect fun _ _ => .single (grafted.rule .item _ _))) fun _ _ _ => ?_
  exact .expect nofun fun _ => .finish rfl nofun (by simp)

theorem parameters_grafts (grafted : rules.Grafted g rules') :
    g.GraftsTree True context c (parameters rules) (parameters rules') := by
  refine .here (.expect nofun fun _ => ?_)
  refine .bind (.allowingIn (.collect fun _ _ => .listed
    (restOr_grafts grafted (grafted.rule .bindingElement _ _)))) fun _ _ _ => ?_
  exact .expect nofun fun _ => .finish rfl nofun (by simp)

theorem functionRest_grafts (grafted : rules.Grafted g rules') (isAsync isGenerator : Bool) :
    g.Grafts True context c (fun parts _ => g.Apt parts.1 ∧ g.Apt parts.2)
      (Prod.map g.tree g.tree) (functionRest rules isAsync isGenerator)
      (functionRest rules' isAsync isGenerator) := by
  refine .insideFunction fun _ => .allowingIn (.bind (parameters_grafts grafted) fun _ _ _ => ?_)
  exact .bind (block_grafts grafted) fun _ _ _ => .pure rfl fun apt => ⟨⟨trivial, apt.1⟩, apt.2⟩

/-- What follows a name that may be left out unless it is required. -/
theorem optionalName_grafts {nameRequired : Bool} {cause : ParseCause}
    {f k : SyntaxTree → Parser SyntaxTree}
    (h : ∀ name c, g.GraftsTree (g.Apt name) context c (f name) (k (g.tree name))) :
    g.GraftsTree True context c
      (sees .identifier >>= fun named =>
        if named then takeLeaf >>= f
        else if nameRequired then current >>= fun token => fail cause token >>= f
        else pure .missing >>= f)
      (sees .identifier >>= fun named =>
        if named then takeLeaf >>= k
        else if nameRequired then current >>= fun token => fail cause token >>= k
        else pure .missing >>= k) := by
  refine .sees (fun _ => ?_) fun _ => ?_
  · exact .bind .takeLeaf fun name c' _ => (h name c').imp fun apt => ⟨trivial, apt⟩
  · cases nameRequired with
    | true => exact .current fun _ _ => .fails
    | false => exact (h .missing c).imp fun _ => trivial

theorem function_grafts (grafted : rules.Grafted g rules') (label : Label) (other : label ≠ .call)
    (nameRequired : Bool) : g.GraftsTree True context c (function rules label nameRequired)
      (function rules' label nameRequired) := by
  have shuns : (expect .kwFunction).ShunsParen := fun _ _ _ taken paren => by
    rw [← bind_pure (expect .kwFunction), expect_bind, expected_ok, paren] at taken
    cases taken.1
  refine .here (.acceptWordSame (by decide) (fun _ _ _ taken _ =>
    Graft.uncalled_of_shuns shuns taken) fun isAsync _ => .expect nofun fun _ => ?_)
  refine .acceptSame nofun fun isGenerator _ => optionalName_grafts fun _ _ => ?_
  exact .bind (functionRest_grafts grafted _ _) fun _ _ _ => .finish rfl other (by simp)

theorem arrowBehind_grafts (grafted : rules.Grafted g rules') (start : Location)
    (isAsync : Bool) : g.GraftsTree True context c (arrowBehind rules start isAsync)
      (arrowBehind rules' start isAsync) := by
  have body (parameters : SyntaxTree) (c : Cursor) : g.GraftsTree (g.Apt parameters) context c
      (do
        let _ ← expect .arrow
        let body ← insideFunction isAsync false do
          if ← sees .leftBrace then block rules else rules .assignment
        finish .arrow [parameters, body] start)
      (do
        let _ ← expect .arrow
        let body ← insideFunction isAsync false do
          if ← sees .leftBrace then block rules' else rules' .assignment
        finish .arrow [g.tree parameters, body] start) := by
    exact .expect nofun fun _ => .bind (.insideFunction fun _ => .sees
      (fun _ => block_grafts grafted) fun _ => grafted.rule .assignment _ _) fun _ _ _ =>
      .finish rfl nofun (by simp)
  refine .sees (fun _ => .here (.bind .takeLeaf fun _ _ _ => ?_)) fun _ => ?_
  · exact .finishBind rfl ((body _ _).imp fun apt => ⟨trivial, apt.children nofun _ (by simp)⟩)
  · exact .bind (parameters_grafts grafted) fun _ _ _ =>
      (body _ _).imp fun apt => ⟨trivial, apt⟩

theorem arrowBehind_laid (build : rules.Build) {start : Location} {isAsync : Bool}
    {tree : SyntaxTree} {c' : Cursor}
    (h : arrowBehind rules start isAsync context c = .ok (tree, c')) :
    ∃ trees, tree = .node .arrow trees ⟨start, c'.stop⟩ ∧ c.Laid trees c' := by
  obtain ⟨names, c₁, laid, h⟩ := arrowParameters_bind build h
  simp only [expect_bind, expected_ok, insideFunction_apply, sees_bind, finish_ok, bind_ok] at h
  obtain ⟨arrow, body, c₂, parsed, -, rfl, rfl⟩ := h
  exact ⟨_, rfl, laid.laid.laid.trans ((Cursor.skip_laid (by simp [arrow])).trans
    ((block_builds build).ite (build .assignment) parsed).laid.laid)⟩

/-- The word `async` in front of an arrow function is no callee. -/
theorem arrow_uncalled (build : rules.Build) {d c' : Cursor} {tree : SyntaxTree}
    (beside : g.Beside c d) (parsed : arrow rules context c = .ok (tree, c')) (apt : g.Apt tree)
    (word : c.current.isWord "async" = true) : ¬g.Called c := by
  intro called
  rw [arrow_eq, here_bind, arrowFrom_eq, if_pos (by simp [word, called.2])] at parsed
  obtain ⟨trees, rfl, laid⟩ := arrowBehind_laid build parsed
  obtain ⟨_, _, ordered⟩ := beside.ordered
  have passes := Cursor.next_passes (by simp [isWord_kind word]) beside.ends
  have apart := Graft.apart_of_held ordered beside.ends (.refl c) passes (List.cons_ne_nil _ _) laid
    apt.held
  exact Graft.uncalled_of_names (apart.names List.mem_cons_self) called

theorem arrow_grafts (grafted : rules.Grafted g rules') :
    g.GraftsTree True context c (arrow rules) (arrow rules') := by
  refine .given fun taken apt => .beside fun beside => ?_
  have uncalled := arrow_uncalled grafted.build beside taken apt
  rw [arrow_eq, arrow_eq]
  refine .here ?_
  have same {d : Cursor} (beside : g.Beside c d) :
      (d.current.isWord "async" && (d.peek 1).kind != .arrow) =
        (c.current.isWord "async" && (c.peek 1).kind != .arrow) :=
    beside.word_pair "async" (by decide) (fun next => next.kind != .arrow)
      (fun like => by rw [like.kind]) fun word called => absurd called (uncalled word)
  cases async : c.current.isWord "async" && (c.peek 1).kind != .arrow with
  | true =>
    refine .taking (f := fun _ => arrowBehind rules c.current.start true)
      (k := fun _ => arrowBehind rules' c.current.start true)
      (uncalled (Bool.and_eq_true_iff.1 async).1) ?_ (fun beside _ => ?_)
      (arrowBehind_grafts grafted _ _)
    · rw [arrowFrom_eq, if_pos async]
    · rw [arrowFrom_eq, if_pos ((same beside).trans async)]
  | false =>
    refine .congr ?_ (fun beside => ?_) (arrowBehind_grafts grafted c.current.start false)
    · rw [arrowFrom_eq, async, if_neg Bool.false_ne_true]
    · rw [arrowFrom_eq, same beside, async, if_neg Bool.false_ne_true]

theorem fieldRest_grafts (grafted : rules.Grafted g rules') {key : SyntaxTree} {start : Location} :
    g.GraftsTree (g.Apt key) context c (fieldRest rules key start)
      (fieldRest rules' (g.tree key) start) := by
  have behind (value : SyntaxTree) (c : Cursor) : g.GraftsTree (g.Apt key ∧ g.Apt value) context c
      (do endStatement; finish .field [key, value] start)
      (do endStatement; finish .field [g.tree key, g.tree value] start) :=
    .bind .endStatement fun _ _ _ => .finish rfl nofun (by simp)
  refine .accept nofun (fun _ => .within ?_) fun _ => (behind .missing _).imp And.left
  exact .bind (.insideFunction fun _ => .allowingIn (grafted.rule .assignment _ _))
    fun value c' _ => behind value c'

theorem methodOrField_grafts (grafted : rules.Grafted g rules') {start : Location} :
    g.GraftsTree True context c (methodOrField rules start) (methodOrField rules' start) := by
  refine methodModifiers_grafts fun modifiers _ other => ?_
  refine .bind (propertyKey_grafts grafted) fun key c' _ => .sees (fun _ => ?_) fun _ => ?_
  · exact .bind (functionRest_grafts grafted _ _) fun _ _ _ => .finish rfl other (by simp)
  · exact (fieldRest_grafts grafted).imp fun apt => ⟨trivial, apt⟩

theorem memberBehind_grafts (grafted : rules.Grafted g rules') (start : Location)
    (isStatic : Bool)
    (starts : c.current.kind = .leftBrace → start.offset ≤ c.current.start.offset) :
    g.GraftsTree True context c (memberBehind rules start isStatic)
      (memberBehind rules' start isStatic) := by
  refine .sees (fun brace => ?_) fun _ => ?_
  · rw [Bool.and_true]
    split
    · refine .bind (.insideFunction fun _ => block_grafts grafted) fun body c' parsed => ?_
      obtain ⟨items, rfl, _⟩ := block_ok grafted.build parsed
      rw [Graft.tree_node]
      exact .finishApt rfl fun apt => ⟨trivial, .node (apt.children nofun) fun within =>
        apt.held ⟨Nat.le_trans (starts brace) within.1, within.2⟩⟩
    · exact methodOrField_grafts grafted
  · rw [Bool.and_false]
    exact methodOrField_grafts grafted

theorem classMember_grafts (grafted : rules.Grafted g rules') :
    g.GraftsTree True context c (classMember rules) (classMember rules') := by
  rw [classMember_eq, classMember_eq]
  refine .beside fun beside => .here ?_
  have static (rules : Rules) (start : Location) (d : Cursor) :
      (isModifier >>= fun free => (if free then acceptWord "static" else pure false) >>=
        memberBehind rules start) context d =
      if modifiesAs "static" false d then memberBehind rules start true context d.next
      else memberBehind rules start false context d := by
    rw [isModifier_bind, modifiesAs]
    by_cases free : modifies d = true
    · simp [free, acceptWord_bind]
    · simp [free, pure_bind']
  exact modifier_grafts "static" (by decide) false (static rules _) (static rules' _)
    (memberBehind_grafts grafted _ _ fun brace => beside.start_le (by simp [brace]))
    (memberBehind_grafts grafted _ _ fun _ => Nat.le_refl _)

theorem classBody_grafts (grafted : rules.Grafted g rules') :
    g.GraftsTree True context c (classBody rules) (classBody rules') := by
  refine .here (.expect nofun fun _ => .bind (.collect fun _ _ => ?_) fun _ _ _ => ?_)
  · refine .accept nofun (fun _ => .pure rfl fun _ => trivial) fun _ => ?_
    exact .single (classMember_grafts grafted)
  · exact .expect nofun fun _ => .finish rfl nofun (by simp)

theorem classDefinition_grafts (grafted : rules.Grafted g rules') (label : Label)
    (other : label ≠ .call) (nameRequired : Bool) :
    g.GraftsTree True context c (classDefinition rules label nameRequired)
      (classDefinition rules' label nameRequired) := by
  refine .here (.expect nofun fun _ => optionalName_grafts fun _ _ => ?_)
  refine .optional nofun (fun _ => grafted.rule .leftHand _ _) fun _ _ => ?_
  exact .bind (classBody_grafts grafted) fun _ _ _ => .finish rfl other (by simp +contextual)

end Uncurry.Grammar
