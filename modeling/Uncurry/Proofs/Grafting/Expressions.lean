import Uncurry.Proofs.Grafting.Bindings
import Uncurry.Proofs.Progress.Expressions
import Uncurry.Proofs.Syntax.Members

/-!
# Expressions with a graft

A called name is read as an operand, and the parenthesis behind it opens the first of its links. In
front of the graft the operand is the first of the names, the members behind it are its first links,
and the call is the next one.
-/
namespace Uncurry.Grammar

open Uncurry.Parser
open Uncurry.Graft (Grafts GraftsTree GraftsTrees Apt)

variable {g : Graft} {rules rules' : Rules} {demand : Prop} {context : ParseContext} {c d : Cursor}

section

variable {α β : Type} {good : α → Cursor → Prop} {act : α → β} {f : Bool → Parser α}
  {k : Bool → Parser β}

theorem seesAsyncFunction_grafts
    (h : ∀ b, g.Grafts demand context c good act (f b) (k b)) :
    g.Grafts demand context c good act (seesAsyncFunction >>= f) (seesAsyncFunction >>= k) := by
  refine .look (c.current.isWord "async" && (c.peek 1).kind = .kwFunction &&
    !(c.peek 1).newlineBefore) rfl (fun beside => ?_) (h _)
  have pair := beside.word_pair "async" (by decide)
    (fun next => next.kind = .kwFunction && !next.newlineBefore)
    (fun like => by simp only [like.kind, like.newlineBefore]) fun _ called => by simp [called.2]
  rw [Bool.and_assoc, ← pair, ← Bool.and_assoc]
  rfl

theorem seesAwait_grafts
    (yes : ¬g.Called c → g.Grafts demand context c good act (f true) (k true))
    (no : g.Grafts demand context c good act (f false) (k false)) :
    g.Grafts demand context c good act (seesAwait >>= f) (seesAwait >>= k) := by
  let tells (next : Token) : Bool := context.insideAsync ||
    !context.insideFunction && awaitOperandStarts.contains next.kind && !next.newlineBefore
  have uncalled (await : c.current.isWord "await" = true) : ¬g.Called c :=
    Graft.uncalled_of_operator await (by decide)
  refine .look (c.current.isWord "await" && tells (c.peek 1)) rfl (fun beside => ?_) ?_
  · rw [← beside.word_pair "await" (by decide) tells
      (fun like => by simp only [tells, like.kind, like.newlineBefore])
      fun await called => absurd called (uncalled await)]
    rfl
  · cases await : c.current.isWord "await" with
    | true => cases tells (c.peek 1) with
      | true => exact yes (uncalled await)
      | false => exact no
    | false => exact no

end

theorem inParens_grafts (grafted : rules.Grafted g rules') :
    g.GraftsTree True context c (inParens rules) (inParens rules') :=
  .expect nofun fun _ => .bind (.allowingIn (grafted.rule .expression _ _)) fun _ _ _ =>
    .expect nofun fun _ => .pure rfl fun apt => ⟨trivial, apt⟩

theorem paren_grafts (grafted : rules.Grafted g rules') :
    g.GraftsTree True context c (paren rules) (paren rules') :=
  .here <| .bind (inParens_grafts grafted) fun _ _ _ => .finish rfl nofun (by simp)

theorem spreadOrValue_grafts (grafted : rules.Grafted g rules') :
    g.GraftsTree True context c (spreadOrValue rules) (spreadOrValue rules') :=
  .here <| .accept nofun (fun _ => .bind (grafted.rule .assignment _ _) fun _ _ _ =>
    .finish rfl nofun (by simp)) fun _ => grafted.rule .assignment _ _

theorem arguments_grafts (grafted : rules.Grafted g rules') :
    g.GraftsTree True context c (arguments rules) (arguments rules') := by
  refine .here (.expect nofun fun _ => ?_)
  refine .bind (.allowingIn (.collect fun _ _ => .listed (spreadOrValue_grafts grafted)))
    fun _ _ _ => ?_
  exact .expect nofun fun _ => .finish rfl nofun (by simp)

theorem arrayLiteral_grafts (grafted : rules.Grafted g rules') :
    g.GraftsTree True context c (arrayLiteral rules) (arrayLiteral rules') := by
  refine .here (.expect nofun fun _ => ?_)
  refine .bind (.allowingIn (.collect fun _ _ => arrayElement_grafts fun _ =>
    spreadOrValue_grafts grafted)) fun _ _ _ => ?_
  exact .expect nofun fun _ => .finish rfl nofun (by simp)

theorem propertyRest_grafts (grafted : rules.Grafted g rules') {mayStandAlone : Bool}
    {key : SyntaxTree} {start : Location} :
    g.GraftsTree (g.Apt key) context c (propertyRest rules mayStandAlone key start)
      (propertyRest rules' mayStandAlone (g.tree key) start) := by
  refine .accept nofun (fun _ => ?_) fun _ => ?_
  · exact .bind (grafted.rule .assignment _ _) fun _ _ _ => .finish rfl nofun (by simp)
  rw [if_neg Bool.false_ne_true, if_neg Bool.false_ne_true]
  cases mayStandAlone with
  | true =>
    rw [if_pos rfl, if_pos rfl]
    exact .optional nofun (fun _ => grafted.rule .assignment _ _) fun _ _ =>
      .finish rfl nofun (by simp)
  | false => exact .current fun _ _ => .fails

theorem objectMember_grafts (grafted : rules.Grafted g rules') :
    g.GraftsTree True context c (objectMember rules) (objectMember rules') := by
  refine .here (.accept nofun (fun _ => ?_) fun _ => ?_)
  · exact .bind (grafted.rule .assignment _ _) fun _ _ _ => .finish rfl nofun (by simp)
  refine methodModifiers_grafts fun modifiers _ other => .seesSame fun mayStandAlone => ?_
  refine .bind (propertyKey_grafts grafted) fun key c' _ => .sees (fun _ => ?_) fun _ => ?_
  · exact .bind (functionRest_grafts grafted _ _) fun _ _ _ => .finish rfl other (by simp)
  · rw [if_neg Bool.false_ne_true, if_neg Bool.false_ne_true]
    split
    · exact .current fun _ _ => .fails
    · exact (propertyRest_grafts grafted).imp fun apt => ⟨trivial, apt⟩

theorem objectLiteral_grafts (grafted : rules.Grafted g rules') :
    g.GraftsTree True context c (objectLiteral rules) (objectLiteral rules') := by
  refine .here (.expect nofun fun _ => ?_)
  refine .bind (.allowingIn (.collect fun _ _ => .listed (objectMember_grafts grafted)))
    fun _ _ _ => ?_
  exact .expect nofun fun _ => .finish rfl nofun (by simp)

/-- The leaf of a token that is no identifier. -/
theorem tree_leaf_of_kind {token : Token} (other : token.kind ≠ .identifier) :
    g.tree (leaf token) = leaf token :=
  Graft.tree_of_ne fun same => other (by
    simp only [Graft.leaf, Tree.leaf.injEq, LeafKind.token.injEq] at same
    exact same.1)

theorem template_grafts (grafted : rules.Grafted g rules') :
    g.GraftsTree True context c (template rules) (template rules') := by
  refine .here (.sees (fun _ => .bind .takeLeaf fun _ _ _ => .finish rfl nofun (by simp))
    fun _ => .expect nofun fun head => ?_)
  refine .bind (.allowingIn (grafted.rule .expression _ _)) fun _ _ _ => ?_
  refine .bind (.collect fun c chunk => ?_) fun _ _ _ => .expect nofun fun tail => ?_
  · refine .bind .takeLeaf fun _ _ _ => ?_
    refine .bind (.allowingIn (grafted.rule .expression _ _)) fun _ _ _ => ?_
    exact .pure rfl (by simp)
  · refine .finish ?_ nofun (by simp +contextual)
    rw [List.map_append, List.map_cons, List.map_cons, List.map_cons, List.map_nil,
      tree_leaf_of_kind (by rw [head]; nofun), tree_leaf_of_kind (by rw [tail]; nofun)]

theorem importCall_grafts (grafted : rules.Grafted g rules') :
    g.GraftsTree True context c (importCall rules) (importCall rules') := by
  refine .here (.expect nofun fun _ => .accept nofun (fun _ => ?_) fun _ => ?_)
  · exact .bind memberName_grafts fun _ _ _ => .finish rfl nofun (by simp)
  · exact .bind (arguments_grafts grafted) fun _ _ _ => .finish rfl nofun (by simp)

theorem indexRest_grafts (grafted : rules.Grafted g rules') :
    g.GraftsTree True context c (indexRest rules) (indexRest rules') :=
  .bind (.allowingIn (grafted.rule .expression _ _)) fun _ _ _ => .expect nofun fun _ =>
    .pure rfl fun apt => ⟨trivial, apt⟩

theorem optionalLink_grafts (grafted : rules.Grafted g rules') {object : SyntaxTree}
    {start : Location} :
    g.GraftsTree (g.Apt object) context c (optionalLink rules start object)
      (optionalLink rules' start (g.tree object)) := by
  refine .sees (fun _ => ?_) fun _ => .accept nofun (fun _ => ?_) fun _ => ?_
  · exact .bind (arguments_grafts grafted) fun _ _ _ => .finish rfl nofun (by simp)
  · exact .bind (indexRest_grafts grafted) fun _ _ _ => .finish rfl nofun (by simp)
  · exact .bind memberName_grafts fun _ _ _ => .finish rfl nofun (by simp)

/-- What links have to be joined to: the name may be called, and else it does not occur but as a
callee. -/
def Held (g : Graft) (callsAllowed : Bool) (c : Cursor) (object : SyntaxTree) : Prop :=
  g.Apt object ∨ callsAllowed = true ∧ object = g.leaf ∧ c.current.kind = .leftParen

theorem Held.apt {object : SyntaxTree} (held : Held g false c object) : g.Apt object :=
  held.resolve_right fun called => Bool.false_ne_true called.1

/-- A node that is to be called is apt. -/
theorem Held.node {callsAllowed : Bool} {label : Label} {children : List SyntaxTree} {span : Span}
    (held : Held g callsAllowed c (.node label children span)) :
    g.Apt (.node label children span) :=
  held.resolve_right fun called => by cases called.2.1

/-- What is joined to an object goes on with the whole. -/
private theorem joined_grafts {callsAllowed : Bool} {c₀ : Cursor} {object : SyntaxTree}
    {start : Location} {part part' : Parser SyntaxTree} (label : Label) (other : label ≠ .call)
    (h : g.GraftsTree True context c part part') :
    g.Grafts (Held g callsAllowed c₀ object) context c
      (fun next c' => next.elim (g.Apt object) (Held g callsAllowed c')) (Option.map g.tree)
      (do let part ← part; return some (← finish label [object, part] start))
      (do let part ← part'; return some (← finish label [g.tree object, part] start)) := by
  refine .bind h fun _ _ _ => .finishBind rfl (.pure rfl fun held => ?_)
  have parts := (Held.node held).children other
  exact ⟨.inl (parts _ (by simp)), parts _ (by simp)⟩

theorem optionalLink_givesNodes {start : Location} {object : SyntaxTree} :
    (optionalLink rules start object).GivesNodes :=
  .bind fun _ => .ite (.bind fun _ => .finish) <| .bind fun _ => .ite (.bind fun _ => .finish) <|
    .bind fun _ => .finish

theorem link_grafts (grafted : rules.Grafted g rules') {callsAllowed : Bool} {start : Location}
    (c : Cursor) (object : SyntaxTree) :
    g.Grafts (Held g callsAllowed c object) context c
      (fun next c' => next.elim (g.Apt object) (Held g callsAllowed c')) (Option.map g.tree)
      (link rules callsAllowed start object) (link rules' callsAllowed start (g.tree object)) := by
  refine .current fun token like => ?_
  rw [like.kind]
  have plain (other : c.current.kind ≠ .identifier) := Graft.uncalled_of_kind (g := g) other
  generalize hk : c.current.kind = kind at plain
  split
  · exact .advance (plain nofun) (joined_grafts .member nofun memberName_grafts)
  · exact .advance (plain nofun) (joined_grafts .memberComputed nofun (indexRest_grafts grafted))
  · exact joined_grafts .taggedTemplate nofun (template_grafts grafted)
  · exact joined_grafts .taggedTemplate nofun (template_grafts grafted)
  · cases callsAllowed with
    | true =>
      refine .bind (arguments_grafts grafted) fun _ _ _ =>
        .finishBind rfl (.pure rfl fun held => ?_)
      obtain ⟨callee, values⟩ := (Held.node held).of_call
      exact ⟨callee.imp_right fun same => ⟨rfl, same, hk⟩, values⟩
    | false => exact .pure rfl .inl
  · cases callsAllowed with
    | true =>
      refine .advance (plain nofun) (.bindMet ((optionalLink_grafts grafted).imp .inl)
        fun tree c' parsed => .pure rfl fun held => ?_)
      obtain ⟨label, children, span, rfl⟩ := optionalLink_givesNodes parsed
      exact Held.node held
    | false => exact .pure rfl .inl
  · exact .pure rfl .inl

theorem construct_grafts (grafted : rules.Grafted g rules') :
    g.GraftsTree True context c (construct rules) (construct rules') := by
  refine .here (.expect nofun fun _ => .accept nofun (fun _ => ?_) fun _ => ?_)
  · exact .bind memberName_grafts fun _ _ _ => .finish rfl nofun (by simp)
  refine .here (.bind (grafted.rule .primary _ _) fun object c' _ => ?_)
  refine .bindMet ((Grafts.iterate _ (link_grafts grafted)).imp fun held => ⟨trivial, held.apt⟩)
    fun callee c'' _ => ?_
  refine .sees (fun _ => ?_) fun _ => .finish rfl nofun (by simp +contextual)
  exact .bind (arguments_grafts grafted) fun _ _ _ => .finish rfl nofun (by simp)

theorem primary_grafts (grafted : rules.Grafted g rules') :
    g.GraftsTree True context c (primary rules) (primary rules') := by
  refine .current fun token like => ?_
  rw [like.kind]
  split
  · refine seesAsyncFunction_grafts fun isFunction => ?_
    split
    · exact function_grafts grafted .functionExpr nofun false
    · exact .takeLeaf
  · exact template_grafts grafted
  · exact template_grafts grafted
  · exact paren_grafts grafted
  · exact arrayLiteral_grafts grafted
  · exact objectLiteral_grafts grafted
  · exact function_grafts grafted .functionExpr nofun false
  · exact classDefinition_grafts grafted .classExpr nofun false
  · exact importCall_grafts grafted
  · exact construct_grafts grafted
  · split
    · exact .takeLeaf
    · exact .fails

section

variable {tree : SyntaxTree} {c' : Cursor}

theorem function_givesNodes {label : Label} {nameRequired : Bool} :
    (function rules label nameRequired).GivesNodes :=
  .bind fun _ => .bind fun _ => .bind fun _ => .bind fun _ => .bind fun _ =>
    .ite (.bind fun _ => .bind fun _ => .finish) <|
      .ite (.bind fun _ => .bind fun _ => .bind fun _ => .finish) <|
        .bind fun _ => .bind fun _ => .finish

theorem classDefinition_givesNodes {label : Label} {nameRequired : Bool} :
    (classDefinition rules label nameRequired).GivesNodes := by
  have behind (start : Location) (name : SyntaxTree) : Parser.GivesNodes (do
      let base ← if ← accept .kwExtends then rules .leftHand else pure .missing
      let body ← classBody rules
      finish label [name, base, body] start) :=
    .bind fun _ => .ite (.bind fun _ => .bind fun _ => .finish) <|
      .bind fun _ => .bind fun _ => .finish
  exact .bind fun _ => .bind fun _ => .bind fun _ =>
    .ite (.bind fun _ => behind _ _) <|
      .ite (.bind fun _ => .bind fun _ => behind _ _) <| .bind fun _ => behind _ _

theorem template_givesNodes : (template rules).GivesNodes :=
  .bind fun _ => .bind fun _ => .ite (.bind fun _ => .finish) <|
    .bind fun _ => .bind fun _ => .bind fun _ => .bind fun _ => .finish

theorem construct_givesNodes : (construct rules).GivesNodes :=
  .bind fun _ => .bind fun _ => .bind fun _ => .ite (.bind fun _ => .finish) <|
    .bind fun _ => .bind fun _ => .bind fun _ => .bind fun _ =>
      .ite (.bind fun _ => .finish) <| .bind fun _ => .finish

/-- An operand is a single token or a node. -/
theorem primary_ok (h : primary rules context c = .ok (tree, c')) :
    tree = leaf c.current ∧ c' = c.next ∨
      ∃ label children span, tree = .node label children span := by
  rw [primary, current_bind] at h
  generalize c.current.kind = kind at h
  have leaf (h : takeLeaf context c = .ok (tree, c')) : tree = leaf c.current ∧ c' = c.next := by
    rw [takeLeaf_eq] at h
    cases h
    exact ⟨rfl, rfl⟩
  split at h
  · rw [seesAsyncFunction_bind] at h
    split at h
    · exact .inr (function_givesNodes h)
    · exact .inl (leaf h)
  · exact .inr (template_givesNodes h)
  · exact .inr (template_givesNodes h)
  · exact .inr (Parser.GivesNodes.bind (fun _ => .bind fun _ => .finish) h)
  · exact .inr (Parser.GivesNodes.bind
      (fun _ => .bind fun _ => .bind fun _ => .bind fun _ => .finish) h)
  · exact .inr (Parser.GivesNodes.bind
      (fun _ => .bind fun _ => .bind fun _ => .bind fun _ => .finish) h)
  · exact .inr (function_givesNodes h)
  · exact .inr (classDefinition_givesNodes h)
  · exact .inr (Parser.GivesNodes.bind (fun _ => .bind fun _ => .bind fun _ =>
      .ite (.bind fun _ => .finish) <| .bind fun _ => .finish) h)
  · exact .inr (construct_givesNodes h)
  · split at h
    · exact .inl (leaf h)
    · exact (fail_ok.1 h).elim

end

/-- The names behind points in front of a cursor are links. -/
theorem iterateFuel_links (rules : Rules) (context : ParseContext) (bound : Nat)
    {behind : List Token} (object : SyntaxTree) (members : List Text)
    (rest : d.rest = g.links members ++ behind)
    (last : d.last?.map Token.stop = some g.span.stop) :
    ∃ d', iterateFuel (link rules true g.span.start) (bound + members.length) object context d =
        iterateFuel (link rules true g.span.start) bound (members.foldl g.member object) context
          d' ∧
      d'.rest = behind ∧ d'.final = d.final ∧ d'.last?.map Token.stop = some g.span.stop := by
  induction members generalizing d object with
  | nil => exact ⟨d, rfl, rest, rfl, last⟩
  | cons member members ih =>
    have dot : d.current = ⟨.dot, Text.ofString ".", g.span, false⟩ := by
      rw [Cursor.current, rest]
      rfl
    have name : d.next.current = ⟨.identifier, member, g.span, false⟩ := by
      rw [Cursor.current, Cursor.next, rest]
      rfl
    have behind_member : d.next.next.rest = g.links members ++ behind := by
      rw [Cursor.next, Cursor.next, rest]
      rfl
    obtain ⟨d', run, rest', final, last'⟩ := ih (g.member object member) behind_member
      (congrArg (some <| Token.stop ·) name)
    refine ⟨d', ?_, rest', final, last'⟩
    rw [List.length_cons, ← Nat.add_assoc, iterateFuel,
      bind_eq_ok (link_member (by rw [dot]) (by rw [name])), name]
    exact run

/-- A dotted name is an operand with links, and more links may follow. -/
theorem leftHand_dotted (rules : Rules) (context : ParseContext) {newline : Bool}
    {behind : List Token} (rest : d.rest = g.head newline :: (g.links g.members ++ behind)) :
    ∃ d', leftHand rules context d = iterateFuel (link rules true g.span.start)
        (g.members.length + behind.length + 1) g.value context d' ∧
      d'.rest = behind ∧ d'.final = d.final ∧ d'.last?.map Token.stop = some g.span.stop := by
  have current : d.current = g.head newline := by
    rw [Cursor.current, rest]
    rfl
  have plain : d.current.isWord "async" = false := by
    have other : g.first ≠ Text.ofString "async" := Text.ne_word g.first_plain (by decide)
    simp [current, Graft.head, Token.isWord, other]
  have operand : primary rules context d = .ok (leaf d.current, d.next) :=
    primary_name (by rw [current]; rfl) (by rw [plain, Bool.false_and])
  have behind_head : d.next.rest = g.links g.members ++ behind := by
    rw [Cursor.next, rest]
    rfl
  obtain ⟨d', links, rest', final, last⟩ := iterateFuel_links rules context
    (g.members.length + behind.length + 1) (leaf d.current) g.members behind_head
    (congrArg (some <| Token.stop ·) current)
  have bound : d.next.rest.length + 1 =
      g.members.length + behind.length + 1 + g.members.length := by
    have links : (g.links g.members).length = 2 * g.members.length := by
      simp [Graft.links, Nat.mul_comm]
    rw [Cursor.next, rest, List.tail_cons, List.length_append, links]
    omega
  refine ⟨d', ?_, rest', final, last⟩
  have start : d.current.start = g.span.start := by rw [current]; rfl
  rw [leftHand, here_bind, bind_eq_ok operand, start]
  change iterateFuel _ (d.next.rest.length + 1) _ _ _ = _
  rw [bound, links, current]
  rfl

/-- In front of a called name the links behind it are read, and in front of the dotted name as many
more. -/
private theorem leftHand_called (grafted : rules.Grafted g rules') (called : g.Called c) :
    g.GraftsTree True context c (leftHand rules) (leftHand rules') where
  ok {a c'} taken apt := by
    refine ⟨trivial, fun {d} beside => ?_⟩
    obtain ⟨token, next, later, rest, named, paren, rest'⟩ := beside.called called
    have current : c.current = token := by rw [Cursor.current, rest]; rfl
    have shape := Graft.names_eq_true named
    have operand : primary rules context c = .ok (g.leaf, c.next) := by
      have leaf : Parser.leaf c.current = g.leaf := by rw [current, shape]; rfl
      rw [← leaf]
      exact primary_name (by rw [current, shape]) (by simp [called.2])
    have start : c.current.start = g.span.start := by rw [current, shape]; rfl
    rw [leftHand, here_bind, bind_eq_ok operand, start] at taken
    obtain ⟨d₁, dotted, rest₁, final₁, last₁⟩ := leftHand_dotted rules' context rest'
    have behind : g.Beside c.next d₁ := {
      rest := by
        have other : g.names next = false := Graft.names_of_kind (by rw [paren]; decide)
        rw [rest₁, Cursor.next, rest, List.tail_cons, Graft.tokens, other, Bool.false_and,
          if_neg Bool.false_ne_true]
      final := final₁.trans beside.final
      last := last₁.trans (congrArg (some <| Token.stop ·) (current.trans shape)).symm
      ends := beside.ends
      ordered := beside.ordered_next }
    have enough : c.next.rest.length + 1 ≤
        g.members.length + (next :: g.tokens later).length + 1 := by
      have := Graft.length_le_tokens (g := g) later
      rw [Cursor.next, rest, List.tail_cons, List.length_cons, List.length_cons]
      omega
    obtain ⟨_, run⟩ := (Grafts.iterateFuel (link_grafts grafted) enough).ok taken apt
    obtain ⟨d', run, beside'⟩ := run behind
    exact ⟨d', dotted.trans (Graft.tree_leaf (g := g) ▸ run), beside'⟩

theorem leftHand_grafts (grafted : rules.Grafted g rules') :
    g.GraftsTree True context c (leftHand rules) (leftHand rules') := by
  by_cases called : g.Called c
  · exact leftHand_called grafted called
  refine .here (.bind (primary_grafts grafted) fun operand c' parsed => ?_)
  refine (Grafts.iterate _ (link_grafts grafted)).imp fun held => ⟨trivial, ?_⟩
  refine held.resolve_right fun ⟨_, same, paren⟩ => called ?_
  obtain ⟨leaf, rfl⟩ | ⟨_, _, _, node⟩ := primary_ok parsed
  · refine ⟨?_, by rwa [Cursor.peek_one]⟩
    simp only [same, Graft.leaf, Parser.leaf, Tree.leaf.injEq, LeafKind.token.injEq] at leaf
    simp [Graft.names, ← leaf.1, ← leaf.2.1, ← leaf.2.2]
  · cases same.symm.trans node

theorem postfixExpression_grafts (grafted : rules.Grafted g rules') :
    g.GraftsTree True context c (postfixExpression rules) (postfixExpression rules') := by
  refine .here (.bind (leftHand_grafts grafted) fun operand _ _ => .current fun token like => ?_)
  rw [like.kind, like.newlineBefore]
  split
  · exact .bind .takeLeaf fun _ _ _ => .finish rfl nofun (by simp)
  · exact .pure rfl fun apt => ⟨trivial, apt⟩

theorem unary_grafts (grafted : rules.Grafted g rules') :
    g.GraftsTree True context c (unary rules) (unary rules') := by
  refine .here (.current fun token like => ?_)
  simp only [like.kind]
  split
  · exact .bind .takeLeaf fun _ _ _ => .bind (grafted.rule .unary _ _) fun _ _ _ =>
      .finish rfl nofun (by simp)
  split
  · exact .bind .takeLeaf fun _ _ _ => .bind (grafted.rule .unary _ _) fun _ _ _ =>
      .finish rfl nofun (by simp)
  refine seesAwait_grafts (fun uncalled => ?_) (postfixExpression_grafts grafted)
  exact .advance uncalled (.bind (grafted.rule .unary _ _) fun _ _ _ =>
    .finish rfl nofun (by simp))

theorem joinOperator_grafts (grafted : rules.Grafted g rules') {level : Nat} {start : Location}
    (c : Cursor) (left : SyntaxTree) :
    g.Grafts (g.Apt left) context c
      (fun next _ => next.elim (g.Apt left) g.Apt) (Option.map g.tree)
      (joinOperator rules level start left) (joinOperator rules' level start (g.tree left)) := by
  refine .current fun token like => ?_
  simp only [like.kind]
  cases level? c.current.kind with
  | none => exact .pure rfl id
  | some own =>
    refine .within ?_
    split
    · exact .pure rfl id
    refine .bind .takeLeaf fun _ _ _ => .bind (grafted.rule (.binary _) _ _) fun _ _ _ => ?_
    have other : (if isLogical c.current.kind then Label.logical else .binary) ≠ .call := by
      split <;> nofun
    exact .finishBind rfl (.pure rfl fun apt => by simpa [and_assoc] using apt.children other)

theorem binary_grafts (grafted : rules.Grafted g rules') (level : Nat) :
    g.GraftsTree True context c (binary rules level) (binary rules' level) :=
  .here <| .bind (unary_grafts grafted) fun _ _ _ =>
    (Grafts.iterate (fun _ => g.Apt) (joinOperator_grafts grafted)).imp
      fun apt => ⟨trivial, apt⟩

theorem conditional_grafts (grafted : rules.Grafted g rules') :
    g.GraftsTree True context c (conditional rules) (conditional rules') := by
  refine .here (.bind (binary_grafts grafted 0) fun _ _ _ => .accept nofun (fun _ => ?_)
    fun _ => .pure rfl fun apt => ⟨trivial, apt⟩)
  refine .bind (.allowingIn (grafted.rule .assignment _ _)) fun _ _ _ => .expect nofun fun _ => ?_
  exact .bind (grafted.rule .assignment _ _) fun _ _ _ => .finish rfl nofun (by simp +contextual)

theorem yieldExpression_grafts (grafted : rules.Grafted g rules')
    (uncalled : ¬g.Called c) :
    g.GraftsTree True context c (yieldExpression rules) (yieldExpression rules') := by
  refine .here (.advance uncalled (.accept nofun (fun _ => ?_)
    fun _ => .current fun token like => ?_))
  · exact .bind (grafted.rule .assignment _ _) fun _ _ _ => .finish rfl nofun (by simp)
  · rw [like.kind, like.newlineBefore]
    split
    · exact .finish rfl nofun fun _ => trivial
    · exact .bind (grafted.rule .assignment _ _) fun _ _ _ => .finish rfl nofun (by simp)

/-- No arrow function starts with a called name, and elsewhere the graft hides none. -/
theorem arrows_eq (h : g.Beside c d) (uncalled : (asyncNameArrow c || otherArrow c) = true →
      c.current.isWord "async" = true → ¬g.Called c) :
    (asyncNameArrow d || otherArrow d) = (asyncNameArrow c || otherArrow c) := by
  have whole : arrowBehindBracket 0 d.rest = arrowBehindBracket 0 c.rest := by
    rw [h.rest, Graft.arrowBehindBracket_tokens]
  have plain := h.peek_tells (fun next => next.kind = .arrow && !next.newlineBefore)
    (fun like => by simp only [like.kind, like.newlineBefore])
    fun other => by rcases other with other | other <;> simp [other]
  have known : "async" ∈ contextualWords := by decide
  cases async : c.current.isWord "async" with
  | false =>
    have async' := h.isWord known (by simp [async])
    simp only [asyncNameArrow, otherArrow, async, async', h.current.kind, whole, plain]
    rfl
  | true =>
    by_cases called : g.Called c
    · rw [Bool.eq_false_iff.2 fun seen => uncalled seen async called]
      have async' := h.isWord_called known called
      simp [asyncNameArrow, otherArrow, async', h.current.kind, isWord_kind async, plain, called.2]
    have async' := h.isWord known fun _ => called
    have next := h.peek called
    have behind : arrowBehindBracket 0 d.rest.tail = arrowBehindBracket 0 c.rest.tail := by
      have rest : d.rest.tail = g.tokens c.rest.tail := (h.next called).rest
      rw [rest, Graft.arrowBehindBracket_tokens]
    have beyond : decide ((d.peek 2).kind = .arrow) = decide ((c.peek 2).kind = .arrow) := by
      rw [Cursor.peek_two, Cursor.peek_two, ← Cursor.peek_one, ← Cursor.peek_one]
      exact (h.next called).peek_tells (fun next => next.kind = .arrow)
        (fun like => by simp only [like.kind])
        fun other => by rcases other with other | other <;> simp [other]
    simp only [asyncNameArrow, otherArrow, async', h.current.kind, next.kind, next.newlineBefore,
      whole, behind, beyond]

theorem assignment_grafts (grafted : rules.Grafted g rules') :
    g.GraftsTree True context c (assignment rules) (assignment rules') := by
  have plain : g.GraftsTree True context c
      (do
        let start ← here
        let left ← conditional rules
        if (← current).kind.isAssignment then
          let operator ← takeLeaf
          let right ← rules .assignment
          finish .assign [left, operator, right] start
        else return left)
      (do
        let start ← here
        let left ← conditional rules'
        if (← current).kind.isAssignment then
          let operator ← takeLeaf
          let right ← rules' .assignment
          finish .assign [left, operator, right] start
        else return left) := by
    refine .here (.bind (conditional_grafts grafted) fun _ _ _ => .current fun token like => ?_)
    rw [like.kind]
    split
    · exact .bind .takeLeaf fun _ _ _ => .bind (grafted.rule .assignment _ _) fun _ _ _ =>
        .finish rfl nofun (by simp +contextual)
    · exact .pure rfl fun apt => ⟨trivial, apt⟩
  refine .given fun taken apt => .beside fun beside => ?_
  have uncalled (arrows : (asyncNameArrow c || otherArrow c) = true) :
      c.current.isWord "async" = true → ¬g.Called c := by
    rw [assignment, bind_eq_ok seesArrow_eq, if_pos arrows] at taken
    exact arrow_uncalled grafted.build beside taken apt
  refine .look (asyncNameArrow c || otherArrow c) seesArrow_eq
    (fun beside => by rw [seesArrow_eq, arrows_eq beside uncalled]) ?_
  split
  · exact arrow_grafts grafted
  refine .within ?_
  have uncalled (word : c.current.isWord "yield" = true) : ¬g.Called c :=
    Graft.uncalled_of_operator word (by decide)
  refine .seesWord (by decide) uncalled (fun word => ?_) fun _ => ?_
  · cases context.insideGenerator with
    | true => exact yieldExpression_grafts grafted (uncalled word)
    | false => exact plain
  · cases context.insideGenerator with
    | true => exact plain
    | false => exact plain

/-- Elements with commas in front of them. -/
theorem behindCommas_grafts {element element' : Parser SyntaxTree}
    (h : ∀ c, g.GraftsTree True context c element element') :
    g.GraftsTrees True context c
      (collect (· != .comma) do let _ ← advance; return [← element])
      (collect (· != .comma) do let _ ← advance; return [← element']) := by
  refine .collect fun c comma => .advance (Graft.uncalled_of_kind ?_) (.single (h _))
  rw [show c.current.kind = .comma by simpa using comma]
  nofun

theorem expression_grafts (grafted : rules.Grafted g rules') :
    g.GraftsTree True context c (expression rules) (expression rules') := by
  refine .here (.bind (assignment_grafts grafted) fun _ _ _ => .sees (fun _ => ?_)
    fun _ => .pure rfl fun apt => ⟨trivial, apt⟩)
  exact .bind (behindCommas_grafts fun _ => grafted.rule .assignment _ _) fun _ _ _ =>
    .finish rfl nofun (by simp)

end Uncurry.Grammar
