import Uncurry.Proofs.Grafting.Apart

/-!
# Parsers with a graft in front of them

`Graft.Grafts` is what is proved of each construct of the grammar: what a parser makes of tokens in
which a name is called, a second one makes of the tokens with the graft, up to the graft. The name
has to be a callee in what comes of it, and so it has to be in all the parts; that is the demand
which the parts of a construct add up.
-/
namespace Uncurry

/-- A parser that gives nodes alone. -/
def Parser.GivesNodes (p : Parser SyntaxTree) : Prop :=
  ∀ ⦃context c tree c'⦄, p context c = .ok (tree, c') →
    ∃ label children span, tree = .node label children span

namespace Parser.GivesNodes

variable {α : Type}

theorem bind {p : Parser α} {f : α → Parser SyntaxTree} (h : ∀ a, (f a).GivesNodes) :
    (p >>= f).GivesNodes := fun _ _ _ _ taken =>
  let ⟨_, _, _, second⟩ := bind_ok.1 taken
  h _ second

theorem ite {b : Prop} [Decidable b] {p q : Parser SyntaxTree} (h : p.GivesNodes)
    (h' : q.GivesNodes) : (if b then p else q).GivesNodes := by
  split
  · exact h
  · exact h'

theorem finish {label : Label} {children : List SyntaxTree} {start : Location} :
    (Parser.finish label children start).GivesNodes := fun _ _ _ _ taken =>
  ⟨_, _, _, (finish_ok.1 taken).2.1.symm⟩

end Parser.GivesNodes

/-- A parser that starts with no parenthesis. -/
def Parser.ShunsParen {α : Type} (p : Parser α) : Prop :=
  ∀ ⦃context c x⦄, p context c = .ok x → c.current.kind ≠ .leftParen

namespace Graft

open Uncurry.Parser

variable {g : Graft} {α β γ δ : Type}

/-- Where something else than a parenthesis follows, nothing is called. -/
theorem uncalled_of_shuns {context : ParseContext} {c : Cursor} {p : Parser α} {f : α → Parser β}
    {x : β × Cursor} (shuns : p.ShunsParen) (taken : (p >>= f) context c.next = .ok x) :
    ¬g.Called c := fun called =>
  let ⟨_, _, first, _⟩ := bind_ok.1 taken
  shuns first called.paren

/-- A result that is good tells that the demand is met, and in front of every cursor beside the
first one a second parser has this result with the graft in it. -/
structure Grafts (g : Graft) (demand : Prop) (context : ParseContext) (c : Cursor)
    (good : α → Cursor → Prop) (act : α → β) (p : Parser α) (q : Parser β) : Prop where
  ok : ∀ {a c'}, p context c = .ok (a, c') → good a c' →
    demand ∧ ∀ {d}, g.Beside c d → ∃ d', q context d = .ok (act a, d') ∧ g.Beside c' d'

/-- Parsers of trees. -/
abbrev GraftsTree (g : Graft) (demand : Prop) (context : ParseContext) (c : Cursor)
    (p q : Parser SyntaxTree) : Prop :=
  g.Grafts demand context c (fun tree _ => g.Apt tree) g.tree p q

/-- Parsers of lists of trees. -/
abbrev GraftsTrees (g : Graft) (demand : Prop) (context : ParseContext) (c : Cursor)
    (p q : Parser (List SyntaxTree)) : Prop :=
  g.Grafts demand context c (fun trees _ => ∀ tree ∈ trees, g.Apt tree) (List.map g.tree) p q

namespace Grafts

variable {demand demand' : Prop} {context : ParseContext} {c c' : Cursor}
  {good : α → Cursor → Prop} {act : α → β} {good' : γ → Cursor → Prop} {act' : γ → δ}
  {p p' : Parser α} {q q' : Parser β} {f : α → Parser γ} {k : β → Parser δ}

theorem imp (h : g.Grafts demand context c good act p q) (weaker : demand → demand') :
    g.Grafts demand' context c good act p q where
  ok taken is := (h.ok taken is).imp_left weaker

/-- What is behind a part of a construct may rely on how the part was parsed, and it has to meet the
demand of the part. -/
theorem bind (h : g.Grafts True context c good act p q)
    (h' : ∀ a c', p context c = .ok (a, c') →
      g.Grafts (demand ∧ good a c') context c' good' act' (f a) (k (act a))) :
    g.Grafts demand context c good' act' (p >>= f) (q >>= k) where
  ok taken is := by
    obtain ⟨a, c', first, second⟩ := bind_ok.1 taken
    obtain ⟨⟨met, is'⟩, behind⟩ := (h' a c' first).ok second is
    refine ⟨met, fun beside => ?_⟩
    obtain ⟨d', first', beside'⟩ := (h.ok first is').2 beside
    obtain ⟨d'', second', beside''⟩ := behind beside'
    exact ⟨d'', by rw [bind_eq_ok first', second'], beside''⟩

/-- What is behind a part that meets the whole demand. -/
theorem bindMet (h : g.Grafts demand context c good act p q)
    (h' : ∀ a c', p context c = .ok (a, c') →
      g.Grafts (good a c') context c' good' act' (f a) (k (act a))) :
    g.Grafts demand context c good' act' (p >>= f) (q >>= k) where
  ok taken is := by
    obtain ⟨a, c', first, second⟩ := bind_ok.1 taken
    obtain ⟨is', behind⟩ := (h' a c' first).ok second is
    refine (h.ok first is').imp_right fun behind' d beside => ?_
    obtain ⟨d', first', beside'⟩ := behind' beside
    obtain ⟨d'', second', beside''⟩ := behind beside'
    exact ⟨d'', by rw [bind_eq_ok first', second'], beside''⟩

/-- What comes of the first parser may be relied on. -/
theorem given (h : ∀ {a c'}, p context c = .ok (a, c') → good a c' →
    g.Grafts demand context c good act p q) : g.Grafts demand context c good act p q where
  ok taken is := (h taken is).ok taken is

/-- Without a demand it may be relied on that there is a cursor beside the first one. -/
theorem beside (h : ∀ {d}, g.Beside c d → g.Grafts True context c good act p q) :
    g.Grafts True context c good act p q where
  ok taken is := ⟨trivial, fun beside => ((h beside).ok taken is).2 beside⟩

/-- What both parsers come to in front of their cursors. -/
theorem congr (here : p context c = p' context c)
    (there : ∀ {d}, g.Beside c d → q context d = q' context d)
    (h : g.Grafts demand context c good act p' q') : g.Grafts demand context c good act p q where
  ok taken is := (h.ok (here ▸ taken) is).imp_right fun behind _ beside => by
    rw [there beside]
    exact behind beside

theorem pure {a : α} {b : β} (same : b = act a) (met : good a c → demand) :
    g.Grafts demand context c good act (pure a) (pure b) where
  ok taken is := by
    obtain ⟨rfl, rfl⟩ := pure_ok.1 taken
    exact ⟨met is, fun {d} beside => ⟨d, by rw [same]; rfl, beside⟩⟩

theorem fails {cause : ParseCause} {token : Token} :
    g.Grafts demand context c good act (fail cause token) q where
  ok taken _ := (fail_ok.1 taken).elim

theorem halts {cause : HaltCause} : g.Grafts demand context c good act (halt cause) q where
  ok taken _ := (halt_ok.1 taken).elim

theorem here {f : Location → Parser γ} {k : Location → Parser δ}
    (h : g.Grafts demand context c good' act' (f c.current.start) (k c.current.start)) :
    g.Grafts demand context c good' act' (Parser.here >>= f) (Parser.here >>= k) :=
  congr (here_bind f) (fun beside => by rw [here_bind, beside.current.start]) h

theorem within {f : ParseContext → Parser γ} {k : ParseContext → Parser δ}
    (h : g.Grafts demand context c good' act' (f context) (k context)) :
    g.Grafts demand context c good' act' (Parser.context >>= f) (Parser.context >>= k) :=
  congr (context_bind f) (fun _ => context_bind k) h

/-- A look that shows the same in front of both cursors. -/
theorem look {ε : Type} {seen : Parser ε} {f : ε → Parser γ} {k : ε → Parser δ} (v : ε)
    (here : seen context c = .ok (v, c))
    (there : ∀ {d}, g.Beside c d → seen context d = .ok (v, d))
    (h : g.Grafts demand context c good' act' (f v) (k v)) :
    g.Grafts demand context c good' act' (seen >>= f) (seen >>= k) :=
  congr (bind_eq_ok here) (fun beside => bind_eq_ok (there beside)) h

/-- The current token, of which nothing is kept. -/
theorem current {f : Token → Parser γ} {k : Token → Parser δ}
    (h : ∀ token, c.current.Resembles token →
      g.Grafts demand context c good' act' (f c.current) (k token)) :
    g.Grafts demand context c good' act' (Parser.current >>= f) (Parser.current >>= k) where
  ok taken is := by
    rw [current_bind] at taken
    refine ⟨((h _ (.refl _)).ok taken is).1, fun beside => ?_⟩
    exact ((h _ beside.current).ok taken is).2 beside

theorem sees {kind : TokenKind} {f : Bool → Parser γ} {k : Bool → Parser δ}
    (yes : c.current.kind = kind → g.Grafts demand context c good' act' (f true) (k true))
    (no : c.current.kind ≠ kind → g.Grafts demand context c good' act' (f false) (k false)) :
    g.Grafts demand context c good' act' (Parser.sees kind >>= f) (Parser.sees kind >>= k) := by
  refine look (decide (c.current.kind = kind)) rfl (fun beside => ?_) ?_
  · rw [← beside.current.kind]
    rfl
  · by_cases seen : c.current.kind = kind
    · simpa only [seen, decide_true] using yes seen
    · simpa only [seen, decide_false] using no seen

theorem seesSame {kind : TokenKind} {f : Bool → Parser γ} {k : Bool → Parser δ}
    (h : ∀ b, g.Grafts demand context c good' act' (f b) (k b)) :
    g.Grafts demand context c good' act' (Parser.sees kind >>= f) (Parser.sees kind >>= k) :=
  sees (fun _ => h true) fun _ => h false

theorem seesWord {word : String} {f : Bool → Parser γ} {k : Bool → Parser δ}
    (known : word ∈ contextualWords) (uncalled : c.current.isWord word = true → ¬g.Called c)
    (yes : c.current.isWord word = true →
      g.Grafts demand context c good' act' (f true) (k true))
    (no : c.current.isWord word = false →
      g.Grafts demand context c good' act' (f false) (k false)) :
    g.Grafts demand context c good' act' (Parser.seesWord word >>= f)
      (Parser.seesWord word >>= k) := by
  refine look (c.current.isWord word) rfl (fun beside => ?_) ?_
  · rw [← beside.isWord known uncalled]
    rfl
  · cases seen : c.current.isWord word with
    | true => exact yes seen
    | false => exact no seen

/-- Both parsers take the token in front of them, which is no called name. -/
theorem taking {f : Token → Parser γ} {k : Token → Parser δ} {p : Parser γ} {q : Parser δ}
    (uncalled : ¬g.Called c) (here : p context c = f c.current context c.next)
    (there : ∀ {d}, g.Beside c d → d.current = c.current →
      q context d = k c.current context d.next)
    (h : g.Grafts demand context c.next good' act' (f c.current) (k c.current)) :
    g.Grafts demand context c good' act' p q where
  ok taken is := by
    rw [here] at taken
    refine (h.ok taken is).imp_right fun behind d beside => ?_
    rw [there beside (beside.current_eq uncalled)]
    exact behind (beside.next uncalled)

theorem advance {f : Token → Parser γ} {k : Token → Parser δ}
    (uncalled : ¬g.Called c)
    (h : g.Grafts demand context c.next good' act' (f c.current) (k c.current)) :
    g.Grafts demand context c good' act' (Parser.advance >>= f) (Parser.advance >>= k) :=
  taking uncalled (advance_bind f) (fun _ same => by rw [advance_bind, same]) h

/-- A token that is taken as the leaf of an operand or of a name is not the called one. -/
theorem leaf {p : Parser SyntaxTree} {kind : Token → LeafKind}
    (same : ∀ token : Token, token.kind = .identifier → kind token = .token .identifier)
    (taken : ∀ c, p context c =
      .ok (.leaf (kind c.current) c.current.text c.current.span, c.next)) :
    g.GraftsTree True context c p p where
  ok here apt := by
    rw [taken] at here
    cases here
    have other := Apt.of_leaf apt
    have uncalled : ¬g.Called c := fun called => other (by
      have known := names_eq_true called.1
      rw [same c.current (congrArg Token.kind known), known]
      rfl)
    refine ⟨trivial, fun {d} beside => ⟨d.next, ?_, beside.next uncalled⟩⟩
    rw [taken, beside.current_eq uncalled, tree_of_ne other]

theorem takeLeaf : g.GraftsTree True context c Parser.takeLeaf Parser.takeLeaf :=
  leaf (fun _ kind => congrArg LeafKind.token kind) fun _ => takeLeaf_eq ..

theorem takeName : g.GraftsTree True context c (do return nameLeaf (← Parser.advance))
    (do return nameLeaf (← Parser.advance)) :=
  leaf (fun _ _ => rfl) fun _ => advance_bind ..

theorem expect {kind : TokenKind} {f : Token → Parser γ} {k : Token → Parser δ}
    (other : kind ≠ .identifier)
    (h : c.current.kind = kind →
      g.Grafts demand context c.next good' act' (f c.current) (k c.current)) :
    g.Grafts demand context c good' act' (Parser.expect kind >>= f)
      (Parser.expect kind >>= k) where
  ok taken := by
    have seen := (expected_ok.1 ((expect_bind kind f).symm.trans taken)).1
    refine (taking (uncalled_of_kind (seen ▸ other)) ?_ (fun _ same => ?_)
      (h seen)).ok taken
    · rw [expect_bind, if_pos seen]
    · rw [expect_bind, same, if_pos seen]

/-- What is behind a word has to tell that the word is not called, where it is no operator. -/
theorem expectWord {word : String} {f : Unit → Parser γ} {k : Unit → Parser δ}
    (uncalled : ∀ {a c'}, f () context c.next = .ok (a, c') → good' a c' → ¬g.Called c)
    (h : g.Grafts demand context c.next good' act' (f ()) (k ())) :
    g.Grafts demand context c good' act' (Parser.expectWord word >>= f)
      (Parser.expectWord word >>= k) where
  ok taken is := by
    obtain ⟨seen, behind⟩ := expected_ok.1 ((expectWord_bind word f).symm.trans taken)
    refine (taking (f := fun _ => f ()) (k := fun _ => k ()) (uncalled behind is) ?_
      (fun _ same => ?_) h).ok taken is
    · rw [expectWord_bind, if_pos seen]
    · rw [expectWord_bind, same, if_pos seen]

theorem accept {kind : TokenKind} {f : Bool → Parser γ} {k : Bool → Parser δ}
    (other : kind ≠ .identifier)
    (yes : c.current.kind = kind → g.Grafts demand context c.next good' act' (f true) (k true))
    (no : c.current.kind ≠ kind → g.Grafts demand context c good' act' (f false) (k false)) :
    g.Grafts demand context c good' act' (Parser.accept kind >>= f) (Parser.accept kind >>= k) := by
  by_cases seen : c.current.kind = kind
  · refine taking (f := fun _ => f true) (k := fun _ => k true)
      (uncalled_of_kind (seen ▸ other)) ?_ (fun _ same => ?_) (yes seen)
    · rw [accept_bind, if_pos seen]
    · rw [accept_bind, same, if_pos seen]
  · refine congr ((accept_bind kind f).trans (if_neg seen)) (fun beside => ?_) (no seen)
    rw [accept_bind, beside.current.kind, if_neg seen]

theorem acceptSame {kind : TokenKind} {f : Bool → Parser γ} {k : Bool → Parser δ}
    (other : kind ≠ .identifier)
    (h : ∀ b c, g.Grafts demand context c good' act' (f b) (k b)) :
    g.Grafts demand context c good' act' (Parser.accept kind >>= f) (Parser.accept kind >>= k) :=
  accept other (fun _ => h true _) fun _ => h false _

theorem acceptWord {word : String} {f : Bool → Parser γ} {k : Bool → Parser δ}
    (known : word ∈ contextualWords)
    (uncalled : c.current.isWord word = true →
      ∀ {a c'}, f true context c.next = .ok (a, c') → good' a c' → ¬g.Called c)
    (yes : c.current.isWord word = true →
      g.Grafts demand context c.next good' act' (f true) (k true))
    (no : c.current.isWord word = false →
      g.Grafts demand context c good' act' (f false) (k false)) :
    g.Grafts demand context c good' act' (Parser.acceptWord word >>= f)
      (Parser.acceptWord word >>= k) := by
  cases seen : c.current.isWord word with
  | true =>
    refine given fun taken is => ?_
    have here : (Parser.acceptWord word >>= f) context c = f true context c.next :=
      (acceptWord_bind word f).trans (if_pos seen)
    refine taking (f := fun _ => f true) (k := fun _ => k true)
      (uncalled seen (here.symm.trans taken) is) here (fun _ same => ?_) (yes seen)
    rw [acceptWord_bind, same, if_pos seen]
  | false =>
    refine congr ((acceptWord_bind word f).trans (if_neg (by simp [seen]))) (fun beside => ?_)
      (no seen)
    rw [acceptWord_bind, beside.isWord known (by simp [seen]), seen, if_neg Bool.false_ne_true]

theorem acceptWordSame {word : String} {f : Bool → Parser γ} {k : Bool → Parser δ}
    (known : word ∈ contextualWords)
    (uncalled : c.current.isWord word = true →
      ∀ {a c'}, f true context c.next = .ok (a, c') → good' a c' → ¬g.Called c)
    (h : ∀ b c, g.Grafts demand context c good' act' (f b) (k b)) :
    g.Grafts demand context c good' act' (Parser.acceptWord word >>= f)
      (Parser.acceptWord word >>= k) :=
  acceptWord known uncalled (fun _ => h true _) fun _ => h false _

/-- A part behind a token that may stand here, and is missing if it does not. -/
theorem optional {kind : TokenKind} {part part' : Parser SyntaxTree} {f : SyntaxTree → Parser γ}
    {k : SyntaxTree → Parser δ} (other : kind ≠ .identifier)
    (present : ∀ c, g.GraftsTree True context c part part')
    (h : ∀ tree c', g.Grafts (demand ∧ g.Apt tree) context c' good' act' (f tree)
      (k (g.tree tree))) :
    g.Grafts demand context c good' act'
      (Parser.accept kind >>= fun b => if b then part >>= f else Pure.pure .missing >>= f)
      (Parser.accept kind >>= fun b => if b then part' >>= k else Pure.pure .missing >>= k) :=
  accept other (fun _ => (present _).bind fun tree c' _ => h tree c')
    fun _ => (h .missing c).imp And.left

theorem finishBind {label : Label} {children children' : List SyntaxTree} {start : Location}
    {f : SyntaxTree → Parser γ} {k : SyntaxTree → Parser δ} (same : children' = children.map g.tree)
    (h : g.Grafts demand context c good' act' (f (.node label children ⟨start, c.stop⟩))
      (k (g.tree (.node label children ⟨start, c.stop⟩)))) :
    g.Grafts demand context c good' act' (Parser.finish label children start >>= f)
      (Parser.finish label children' start >>= k) where
  ok taken is := by
    obtain ⟨some, taken⟩ := expected_ok.1 ((finish_bind ..).symm.trans taken)
    refine (h.ok taken is).imp_right fun behind d beside => ?_
    rw [finish_bind, if_pos (beside.taken.trans some), beside.stop, same, ← tree_node]
    exact behind beside

/-- A node that meets the demand if it is apt. -/
theorem finishApt {label : Label} {children children' : List SyntaxTree} {start : Location}
    (same : children' = children.map g.tree)
    (met : g.Apt (.node label children ⟨start, c.stop⟩) → demand) :
    g.GraftsTree demand context c (Parser.finish label children start)
      (Parser.finish label children' start) := by
  rw [← bind_pure (Parser.finish label children start),
    ← bind_pure (Parser.finish label children' start)]
  exact finishBind same (pure rfl met)

/-- A node that is no call, whose parts meet the demand. -/
theorem finish {label : Label} {children children' : List SyntaxTree} {start : Location}
    (same : children' = children.map g.tree) (other : label ≠ .call)
    (met : (∀ child ∈ children, g.Apt child) → demand) :
    g.GraftsTree demand context c (Parser.finish label children start)
      (Parser.finish label children' start) :=
  finishApt same fun apt => met (apt.children other)

theorem endStatement : g.Grafts True context c (fun _ _ => True) id Parser.endStatement
    Parser.endStatement := by
  refine accept nofun (fun _ => pure rfl id) fun _ => current fun token like => ?_
  have ends : token.endsStatement = c.current.endsStatement := by
    rw [Token.endsStatement, Token.endsStatement, like.kind, like.newlineBefore]
  rw [ends]
  split
  · exact ⟨fun taken _ => by
      cases taken
      exact ⟨trivial, fun {d} beside => ⟨d.skipSemicolon, rfl, beside.skipSemicolon⟩⟩⟩
  · exact fails

theorem allowingIn (h : g.Grafts demand { context with allowIn := true } c good act p q) :
    g.Grafts demand context c good act (Parser.allowingIn p) (Parser.allowingIn q) := ⟨h.ok⟩

theorem forbiddingIn (h : g.Grafts demand { context with allowIn := false } c good act p q) :
    g.Grafts demand context c good act (Parser.forbiddingIn p) (Parser.forbiddingIn q) := ⟨h.ok⟩

theorem insideFunction {isAsync isGenerator : Bool}
    (h : ∀ context, g.Grafts demand context c good act p q) :
    g.Grafts demand context c good act (Parser.insideFunction isAsync isGenerator p)
      (Parser.insideFunction isAsync isGenerator q) := ⟨(h _).ok⟩

/-- The parser that is bounded by the number of tokens left, beside one that is bounded by more. -/
theorem sized {p : Nat → Parser α} {q : Nat → Parser β}
    (h : ∀ bound, c.rest.length + 1 ≤ bound →
      g.Grafts demand context c good act (p (c.rest.length + 1)) (q bound)) :
    g.Grafts demand context c good act (do p ((← get).rest.length + 1))
      (do q ((← get).rest.length + 1)) where
  ok taken is := ⟨((h _ (Nat.le_refl _)).ok taken is).1, fun {d} beside =>
    ((h (d.rest.length + 1) (Nat.succ_le_succ beside.length_le)).ok taken is).2 beside⟩

theorem collect {ends : TokenKind → Bool} {element element' : Parser (List SyntaxTree)}
    (h : ∀ c : Cursor, ends c.current.kind = false →
      g.GraftsTrees True context c element element') :
    g.GraftsTrees True context c (Parser.collect ends element) (Parser.collect ends element') := by
  refine sized fun bound enough => ?_
  generalize c.rest.length + 1 = bound' at enough
  induction bound' generalizing c bound with
  | zero => exact halts
  | succ bound' ih =>
    obtain ⟨bound, rfl⟩ : ∃ later, bound = later + 1 := ⟨bound - 1, by omega⟩
    rw [collectFuel, collectFuel]
    refine current fun token like => ?_
    rw [like.kind]
    cases stops : ends c.current.kind with
    | true => exact pure rfl fun _ => trivial
    | false =>
      rw [if_neg Bool.false_ne_true, if_neg Bool.false_ne_true]
      refine (h c stops).bind fun first c' _ => ?_
      refine (ih bound (Nat.le_of_succ_le_succ enough)).bind fun later c'' _ => ?_
      exact pure List.map_append.symm fun all => ⟨⟨trivial, fun tree member =>
        all tree (List.mem_append_left _ member)⟩, fun tree member =>
        all tree (List.mem_append_right _ member)⟩

/-- Steps that keep a property of the state, again and again. The property may depend on where the
state is reached, and it has to hold before a step if it does behind it. -/
theorem iterateFuel {step step' : SyntaxTree → Parser (Option SyntaxTree)}
    {held : Cursor → SyntaxTree → Prop} {bound bound' : Nat} {state : SyntaxTree}
    (h : ∀ (c : Cursor) (state : SyntaxTree), g.Grafts (held c state) context c
      (fun next c' => next.elim (g.Apt state) (held c')) (Option.map g.tree) (step state)
      (step' (g.tree state)))
    (enough : bound ≤ bound') :
    g.GraftsTree (held c state) context c (Parser.iterateFuel step bound state)
      (Parser.iterateFuel step' bound' (g.tree state)) := by
  induction bound generalizing c bound' state with
  | zero => exact halts
  | succ bound ih =>
    obtain ⟨bound', rfl⟩ : ∃ later, bound' = later + 1 := ⟨bound' - 1, by omega⟩
    refine ⟨fun {a c'} taken apt => ?_⟩
    rw [Parser.iterateFuel] at taken
    obtain ⟨next, c₁, first, second⟩ := bind_ok.1 taken
    cases next with
    | none =>
      obtain ⟨rfl, rfl⟩ := pure_ok.1 second
      refine ((h c state).ok first apt).imp_right fun behind d beside => ?_
      obtain ⟨d₁, first', beside'⟩ := behind beside
      exact ⟨d₁, by rw [Parser.iterateFuel, bind_eq_ok first']; rfl, beside'⟩
    | some state' =>
      obtain ⟨holds, later⟩ := (ih (Nat.le_of_succ_le_succ enough)).ok second apt
      refine ((h c state).ok first holds).imp_right fun behind d beside => ?_
      obtain ⟨d₁, first', beside'⟩ := behind beside
      obtain ⟨d₂, second', beside''⟩ := later beside'
      exact ⟨d₂, by rw [Parser.iterateFuel, bind_eq_ok first']; exact second', beside''⟩

theorem iterate {step step' : SyntaxTree → Parser (Option SyntaxTree)}
    (held : Cursor → SyntaxTree → Prop) {state : SyntaxTree}
    (h : ∀ (c : Cursor) (state : SyntaxTree), g.Grafts (held c state) context c
      (fun next c' => next.elim (g.Apt state) (held c')) (Option.map g.tree) (step state)
      (step' (g.tree state))) :
    g.GraftsTree (held c state) context c (Parser.iterate step state)
      (Parser.iterate step' (g.tree state)) :=
  sized (p := fun bound => Parser.iterateFuel step bound state)
    (q := fun bound => Parser.iterateFuel step' bound (g.tree state))
    fun _ enough => iterateFuel h enough

/-- One element as a list. -/
theorem single {element element' : Parser SyntaxTree}
    (h : g.GraftsTree True context c element element') :
    g.GraftsTrees True context c (do return [← element]) (do return [← element']) :=
  h.bind fun _ _ _ => pure rfl fun all => ⟨trivial, all _ (by simp)⟩

theorem listed {close : TokenKind} {element element' : Parser SyntaxTree}
    (h : g.GraftsTree True context c element element') :
    g.GraftsTrees True context c (Parser.listed close element) (Parser.listed close element') := by
  have ending (tree : SyntaxTree) (c' : Cursor) : g.GraftsTrees (True ∧ g.Apt tree) context c'
      (Pure.pure [tree]) (Pure.pure [g.tree tree]) :=
    pure rfl fun all => ⟨trivial, all _ (by simp)⟩
  refine h.bind fun tree c' _ => sees (fun _ => ending tree c') fun _ => ?_
  exact expect nofun fun _ => ending tree c'.next

end Grafts

end Graft

/-- The parsers of each rule graft, and the first ones build. -/
structure Rules.Grafted (g : Graft) (rules rules' : Rules) : Prop where
  build : rules.Build
  rule (rule : Rule) (context : ParseContext) (c : Cursor) :
    g.GraftsTree True context c (rules rule) (rules' rule)

end Uncurry
