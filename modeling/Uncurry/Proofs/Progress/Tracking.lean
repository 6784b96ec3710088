import Uncurry.Grammar.Rule
import Uncurry.Proofs.Progress.Alignment
import Uncurry.Proofs.Syntax.Reading

/-!
# Two parsers side by side

`Parser.Tracks` is what is proved of each construct of the grammar. It is about one parser in front
of a cursor: how it may stop without a result, what it passes if it has one, and that a second
parser then has the same result in front of every cursor that is aligned with the first one. The
rules below follow the steps that parsers are made of.
-/
namespace Uncurry

/-- A tree without the places of its parts. -/
def Tree.shape {α : Type} (tree : Tree α) : Tree Unit := tree.map fun _ => ()

theorem Tree.shape_node {α : Type} (label : Label) (children : List (Tree α)) (info : α) :
    (node label children info).shape = .node label (children.map shape) () := by
  rw [shape, map, mapAll_eq]
  rfl

mutual

theorem Tree.shape_map {α β : Type} (f : α → β) : (tree : Tree α) → (tree.map f).shape = tree.shape
  | missing => rfl
  | leaf _ _ _ => rfl
  | node label children info => by
    rw [map, shape_node, shape_node, shape_mapAll f children]

theorem Tree.shape_mapAll {α β : Type} (f : α → β) : (trees : List (Tree α)) →
    (mapAll f trees).map shape = trees.map shape
  | [] => rfl
  | tree :: trees => by
    rw [mapAll, List.map_cons, List.map_cons, shape_map f tree, shape_mapAll f trees]

end

/-- Trees that are the same up to the places of their parts. -/
def Tree.Same {α : Type} (tree other : Tree α) : Prop := tree.shape = other.shape

/-- Trees that are in turn the same up to the places of their parts. -/
def Tree.AllSame {α : Type} (trees others : List (Tree α)) : Prop :=
  trees.map shape = others.map shape

namespace Tree

variable {α : Type} {tree other : Tree α} {trees others more others' : List (Tree α)}

theorem Same.refl (tree : Tree α) : tree.Same tree := rfl

theorem AllSame.nil : AllSame ([] : List (Tree α)) [] := rfl

theorem AllSame.cons (h : tree.Same other) (h' : AllSame trees others) :
    AllSame (tree :: trees) (other :: others) := by
  rw [AllSame, List.map_cons, List.map_cons, h, h']

theorem AllSame.append (h : AllSame trees others) (h' : AllSame more others') :
    AllSame (trees ++ more) (others ++ others') := by
  rw [AllSame, List.map_append, List.map_append, h, h']

theorem AllSame.single (h : tree.Same other) : AllSame [tree] [other] := .cons h .nil

theorem AllSame.node (h : AllSame trees others) (label : Label) (info info' : α) :
    (Tree.node label trees info).Same (.node label others info') := by
  rw [Same, shape_node, shape_node]
  exact congrArg (Tree.node label · ()) h

theorem Same.children (h : tree.Same other) : AllSame tree.children other.children := by
  have shapes (tree : Tree α) : tree.children.map shape = tree.shape.children := by
    cases tree with
    | node label children info => exact (mapAll_eq _ children).symm
    | _ => rfl
  rw [AllSame, shapes, shapes, h]

end Tree

theorem Token.Alike.leaf {token other : Token} (h : token.Alike other) :
    (Parser.leaf token).Same (Parser.leaf other) := by
  simp [Tree.Same, Tree.shape, Parser.leaf, Tree.map, h.kind, h.text]

theorem Token.Alike.nameLeaf {token other : Token} (h : token.Alike other) :
    (Parser.nameLeaf token).Same (Parser.nameLeaf other) := by
  simp [Tree.Same, Tree.shape, Parser.nameLeaf, Tree.map, h.text]

theorem Token.Alike.bindingLeaf {token other : Token} (h : token.Alike other) :
    (Parser.bindingLeaf token).Same (Parser.bindingLeaf other) := by
  simp [Tree.Same, Tree.shape, Parser.bindingLeaf, Tree.map, h.text]

/-- How a parser in front of a cursor may stop without a result: with an error at a token of the
sequence; before its first token, if it need not take one and none was taken before; and for lack of
depth, if there are as many tokens left as levels. -/
def Halt.Allowed (halt : Halt) (depth lead : Nat) (c : Cursor) : Prop :=
  match halt.cause with
  | .error error => (error.token ∈ c.all ∨ error.token = c.final) ∧
      ∃ events, c.Moves events halt.cursor
  | .nothingTaken => lead = 0 ∧ c.last? = none
  | .exhausted => depth ≤ c.rest.length

/-- What may stop a parser behind some tokens may stop one before them. -/
theorem Halt.Allowed.before {halt : Halt} {depth depth' lead lead' : Nat} {c c' : Cursor}
    {events : List Passage} (h : halt.Allowed depth' lead' c') (moves : c.Moves events c')
    (deep : depth ≤ depth' + Passage.lead events) (leads : lead ≤ lead' + Passage.lead events) :
    halt.Allowed depth lead c := by
  obtain ⟨cause, cursor⟩ := halt
  cases cause with
  | error error =>
    obtain ⟨place, events', moves'⟩ := h
    exact ⟨by rwa [moves.all_eq, moves.final] at place, _, moves.trans moves'⟩
  | nothingTaken =>
    obtain ⟨none, first⟩ := h
    obtain ⟨last, nothing⟩ := moves.last?_eq_none first
    exact ⟨by omega, last⟩
  | exhausted =>
    have length := moves.lead_add_le
    change depth' ≤ c'.rest.length at h
    change depth ≤ c.rest.length
    omega

namespace Parser

variable {α β γ δ : Type}

/-- What a parser passes up to its result, and how a second parser fares beside it. It closes the
brackets `unclosed`, it starts with `lead` tokens at least, and if it is `tight`, no semicolon is
left out right in front of it or right behind it. -/
structure Beside (unclosed : List TokenKind) (lead : Nat) (tight : Bool) (context : ParseContext)
    (c : Cursor) (same : α → β → Prop) (q : Parser β) (a : α) (c' : Cursor)
    (events : List Passage) : Prop where
  moves : c.Moves events c'
  nested : TokenKind.nestAll unclosed (Passage.kinds events) = some []
  lead_le : lead ≤ Passage.lead events
  opens : tight = true → Passage.Opens events
  follows : ∀ later d, (tight = true → Passage.Opens later) → Cursor.Aligned (events ++ later) c d →
    ∃ b d', q context d = .ok (b, d') ∧ same a b ∧ Cursor.Aligned later c' d'

/-- How two parsers fare in front of a cursor and in front of those that are aligned with it. -/
structure Tracks (depth : Nat) (unclosed : List TokenKind) (lead : Nat) (tight : Bool)
    (context : ParseContext) (c : Cursor) (same : α → β → Prop) (p : Parser α) (q : Parser β) :
    Prop where
  ok : c.final.kind = .endOfInput → ∀ {a c'}, p context c = .ok (a, c') →
    ∃ events, Beside unclosed lead tight context c same q a c' events
  error : c.final.kind = .endOfInput → ∀ {halt}, p context c = .error halt →
    halt.Allowed depth lead c

/-- What a step of a repetition does in front of a cursor and of those that are aligned with it: it
does not go on, or it goes on and starts with a token. -/
inductive Steps (depth : Nat) (tight : Bool) (context : ParseContext) (c : Cursor)
    (p q : Parser (Option SyntaxTree)) : Prop
  | ends (here : p context c = .ok (none, c)) (there : ∀ {future d}, Cursor.Aligned future c d →
      q context d = .ok (none, d))
  | goes (tracks : Tracks depth [] 1 tight context c
      (fun next next' => ∃ tree tree' : SyntaxTree, next = some tree ∧ next' = some tree' ∧
        tree.Same tree') p q)

variable {n n' n₁ n₂ k k' k₁ k₂ : Nat} {unclosed unclosed' : List TokenKind} {t t₁ t₂ : Bool}
variable {context : ParseContext} {c c' d : Cursor} {events future : List Passage}
variable {same : α → β → Prop} {same' : γ → δ → Prop}
variable {p : Parser α} {q : Parser β} {f : α → Parser γ} {g : β → Parser δ}

theorem bind_error {x : Halt} : (p >>= f) context c = .error x ↔
    p context c = .error x ∨ ∃ a c', p context c = .ok (a, c') ∧ f a context c' = .error x := by
  simp only [bind, ReaderT.bind, StateT.bind, Except.bind]
  cases p context c with
  | error e => simp
  | ok r => exact ⟨fun h => .inr ⟨r.1, r.2, rfl, h⟩, by rintro (⟨⟨⟩⟩ | ⟨_, _, ⟨⟩, h⟩); exact h⟩

theorem bind_eq_ok {b : β} (h : q context d = .ok (b, c)) :
    (q >>= g) context d = g b context c := by
  simp only [bind, ReaderT.bind, StateT.bind, Except.bind, h]

namespace Tracks

theorem weaken (h : Tracks n unclosed k t context c same p q) (depth : n' ≤ n) (lead : k' ≤ k) :
    Tracks n' unclosed k' t context c same p q where
  ok final _ _ taken :=
    let ⟨events, beside⟩ := h.ok final taken
    ⟨events, { beside with lead_le := Nat.le_trans lead beside.lead_le }⟩
  error final _ stopped :=
    (h.error final stopped).before (.refl c) (Nat.le_trans depth (Nat.le_add_right n _))
      (Nat.le_trans lead (Nat.le_add_right k _))

theorem lower (h : Tracks (n + 1) unclosed k t context c same p q) :
    Tracks n unclosed k t context c same p q :=
  h.weaken (Nat.le_succ n) (Nat.le_refl k)

/-- What starts with a token can stand between such that do. -/
theorem tighten (h : Tracks n unclosed k false context c same p q) (lead : 0 < k) :
    Tracks n unclosed k t context c same p q where
  ok final _ _ taken :=
    let ⟨events, beside⟩ := h.ok final taken
    ⟨events, { beside with
      opens := fun _ => Passage.opens_of_lead (Nat.lt_of_lt_of_le lead beside.lead_le)
      follows := fun later d _ => beside.follows later d nofun }⟩
  error := h.error

/-- A parser that has a result has it in front of its own cursor as well. -/
theorem exists_same {a : α} (beside : Beside unclosed k t context c same q a c' events)
    (final : c.final.kind = .endOfInput) : ∃ b, same a b := by
  obtain ⟨b, _, _, related, _⟩ := beside.follows _ c
    (fun _ => by cases c'.rest <;> simp [Passage.Opens]) (.refl beside.moves final)
  exact ⟨b, related⟩

/-- What is in front of a cursor and of each aligned one may be put in another way. -/
theorem each {p' : Parser α} {q₀ : Parser β} (here : p context c = p' context c)
    (some : Tracks n unclosed k t context c same p' q₀)
    (there : ∀ {future d}, k ≤ Passage.lead future → (t = true → Passage.Opens future) →
      Cursor.Aligned future c d → ∃ q', q context d = q' context d ∧
        Tracks n unclosed k t context c same p' q') :
    Tracks n unclosed k t context c same p q where
  ok final a c' taken := by
    rw [here] at taken
    obtain ⟨events, beside⟩ := some.ok final taken
    refine ⟨events, { beside with follows := fun later d opens aligned => ?_ }⟩
    obtain ⟨q', same, tracks⟩ := there
      (Nat.le_trans beside.lead_le (Passage.lead_le_append events later))
      (fun tight => (beside.opens tight).append (opens tight)) aligned
    obtain ⟨events', beside'⟩ := tracks.ok final taken
    obtain rfl := beside.moves.unique beside'.moves
    rw [same]
    exact beside'.follows later d opens aligned
  error final halt stopped := some.error final (here ▸ stopped)

theorem congr {p' : Parser α} {q' : Parser β} (here : p context c = p' context c)
    (there : ∀ {future d}, k ≤ Passage.lead future → (t = true → Passage.Opens future) →
      Cursor.Aligned future c d → q context d = q' context d)
    (h : Tracks n unclosed k t context c same p' q') : Tracks n unclosed k t context c same p q :=
  each here h fun lead opens aligned => ⟨q', there lead opens aligned, h⟩

/-- One parser behind another one, with all that is known between them. -/
theorem andThen {inner : List TokenKind} (h : Tracks n₁ inner k₁ t₁ context c same p q)
    (h' : ∀ {a b c' events}, same a b → c.Moves events c' → k₁ ≤ Passage.lead events →
      Tracks n₂ unclosed k₂ t₂ context c' same' (f a) (g b))
    (depth : n ≤ n₁) (deep : n ≤ n₂ + k₁) (lead : k ≤ k₁) (behind : t₂ = true → t = true)
    (between : t₁ = true → t₂ = true ∨ 0 < k₂)
    (before : t = true → 0 < k₁ ∨ t₁ = true ∧ t₂ = true) :
    Tracks n (inner ++ unclosed) k t context c same' (p >>= f) (q >>= g) where
  ok final a' c'' taken := by
    obtain ⟨a, c', first, second⟩ := bind_ok.1 taken
    obtain ⟨events, beside⟩ := h.ok final first
    have final' : c'.final.kind = .endOfInput := by rw [beside.moves.final, final]
    obtain ⟨b, related⟩ := exists_same beside final
    obtain ⟨more, beside'⟩ := (h' related beside.moves beside.lead_le).ok final' second
    refine ⟨events ++ more, beside.moves.trans beside'.moves, ?_, ?_, fun tight => ?_,
      fun later d opens aligned => ?_⟩
    · rw [Passage.kinds_append]
      exact TokenKind.nestAll_append (TokenKind.nestAll_outer beside.nested unclosed) beside'.nested
    · exact Nat.le_trans lead (Nat.le_trans beside.lead_le (Passage.lead_le_append events more))
    · rcases before tight with takes | ⟨tight₁, tight₂⟩
      · exact Passage.opens_of_lead (Nat.lt_of_lt_of_le takes
          (Nat.le_trans beside.lead_le (Passage.lead_le_append events more)))
      · exact (beside.opens tight₁).append (beside'.opens tight₂)
    · rw [List.append_assoc] at aligned
      have opens' (tight : t₁ = true) : Passage.Opens (more ++ later) := by
        rcases between tight with tight₂ | takes
        · exact (beside'.opens tight₂).append (opens (behind tight₂))
        · exact Passage.opens_of_lead (Nat.lt_of_lt_of_le takes
            (Nat.le_trans beside'.lead_le (Passage.lead_le_append more later)))
      obtain ⟨b', d', first', related', aligned'⟩ := beside.follows _ d opens' aligned
      obtain ⟨more', beside''⟩ := (h' related' beside.moves beside.lead_le).ok final' second
      obtain rfl := beside'.moves.unique beside''.moves
      obtain ⟨b'', d'', second', related'', aligned''⟩ :=
        beside''.follows later d' (fun tight₂ => opens (behind tight₂)) aligned'
      exact ⟨b'', d'', by rw [bind_eq_ok first', second'], related'', aligned''⟩
  error final halt stopped := by
    rcases bind_error.1 stopped with first | ⟨a, c', first, second⟩
    · exact (h.error final first).before (.refl c) (Nat.le_trans depth (Nat.le_add_right n₁ _))
        (Nat.le_trans lead (Nat.le_add_right k₁ _))
    · obtain ⟨events, beside⟩ := h.ok final first
      obtain ⟨b, related⟩ := exists_same beside final
      have stops := (h' related beside.moves beside.lead_le).error
        (by rw [beside.moves.final, final]) second
      have taken := beside.lead_le
      exact stops.before beside.moves (by omega) (by omega)

/-- What is behind a part of a construct, which the part moves to. -/
theorem bindMoves (h : Tracks n [] k t context c same p q)
    (h' : ∀ {a b c' events}, same a b → c.Moves events c' → k ≤ Passage.lead events →
      Tracks n unclosed 0 t context c' same' (f a) (g b)) :
    Tracks n unclosed k t context c same' (p >>= f) (q >>= g) :=
  h.andThen h' (Nat.le_refl n) (Nat.le_add_right n k) (Nat.le_refl k) id .inl
    fun tight => .inr ⟨tight, tight⟩

/-- What is behind a part of a construct. -/
theorem bindLead (h : Tracks n [] k t context c same p q)
    (h' : ∀ a b c', same a b → Tracks n unclosed 0 t context c' same' (f a) (g b)) :
    Tracks n unclosed k t context c same' (p >>= f) (q >>= g) :=
  h.bindMoves fun related _ _ => h' _ _ _ related

theorem bind (h : Tracks n [] k t context c same p q)
    (h' : ∀ a b c', same a b → Tracks n unclosed 0 t context c' same' (f a) (g b)) :
    Tracks n unclosed 0 t context c same' (p >>= f) (q >>= g) :=
  (h.bindLead h').weaken (Nat.le_refl n) (Nat.zero_le k)

/-- What is behind a part of a construct that closes all that is open. -/
theorem bindClosing (h : Tracks n unclosed k t context c same p q)
    (h' : ∀ a b c', same a b → Tracks n [] 0 t context c' same' (f a) (g b)) :
    Tracks n unclosed 0 t context c same' (p >>= f) (q >>= g) := by
  have whole := h.andThen (fun related _ _ => h' _ _ _ related) (Nat.le_refl n)
    (Nat.le_add_right n k) (Nat.zero_le k) id .inl fun tight => .inr ⟨tight, tight⟩
  rwa [List.append_nil] at whole

/-- What is behind the first part of a construct, which takes a token. -/
theorem first (h : Tracks (n + 1) [] k t context c same p q) (lead : 0 < k)
    (h' : ∀ a b c', same a b → Tracks n unclosed 0 t context c' same' (f a) (g b)) :
    Tracks (n + 1) unclosed k t context c same' (p >>= f) (q >>= g) :=
  h.andThen (fun related _ _ => h' _ _ _ related) (Nat.le_refl _) (Nat.add_le_add_left lead n)
    (Nat.le_refl k) id .inl fun tight => .inr ⟨tight, tight⟩

/-- A token behind a part that wants no semicolon left out behind it. -/
theorem bindTight (h : Tracks n [] k true context c same p q)
    (h' : ∀ a b c', same a b → Tracks n unclosed 1 t context c' same' (f a) (g b)) :
    Tracks n unclosed 0 t context c same' (p >>= f) (q >>= g) :=
  h.andThen (fun related _ _ => h' _ _ _ related) (Nat.le_refl n) (Nat.le_add_right n k)
    (Nat.zero_le k) id (fun _ => .inr Nat.one_pos) fun tight => .inr ⟨rfl, tight⟩

theorem pure {a : α} {b : β} (related : same a b) :
    Tracks n [] 0 t context c same (pure a) (pure b) where
  ok _ a' c' taken := by
    obtain ⟨rfl, rfl⟩ := pure_ok.1 taken
    exact ⟨[], .refl c, rfl, Nat.le_refl 0, fun _ => Passage.opens_nil,
      fun later d _ aligned => ⟨b, d, rfl, related, aligned⟩⟩
  error _ halt stopped := by cases stopped

theorem fail {cause : ParseCause} {token : Token} (place : token ∈ c.all ∨ token = c.final) :
    Tracks n unclosed k t context c same (Parser.fail cause token) q where
  ok _ a' c' taken := (fail_ok.1 taken).elim
  error _ halt stopped := by
    obtain rfl : Halt.mk (.error ⟨cause, token⟩) c = halt := Except.error.inj stopped
    exact ⟨place, [], .refl c⟩

/-- What fails at the current token. -/
theorem failHere {cause : ParseCause} :
    Tracks n unclosed k t context c same (Parser.fail cause c.current) q :=
  fail c.current_mem

/-- What stops with an error at the current token. -/
theorem stops {cause : ParseCause}
    (here : p context c = .error ⟨.error ⟨cause, c.current⟩, c⟩) :
    Tracks n unclosed k t context c same p q := by
  have fails : Tracks n unclosed k t context c same (Parser.fail cause c.current) q := failHere
  exact congr here (fun _ _ _ => rfl) fails

theorem here {f : Location → Parser γ} {g : Location → Parser δ}
    (h : ∀ start start', Tracks n unclosed k t context c same' (f start) (g start')) :
    Tracks n unclosed k t context c same' (here >>= f) (here >>= g) :=
  each (here_bind f) (h _ c.current.start) fun _ _ _ => ⟨_, here_bind g, h _ _⟩

theorem within {f : ParseContext → Parser γ} {g : ParseContext → Parser δ}
    (h : Tracks n unclosed k t context c same' (f context) (g context)) :
    Tracks n unclosed k t context c same' (Parser.context >>= f) (Parser.context >>= g) :=
  congr (context_bind f) (fun _ _ _ => context_bind g) h

/-- A look that shows the same in front of all cursors. -/
theorem look {ε : Type} {seen : Parser ε} {f : ε → Parser γ} {g : ε → Parser δ} (v : ε)
    (here : seen context c = .ok (v, c))
    (there : ∀ {future d}, k ≤ Passage.lead future → (t = true → Passage.Opens future) →
      Cursor.Aligned future c d → seen context d = .ok (v, d))
    (h : Tracks n unclosed k t context c same' (f v) (g v)) :
    Tracks n unclosed k t context c same' (seen >>= f) (seen >>= g) :=
  congr (bind_eq_ok here) (fun lead opens aligned => bind_eq_ok (there lead opens aligned)) h

/-- The current token, where no semicolon is left out before what follows. -/
theorem current {f : Token → Parser γ} {g : Token → Parser δ} (firm : 0 < k ∨ t = true)
    (h : ∀ token, c.current.Alike token →
      Tracks n unclosed k t context c same' (f c.current) (g token)) :
    Tracks n unclosed k t context c same' (Parser.current >>= f) (Parser.current >>= g) :=
  each (current_bind f) (h _ (.refl _)) fun {_ d} lead opens aligned =>
    ⟨g d.current, current_bind g, h _ (firm.elim
      (fun takes => aligned.ofLead (Nat.lt_of_lt_of_le takes lead))
      (fun tight => aligned.ofOpens (opens tight)))⟩

/-- The current token, where it makes no difference whether there is a semicolon before it. -/
theorem currentAny {f : Token → Parser γ} {g : Token → Parser δ}
    (h : ∀ token, c.current.Shows token →
      Tracks n unclosed k t context c same' (f c.current) (g token)) :
    Tracks n unclosed k t context c same' (Parser.current >>= f) (Parser.current >>= g) :=
  each (current_bind f) (h _ (.inl (.refl _))) fun {_ d} _ _ aligned =>
    ⟨g d.current, current_bind g, h _ aligned.shows⟩

/-- The current token, where it is taken under some condition that no semicolon meets. -/
theorem currentIf {f : Token → Parser γ} {g : Token → Parser δ} (test : Token → Bool)
    (same : ∀ {token other}, token.Alike other → test other = test token)
    (written : ∀ {other : Token}, other.kind = .semicolon → test other = false)
    (yes : test c.current = true → ∀ token, c.current.Alike token →
      Tracks n unclosed 1 t context c same' (f c.current) (g token))
    (no : test c.current = false → ∀ token, test token = false →
      Tracks n unclosed 0 t context c same' (f c.current) (g token)) :
    Tracks n unclosed 0 t context c same' (Parser.current >>= f) (Parser.current >>= g) := by
  cases seen : test c.current with
  | true => exact (current (.inl Nat.one_pos) (yes seen)).weaken (Nat.le_refl n) (Nat.zero_le 1)
  | false =>
    refine currentAny fun token shows => no seen token ?_
    rcases shows with alike | ⟨kind, _⟩
    · rw [same alike, seen]
    · exact written kind

/-- An operand that is missing under some condition on the current token that a semicolon meets. -/
theorem operand {part part' : Parser SyntaxTree} {f : SyntaxTree → Parser γ}
    {g : SyntaxTree → Parser δ} (ends : Token → Bool)
    (same : ∀ {token other}, token.Alike other → ends other = ends token)
    (written : ∀ {other : Token}, other.kind = .semicolon → ends other = true)
    (present : Tracks n [] 1 t context c Tree.Same part part')
    (h : ∀ tree tree' c, tree.Same tree' →
      Tracks n unclosed 0 t context c same' (f tree) (g tree')) :
    Tracks n unclosed 0 t context c same'
      (Parser.current >>= fun token =>
        if ends token then Pure.pure .missing >>= f else part >>= f)
      (Parser.current >>= fun token =>
        if ends token then Pure.pure .missing >>= g else part' >>= g) := by
  refine currentIf (fun token => !ends token) (fun alike => by rw [same alike])
    (fun kind => by rw [written kind]; rfl) (fun goes token alike => ?_) fun seen token seen' => ?_
  · rw [Bool.not_eq_true'] at goes
    rw [same alike, goes, if_neg Bool.false_ne_true, if_neg Bool.false_ne_true]
    exact present.bindLead h
  · rw [Bool.not_eq_false'] at seen seen'
    rw [seen, seen', if_pos rfl, if_pos rfl]
    exact h _ _ _ (.refl .missing)

/-- Whether a token is of some kind. -/
theorem sees {kind : TokenKind} {f : Bool → Parser γ} {g : Bool → Parser δ}
    (firm : 0 < k ∨ t = true)
    (yes : c.current.kind = kind → Tracks n unclosed k t context c same' (f true) (g true))
    (no : c.current.kind ≠ kind → Tracks n unclosed k t context c same' (f false) (g false)) :
    Tracks n unclosed k t context c same' (Parser.sees kind >>= f) (Parser.sees kind >>= g) := by
  rw [Parser.sees, bind_assoc, bind_assoc]
  refine current firm fun token alike => ?_
  simp only [pure_bind, alike.kind]
  by_cases seen : c.current.kind = kind
  · simpa [seen] using yes seen
  · simpa [seen] using no seen

/-- Whether a word stands here. -/
theorem seesWord {word : String} {f : Bool → Parser γ} {g : Bool → Parser δ}
    (firm : 0 < k ∨ t = true)
    (yes : c.current.isWord word = true →
      Tracks n unclosed k t context c same' (f true) (g true))
    (no : Tracks n unclosed k t context c same' (f false) (g false)) :
    Tracks n unclosed k t context c same' (Parser.seesWord word >>= f)
      (Parser.seesWord word >>= g) := by
  rw [Parser.seesWord, bind_assoc, bind_assoc]
  refine current firm fun token alike => ?_
  simp only [pure_bind, alike.isWord]
  cases seen : c.current.isWord word with
  | true => exact yes seen
  | false => exact no

theorem seesSame {kind : TokenKind} {f : Bool → Parser γ} {g : Bool → Parser δ}
    (firm : 0 < k ∨ t = true)
    (h : ∀ b, Tracks n unclosed k t context c same' (f b) (g b)) :
    Tracks n unclosed k t context c same' (Parser.sees kind >>= f) (Parser.sees kind >>= g) :=
  sees firm (fun _ => h true) fun _ => h false

/-- A part that is missing in front of the token that has to stand behind it. -/
theorem partBefore {kind : TokenKind} {part part' : Parser SyntaxTree} {f : SyntaxTree → Parser γ}
    {g : SyntaxTree → Parser δ}
    (present : Tracks n [] 1 t context c Tree.Same part part')
    (h : ∀ tree tree' c, tree.Same tree' →
      Tracks n unclosed 1 t context c same' (f tree) (g tree')) :
    Tracks n unclosed 0 t context c same'
      (Parser.sees kind >>= fun b => if b then Pure.pure .missing >>= f else part >>= f)
      (Parser.sees kind >>= fun b => if b then Pure.pure .missing >>= g else part' >>= g) := by
  refine weaken (k := 1) ?_ (Nat.le_refl n) (Nat.zero_le 1)
  refine sees (.inl Nat.one_pos) (fun _ => h _ _ _ (.refl .missing)) fun _ => ?_
  exact present.bindLead fun _ _ _ same => (h _ _ _ same).weaken (Nat.le_refl n) (Nat.zero_le 1)

/-- Whether a token is of some kind, where one that is will be taken. -/
theorem seesOptional {kind : TokenKind} {f : Bool → Parser γ} {g : Bool → Parser δ}
    (other : kind ≠ .semicolon)
    (yes : c.current.kind = kind → Tracks n unclosed 1 t context c same' (f true) (g true))
    (no : c.current.kind ≠ kind → Tracks n unclosed 0 t context c same' (f false) (g false)) :
    Tracks n unclosed 0 t context c same' (Parser.sees kind >>= f) (Parser.sees kind >>= g) := by
  by_cases seen : c.current.kind = kind
  · exact (sees (.inl Nat.one_pos) yes (absurd seen)).weaken (Nat.le_refl n) (Nat.zero_le 1)
  · rw [Parser.sees, bind_assoc, bind_assoc]
    refine currentAny fun token shows => ?_
    have unseen : token.kind ≠ kind := by
      rcases shows with alike | ⟨written, _⟩
      · rwa [alike.kind]
      · rw [written]
        exact other.symm
    simpa [seen, unseen] using no seen

/-- Both parsers take the token that stands in front of them. -/
theorem taking {f : Token → Parser γ} {g : Token → Parser δ} {p : Parser γ} {q : Parser δ}
    (live : c.current.kind ≠ .endOfInput)
    (nest : TokenKind.nest unclosed c.current.kind = some unclosed')
    (here : p context c = f c.current context c.next)
    (there : ∀ {d}, c.current.Alike d.current → q context d = g d.current context d.next)
    (h : ∀ token, c.current.Alike token →
      Tracks n unclosed' k t context c.next same' (f c.current) (g token)) :
    Tracks (n + 1) unclosed (k + 1) t context c same' p q where
  ok final a c' taken := by
    rw [here] at taken
    obtain ⟨events, beside⟩ := (h _ (.refl _)).ok final taken
    refine ⟨.token c.current :: events, (Cursor.next_moves final live).trans beside.moves,
      (TokenKind.nestAll_cons nest).trans beside.nested, Nat.succ_le_succ beside.lead_le,
      fun _ => Passage.opens_of_lead (Nat.succ_pos _), fun later d opens aligned => ?_⟩
    obtain ⟨alike, behind⟩ := aligned.ofToken
    obtain ⟨events', beside'⟩ := (h _ alike).ok final taken
    obtain rfl := beside.moves.unique beside'.moves
    rw [there alike]
    exact beside'.follows later d.next opens behind
  error final _ stopped :=
    ((h _ (.refl _)).error final (here ▸ stopped)).before (Cursor.next_moves final live)
      (Nat.le_refl _) (Nat.le_refl _)

theorem advance {f : Token → Parser γ} {g : Token → Parser δ}
    (live : c.current.kind ≠ .endOfInput)
    (nest : TokenKind.nest unclosed c.current.kind = some unclosed')
    (h : ∀ token, c.current.Alike token →
      Tracks n unclosed' k t context c.next same' (f c.current) (g token)) :
    Tracks (n + 1) unclosed (k + 1) t context c same' (Parser.advance >>= f)
      (Parser.advance >>= g) :=
  taking live nest (advance_bind f) (fun _ => advance_bind g) h

theorem takeLeaf {f : SyntaxTree → Parser γ} {g : SyntaxTree → Parser δ}
    (live : c.current.kind ≠ .endOfInput)
    (nest : TokenKind.nest unclosed c.current.kind = some unclosed')
    (h : ∀ tree, (leaf c.current).Same tree →
      Tracks n unclosed' k t context c.next same' (f (leaf c.current)) (g tree)) :
    Tracks (n + 1) unclosed (k + 1) t context c same' (Parser.takeLeaf >>= f)
      (Parser.takeLeaf >>= g) :=
  taking (f := fun token => f (leaf token)) (g := fun token => g (leaf token)) live nest
    (takeLeaf_bind f) (fun _ => takeLeaf_bind g) fun _ alike => h _ alike.leaf

theorem expect {kind : TokenKind} {f : Token → Parser γ} {g : Token → Parser δ}
    (live : kind ≠ .endOfInput) (nest : TokenKind.nest unclosed kind = some unclosed')
    (h : c.current.kind = kind → ∀ token, c.current.Alike token →
      Tracks n unclosed' k t context c.next same' (f c.current) (g token)) :
    Tracks (n + 1) unclosed (k + 1) t context c same' (Parser.expect kind >>= f)
      (Parser.expect kind >>= g) := by
  by_cases seen : c.current.kind = kind
  · refine taking (by rwa [seen]) (by rwa [seen]) ?_ (fun alike => ?_) (h seen)
    · rw [expect_bind, if_pos seen]
    · rw [expect_bind, if_pos (by rw [alike.kind, seen])]
  · exact stops ((expect_bind kind f).trans (if_neg seen))

theorem expectWord {word : String} {f : Unit → Parser γ} {g : Unit → Parser δ}
    (nest : TokenKind.nest unclosed .identifier = some unclosed')
    (h : Tracks n unclosed' k t context c.next same' (f ()) (g ())) :
    Tracks (n + 1) unclosed (k + 1) t context c same' (Parser.expectWord word >>= f)
      (Parser.expectWord word >>= g) := by
  by_cases seen : c.current.isWord word = true
  · have kind := isWord_kind seen
    refine taking (f := fun _ => f ()) (g := fun _ => g ()) (by simp [kind]) (by rwa [kind]) ?_
      (fun alike => ?_) fun _ _ => h
    · rw [expectWord_bind, if_pos seen]
    · rw [expectWord_bind, if_pos (by rw [alike.isWord, seen])]
  · exact stops ((expectWord_bind word f).trans (if_neg seen))

/-- The first token of a construct. -/
theorem start (other : c.current.kind ≠ .kwImport)
    (h : Tracks n unclosed 1 t context c same p q) :
    Tracks n unclosed c.lead t context c same p q :=
  h.weaken (Nat.le_refl n) (Nat.le_of_eq (Cursor.lead_eq_one other))

theorem expectStart {kind : TokenKind} {f : Token → Parser γ} {g : Token → Parser δ}
    (other : kind ≠ .kwImport) (live : kind ≠ .endOfInput)
    (nest : TokenKind.nest unclosed kind = some unclosed')
    (h : c.current.kind = kind → ∀ token, c.current.Alike token →
      Tracks n unclosed' 0 t context c.next same' (f c.current) (g token)) :
    Tracks (n + 1) unclosed c.lead t context c same' (Parser.expect kind >>= f)
      (Parser.expect kind >>= g) := by
  by_cases seen : c.current.kind = kind
  · exact start (by rwa [seen]) (expect live nest h)
  · exact stops ((expect_bind kind f).trans (if_neg seen))

/-- Behind the first token of a construct. -/
theorem mid (h : Tracks (n + 1) unclosed (k - 1 + 1) t context c same p q) :
    Tracks n unclosed k t context c same p q :=
  h.weaken (Nat.le_succ n) (by omega)

/-- A construct that is a single token. -/
theorem lastLeaf (live : c.current.kind ≠ .endOfInput) (plain : c.current.kind.isPlain = true) :
    Tracks n [] 1 t context c Tree.Same Parser.takeLeaf Parser.takeLeaf := by
  have tracks : Tracks n [] 1 t context c Tree.Same (Parser.takeLeaf >>= Pure.pure)
      (Parser.takeLeaf >>= Pure.pure) :=
    mid (takeLeaf live (TokenKind.nest_of_plain plain []) fun _ alike => .pure alike)
  rwa [bind_pure] at tracks

/-- A token that may stand here, unless it is a semicolon that may be left out in front of what
follows. -/
theorem acceptIf {kind : TokenKind} {f : Bool → Parser γ} {g : Bool → Parser δ}
    (firm : kind ≠ .semicolon ∨ 0 < k ∨ t = true) (live : kind ≠ .endOfInput)
    (nest : TokenKind.nest unclosed kind = some unclosed')
    (yes : c.current.kind = kind →
      Tracks n unclosed' (k - 1) t context c.next same' (f true) (g true))
    (no : c.current.kind ≠ kind → Tracks n unclosed k t context c same' (f false) (g false)) :
    Tracks n unclosed k t context c same' (Parser.accept kind >>= f)
      (Parser.accept kind >>= g) := by
  by_cases seen : c.current.kind = kind
  · refine mid (taking (f := fun _ => f true) (g := fun _ => g true) (by rwa [seen])
      (by rwa [seen]) ?_ (fun alike => ?_) fun _ _ => yes seen)
    · rw [accept_bind, if_pos seen]
    · rw [accept_bind, if_pos (by rw [alike.kind, seen])]
  · refine congr ((accept_bind kind f).trans (if_neg seen)) (fun {_ d} lead opens aligned => ?_)
      (no seen)
    have unseen : d.current.kind ≠ kind := by
      rcases aligned.shows with alike | ⟨written, _⟩
      · rwa [alike.kind]
      rcases firm with other | takes | tight
      · rw [written]
        exact other.symm
      · rwa [(aligned.ofLead (Nat.lt_of_lt_of_le takes lead)).kind]
      · rwa [(aligned.ofOpens (opens tight)).kind]
    exact (accept_bind kind g).trans (if_neg unseen)

theorem accept {kind : TokenKind} {f : Bool → Parser γ} {g : Bool → Parser δ}
    (other : kind ≠ .semicolon) (live : kind ≠ .endOfInput)
    (nest : TokenKind.nest unclosed kind = some unclosed')
    (yes : c.current.kind = kind →
      Tracks n unclosed' (k - 1) t context c.next same' (f true) (g true))
    (no : c.current.kind ≠ kind → Tracks n unclosed k t context c same' (f false) (g false)) :
    Tracks n unclosed k t context c same' (Parser.accept kind >>= f)
      (Parser.accept kind >>= g) :=
  acceptIf (.inl other) live nest yes no

theorem acceptSame {kind : TokenKind} {f : Bool → Parser γ} {g : Bool → Parser δ}
    (other : kind ≠ .semicolon) (live : kind ≠ .endOfInput) (plain : kind.isPlain = true)
    (h : ∀ b c, Tracks n unclosed 0 t context c same' (f b) (g b)) :
    Tracks n unclosed 0 t context c same' (Parser.accept kind >>= f) (Parser.accept kind >>= g) :=
  accept other live (TokenKind.nest_of_plain plain unclosed) (fun _ => h _ _) fun _ => h _ _

/-- A word that does stand here. -/
theorem takeWord {word : String} {f : Bool → Parser γ} {g : Bool → Parser δ}
    (seen : c.current.isWord word = true)
    (nest : TokenKind.nest unclosed .identifier = some unclosed')
    (h : Tracks n unclosed' k t context c.next same' (f true) (g true)) :
    Tracks (n + 1) unclosed (k + 1) t context c same' (Parser.acceptWord word >>= f)
      (Parser.acceptWord word >>= g) := by
  have kind := isWord_kind seen
  refine taking (f := fun _ => f true) (g := fun _ => g true) (by simp [kind]) (by rwa [kind]) ?_
    (fun alike => ?_) fun _ _ => h
  · rw [acceptWord_bind, if_pos seen]
  · rw [acceptWord_bind, if_pos (by rw [alike.isWord, seen])]

/-- A word that does not stand here. -/
theorem skipWord {word : String} {f : Bool → Parser γ} {g : Bool → Parser δ}
    (unseen : c.current.isWord word = false)
    (h : Tracks n unclosed k t context c same' (f false) (g false)) :
    Tracks n unclosed k t context c same' (Parser.acceptWord word >>= f)
      (Parser.acceptWord word >>= g) := by
  refine congr ((acceptWord_bind word f).trans (if_neg (by simp [unseen])))
    (fun _ _ aligned => ?_) h
  rw [acceptWord_bind, aligned.shows.isWord unseen, if_neg Bool.false_ne_true]

/-- A word that may stand here. -/
theorem acceptWord {word : String} {f : Bool → Parser γ} {g : Bool → Parser δ}
    (nest : TokenKind.nest unclosed .identifier = some unclosed')
    (yes : c.current.isWord word = true →
      Tracks n unclosed' (k - 1) t context c.next same' (f true) (g true))
    (no : c.current.isWord word = false →
      Tracks n unclosed k t context c same' (f false) (g false)) :
    Tracks n unclosed k t context c same' (Parser.acceptWord word >>= f)
      (Parser.acceptWord word >>= g) := by
  cases seen : c.current.isWord word with
  | true => exact mid (takeWord seen nest (yes seen))
  | false => exact skipWord seen (no seen)

theorem acceptWordSame {word : String} {f : Bool → Parser γ} {g : Bool → Parser δ}
    (h : ∀ b c, Tracks n unclosed 0 t context c same' (f b) (g b)) :
    Tracks n unclosed 0 t context c same' (Parser.acceptWord word >>= f)
      (Parser.acceptWord word >>= g) :=
  acceptWord (TokenKind.nest_of_plain rfl unclosed) (fun _ => h _ _) fun _ => h _ _

theorem finish {label : Label} {children children' : List SyntaxTree} {start start' : Location}
    (h : Tree.AllSame children children') :
    Tracks n [] 0 t context c Tree.Same (Parser.finish label children start)
      (Parser.finish label children' start') where
  ok _ tree c' taken := by
    obtain ⟨some, rfl, rfl⟩ := finish_ok.1 taken
    refine ⟨[], .refl c, rfl, Nat.le_refl 0, fun _ => Passage.opens_nil, fun later d _ aligned => ?_⟩
    exact ⟨_, d, finish_ok.2 ⟨aligned.taken some, rfl, rfl⟩, h.node _ _ _, aligned⟩
  error _ halt stopped := by
    rw [← bind_pure (Parser.finish label children start), finish_bind] at stopped
    cases last : c.last? with
    | some token => simp [last] at stopped; cases stopped
    | none =>
      simp only [last, Option.isSome_none, Bool.false_eq_true, if_false, Except.error.injEq]
        at stopped
      subst stopped
      exact ⟨rfl, last⟩

/-- What follows a node that a token was taken for. -/
theorem finishBind {label : Label} {children children' : List SyntaxTree} {start start' : Location}
    {f : SyntaxTree → Parser γ} {g : SyntaxTree → Parser δ} (taken : c.last?.isSome = true)
    (same : Tree.AllSame children children')
    (h : ∀ tree tree', tree.Same tree' → Tracks n unclosed k t context c same' (f tree) (g tree')) :
    Tracks n unclosed k t context c same' (Parser.finish label children start >>= f)
      (Parser.finish label children' start' >>= g) := by
  refine each ?_ (h _ _ (same.node label ⟨start, c.stop⟩ ⟨start', c.stop⟩))
    fun {_ d} _ _ aligned => ⟨g (.node label children' ⟨start', d.stop⟩), ?_, h _ _ (same.node _ _ _)⟩
  · rw [finish_bind, if_pos taken]
  · rw [finish_bind, if_pos (aligned.taken taken)]

theorem endStatement_eq : Parser.endStatement context c =
    if c.current.kind = .semicolon then .ok ((), c.next)
    else if c.current.endsStatement = true then .ok ((), c.skipSemicolon)
    else .error ⟨.error ⟨.expectedTerminator c.current.kind, c.current⟩, c⟩ := by
  rw [Parser.endStatement, accept_bind]
  by_cases semicolon : c.current.kind = .semicolon
  · rw [if_pos semicolon, if_pos semicolon]
    rfl
  · rw [if_neg semicolon, if_neg semicolon, if_neg Bool.false_ne_true, current_bind]
    by_cases ends : c.current.endsStatement = true
    · rw [if_pos ends, if_pos ends]
      rfl
    · rw [if_neg ends, if_neg ends]
      rfl

/-- A semicolon is taken, or it is left out and may be written beside. -/
theorem endStatement : Tracks n [] 0 false context c (fun _ _ => True) Parser.endStatement
    Parser.endStatement where
  ok final u c' taken := by
    rw [endStatement_eq] at taken
    split at taken
    · rename_i semicolon
      cases taken
      refine ⟨[.token c.current], Cursor.next_moves final (by simp [semicolon]), ?_, Nat.zero_le _,
        fun tight => absurd tight Bool.false_ne_true, fun later d _ aligned => ?_⟩
      · rw [Passage.kinds, Passage.tokens_token, List.map_cons, semicolon]
        rfl
      · obtain ⟨alike, behind⟩ := aligned.ofToken
        refine ⟨(), d.next, ?_, trivial, behind⟩
        rw [endStatement_eq, if_pos (by rw [alike.kind, semicolon])]
    · rename_i other
      obtain ⟨ends, skipped⟩ := expected_ok.1 taken
      cases skipped
      refine ⟨[.automatic], Cursor.skipSemicolon_moves ends, rfl, Nat.zero_le _,
        fun tight => absurd tight Bool.false_ne_true, fun later d _ aligned => ?_⟩
      obtain ⟨written, behind⟩ | ⟨unwritten, ends', behind⟩ := aligned.ofAutomatic other
      · exact ⟨(), d.next, by rw [endStatement_eq, if_pos written], trivial, behind⟩
      · exact ⟨(), d.skipSemicolon, by rw [endStatement_eq, if_neg unwritten, if_pos ends'],
          trivial, behind⟩
  error final halt stopped := by
    rw [endStatement_eq] at stopped
    split at stopped
    · cases stopped
    · split at stopped
      · cases stopped
      · cases stopped
        exact ⟨c.current_mem, [], .refl c⟩

theorem allowingIn (h : Tracks n unclosed k t { context with allowIn := true } c same p q) :
    Tracks n unclosed k t context c same (Parser.allowingIn p) (Parser.allowingIn q) where
  ok final _ _ taken := let ⟨events, beside⟩ := h.ok final taken; ⟨events, { beside with }⟩
  error final _ stopped := h.error final stopped

theorem forbiddingIn (h : Tracks n unclosed k t { context with allowIn := false } c same p q) :
    Tracks n unclosed k t context c same (Parser.forbiddingIn p) (Parser.forbiddingIn q) where
  ok final _ _ taken := let ⟨events, beside⟩ := h.ok final taken; ⟨events, { beside with }⟩
  error final _ stopped := h.error final stopped

theorem insideFunction {isAsync isGenerator : Bool}
    (h : ∀ context, Tracks n unclosed k t context c same p q) :
    Tracks n unclosed k t context c same (Parser.insideFunction isAsync isGenerator p)
      (Parser.insideFunction isAsync isGenerator q) where
  ok final _ _ taken := let ⟨events, beside⟩ := (h _).ok final taken; ⟨events, { beside with }⟩
  error final _ stopped := (h _).error final stopped

/-- The parser that is bounded by the number of tokens left, beside one that is bounded by more. -/
theorem sized {p : Nat → Parser α} {q : Nat → Parser β}
    (h : ∀ bound, c.rest.length + 1 ≤ bound →
      Tracks n unclosed k t context c same (p (c.rest.length + 1)) (q bound)) :
    Tracks n unclosed k t context c same (do p ((← get).rest.length + 1))
      (do q ((← get).rest.length + 1)) := by
  have own := h _ (Nat.le_refl _)
  refine each ?_ own fun {_ d} _ _ aligned => ⟨q (d.rest.length + 1), ?_,
    h _ (Nat.succ_le_succ aligned.filled.length_le)⟩
  · rfl
  · rfl

/-- Elements that start with a token, up to one that ends them: either nothing is left out around
them, or a semicolon ends them as well. -/
theorem collectLead {ends : TokenKind → Bool} {element element' : Parser (List SyntaxTree)}
    (firm : t = true ∨ ends .semicolon = true)
    (h : ∀ c : Cursor, ends c.current.kind = false →
      Tracks n [] 1 t context c Tree.AllSame element element') :
    Tracks n [] (if ends c.current.kind then 0 else 1) t context c Tree.AllSame
      (Parser.collect ends element) (Parser.collect ends element') := by
  refine sized fun bound enough => ?_
  -- the induction is on the bound of the first parser, which the elements keep above the number
  -- of tokens left
  generalize hb : c.rest.length + 1 = bound' at enough
  replace hb : c.rest.length < bound' := by omega
  induction bound' generalizing c bound with
  | zero => omega
  | succ bound' ih =>
    obtain ⟨bound, rfl⟩ : ∃ later, bound = later + 1 := ⟨bound - 1, by omega⟩
    rw [collectFuel, collectFuel]
    cases stops : ends c.current.kind with
    | true =>
      have none : Tracks n [] 0 t context c Tree.AllSame (Pure.pure ([] : List SyntaxTree))
          (Pure.pure []) := .pure .nil
      refine congr ?_ (fun {_ d} _ opens aligned => ?_) none
      · rw [current_bind, if_pos stops]
      · rw [current_bind, if_pos]
        rcases firm with tight | semicolon
        · rw [(aligned.ofOpens (opens tight)).kind, stops]
        · rcases aligned.shows with alike | ⟨written, _⟩
          · rw [alike.kind, stops]
          · rw [written, semicolon]
    | false =>
      rw [if_neg Bool.false_ne_true]
      refine current (.inl Nat.one_pos) fun token alike => ?_
      rw [alike.kind, stops, if_neg Bool.false_ne_true, if_neg Bool.false_ne_true]
      refine (h c stops).bindMoves fun same moves lead => ?_
      have shorter := moves.lead_add_le
      exact bind (ih bound (by omega) (by omega)) fun _ _ _ same' => .pure (same.append same')

theorem collect {ends : TokenKind → Bool} {element element' : Parser (List SyntaxTree)}
    (firm : t = true ∨ ends .semicolon = true)
    (h : ∀ c : Cursor, ends c.current.kind = false →
      Tracks n [] 1 t context c Tree.AllSame element element') :
    Tracks n [] 0 t context c Tree.AllSame (Parser.collect ends element)
      (Parser.collect ends element') :=
  (collectLead firm h).weaken (Nat.le_refl n) (Nat.zero_le _)

theorem collectSome {ends : TokenKind → Bool} {element element' : Parser (List SyntaxTree)}
    (firm : t = true ∨ ends .semicolon = true) (goes : ends c.current.kind = false)
    (h : ∀ c : Cursor, ends c.current.kind = false →
      Tracks n [] 1 t context c Tree.AllSame element element') :
    Tracks n [] 1 t context c Tree.AllSame (Parser.collect ends element)
      (Parser.collect ends element') := by
  have lead := collectLead (c := c) firm h
  rwa [goes] at lead

/-- Steps that do not go on or take a token, again and again. -/
theorem iterate {step step' : SyntaxTree → Parser (Option SyntaxTree)} {state state' : SyntaxTree}
    (h : ∀ (c : Cursor) {state state' : SyntaxTree}, state.Same state' →
      Steps n t context c (step state) (step' state')) (same : state.Same state') :
    Tracks n [] 0 t context c Tree.Same (Parser.iterate step state)
      (Parser.iterate step' state') := by
  refine sized (p := fun bound => iterateFuel step bound state)
    (q := fun bound => iterateFuel step' bound state') fun bound enough => ?_
  -- as above, on the bound of the first parser
  generalize hb : c.rest.length + 1 = bound' at enough
  replace hb : c.rest.length < bound' := by omega
  induction bound' generalizing c bound state state' with
  | zero => omega
  | succ bound' ih =>
    obtain ⟨bound, rfl⟩ : ∃ later, bound = later + 1 := ⟨bound - 1, by omega⟩
    rw [iterateFuel, iterateFuel]
    cases h c same with
    | ends here there =>
      exact congr (bind_eq_ok here) (fun _ _ aligned => bind_eq_ok (there aligned)) (.pure same)
    | goes tracks =>
      refine weaken ?_ (Nat.le_refl n) (Nat.zero_le 1)
      refine tracks.bindMoves fun {next next' c' events} related moves lead => ?_
      obtain ⟨tree, tree', rfl, rfl, same'⟩ := related
      have shorter := moves.lead_add_le
      exact ih same' bound (by omega) (by omega)

/-- One element as a list. -/
theorem single {element element' : Parser SyntaxTree}
    (h : Tracks n [] k t context c Tree.Same element element') :
    Tracks n [] k t context c Tree.AllSame (do return [← element]) (do return [← element']) :=
  h.bindLead fun _ _ _ same => .pure (.single same)

/-- An element in brackets stands in front of a comma or of the bracket. -/
theorem listed {close : TokenKind} {element element' : Parser SyntaxTree}
    (h : Tracks n [] k true context c Tree.Same element element') :
    Tracks n [] k true context c Tree.AllSame (Parser.listed close element)
      (Parser.listed close element') := by
  refine h.bindLead fun first first' c₁ same => ?_
  refine sees (.inr rfl) (fun _ => .pure (.single same)) fun _ => ?_
  exact mid (expect nofun rfl fun _ _ _ => .pure (.single same))

/-- What follows a part that only stands behind a token of some kind. -/
theorem optional {kind : TokenKind} {part part' : Parser SyntaxTree} {f : SyntaxTree → Parser γ}
    {g : SyntaxTree → Parser δ} (other : kind ≠ .semicolon) (live : kind ≠ .endOfInput)
    (plain : kind.isPlain = true)
    (present : ∀ c : Cursor, Tracks n [] k t context c Tree.Same part part')
    (h : ∀ tree tree' c', tree.Same tree' →
      Tracks n unclosed 0 t context c' same' (f tree) (g tree')) :
    Tracks n unclosed 0 t context c same'
      (Parser.accept kind >>= fun b => if b then part >>= f else Pure.pure .missing >>= f)
      (Parser.accept kind >>= fun b => if b then part' >>= g else Pure.pure .missing >>= g) :=
  accept other live (TokenKind.nest_of_plain plain unclosed) (fun _ => (present _).bind h)
    fun _ => h _ _ _ (.refl _)

end Tracks

end Parser

/-- Statements stand between others, without semicolons that are left out around them. -/
def Rule.isTight : Rule → Bool
  | item | statement => true
  | _ => false

/-- The parsers of each rule fare alike. -/
def Rules.Track (depth : Nat) (rules rules' : Rules) : Prop :=
  ∀ (rule : Rule) (context : ParseContext) (c : Cursor),
    Parser.Tracks depth [] c.lead rule.isTight context c Tree.Same (rules rule) (rules' rule)

namespace Rules.Track

variable {n : Nat} {rules rules' : Rules} {t : Bool} {context : ParseContext} {c : Cursor}

theorem one (track : Track n rules rules') (rule : Rule) :
    Parser.Tracks n [] 1 rule.isTight context c Tree.Same (rules rule) (rules' rule) :=
  (track rule context c).weaken (Nat.le_refl n) c.lead_pos

theorem free (track : Track n rules rules') (rule : Rule) (loose : rule.isTight = false) :
    Parser.Tracks n [] 1 t context c Tree.Same (rules rule) (rules' rule) := by
  have tracks : Parser.Tracks n [] 1 rule.isTight context c Tree.Same (rules rule)
      (rules' rule) := track.one rule
  rw [loose] at tracks
  exact tracks.tighten Nat.one_pos

end Rules.Track

end Uncurry
