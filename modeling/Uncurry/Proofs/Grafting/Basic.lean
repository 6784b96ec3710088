import Uncurry.Proofs.Document.Parts
import Uncurry.Proofs.Lexical.Agreement
import Uncurry.Proofs.Progress.Tracking

/-!
# A dotted name in the place of a name

A graft puts a dotted name where a name is called: among tokens it stands in front of the same
parenthesis, in a tree the members of the name stand for the leaf. `Graft.Apt` says of a tree that
the name occurs in it as a callee alone, and in every node around its place, and `Graft.Beside`
relates what two parsers have in front of them, one with the name and one with the graft.
-/
namespace Uncurry

/-- The words that are more than names in some places. -/
def contextualWords : List String :=
  ["async", "await", "yield", "let", "of", "get", "set", "static", "as", "from", "assert"]

def Text.isContextual (text : Text) : Bool :=
  contextualWords.any fun word => text = Text.ofString word

/-- A name makes way for a dotted name. -/
structure Graft where
  name : Text
  /-- Where the name stands, which tells it from the same name in other places. -/
  span : Span
  first : Text
  members : List Text
  name_plain : name ∉ LexContext.operatorWords
  first_plain : first.isContextual = false

/-- Tokens that look the same to a parser that takes neither of them. -/
structure Token.Resembles (token other : Token) : Prop where
  kind : other.kind = token.kind
  newlineBefore : other.newlineBefore = token.newlineBefore
  start : other.start = token.start

theorem Token.Resembles.refl (token : Token) : token.Resembles token := ⟨rfl, rfl, rfl⟩

theorem Text.ne_word {text : Text} (plain : text.isContextual = false) {word : String}
    (known : word ∈ contextualWords) : text ≠ Text.ofString word := by
  simpa using List.any_eq_false.1 plain word known

namespace Graft

variable (g : Graft)

/-- Whether a token is the name. -/
def names (token : Token) : Bool :=
  token.kind = .identifier && token.text = g.name && token.span = g.span

/-- The first token of the dotted name. All its tokens stand where the name stands. -/
def head (newlineBefore : Bool) : Token := ⟨.identifier, g.first, g.span, newlineBefore⟩

/-- The tokens of names behind points. -/
def links (members : List Text) : List Token :=
  members.flatMap fun member =>
    [⟨.dot, Text.ofString ".", g.span, false⟩, ⟨.identifier, member, g.span, false⟩]

/-- Some tokens, with the dotted name for the name in front of a parenthesis. -/
def tokens : List Token → List Token
  | [] => []
  | token :: rest =>
    if g.names token && rest.head?.any (·.kind = .leftParen) then
      g.head token.newlineBefore :: (g.links g.members ++ tokens rest)
    else token :: tokens rest

/-- The leaf of the name. -/
def leaf : SyntaxTree := .leaf (.token .identifier) g.name g.span

def member (object : SyntaxTree) (name : Text) : SyntaxTree :=
  .node .member [object, .leaf (.token .identifier) name g.span] g.span

/-- The tree of the dotted name. -/
def value : SyntaxTree :=
  g.members.foldl g.member (.leaf (.token .identifier) g.first g.span)

mutual

/-- A tree with the dotted name for the leaf of the name. -/
def tree : SyntaxTree → SyntaxTree
  | .missing => .missing
  | .leaf kind text span =>
    if kind = .token .identifier ∧ text = g.name ∧ span = g.span then g.value
    else .leaf kind text span
  | .node label children span => .node label (trees children) span

def trees : List SyntaxTree → List SyntaxTree
  | [] => []
  | first :: later => tree first :: trees later

end

/-- Whether the place of the name lies in another one. -/
def Within (span : Span) : Prop :=
  span.start.offset ≤ g.span.start.offset ∧ g.span.stop.offset ≤ span.stop.offset

/-- The name occurs in a tree as a callee alone, and no node around its place is without it. -/
inductive Apt : SyntaxTree → Prop
  | missing : Apt .missing
  | leaf {kind : LeafKind} {text : Text} {span : Span} :
      .leaf kind text span ≠ g.leaf → Apt (.leaf kind text span)
  | call {values : SyntaxTree} {span : Span} :
      Apt values → Apt (.node .call [g.leaf, values] span)
  | node {label : Label} {children : List SyntaxTree} {span : Span} :
      (∀ child ∈ children, Apt child) → (g.Within span → g.leaf ∈ Tree.partsAmong children) →
      Apt (.node label children span)

/-- The second cursor stands where the first one stands, with the graft in front of it. -/
structure Beside (c d : Cursor) : Prop where
  rest : d.rest = g.tokens c.rest
  final : d.final = c.final
  last : d.last?.map Token.stop = c.last?.map Token.stop
  ends : c.final.kind = .endOfInput
  ordered : ∃ start stop, Token.Ordered stop start c.rest

variable {g} {token : Token} {rest : List Token} {c d : Cursor} {object : SyntaxTree}
  {parts : List SyntaxTree} {label : Label} {kind : LeafKind} {text : Text} {span : Span}

theorem trees_eq (parts : List SyntaxTree) : g.trees parts = parts.map g.tree := by
  induction parts with
  | nil => rfl
  | cons first later ih => rw [trees, ih, List.map_cons]

@[simp] theorem tree_missing : g.tree .missing = .missing := rfl

@[simp] theorem tree_node :
    g.tree (.node label parts span) = .node label (parts.map g.tree) span := by
  rw [tree, trees_eq]

@[simp] theorem tree_leaf : g.tree g.leaf = g.value := if_pos ⟨rfl, rfl, rfl⟩

theorem tree_of_ne (other : .leaf kind text span ≠ g.leaf) :
    g.tree (.leaf kind text span) = .leaf kind text span :=
  if_neg fun same => other (by rw [leaf, same.1, same.2.1, same.2.2])

namespace Apt

theorem not_leaf : ¬g.Apt g.leaf := by
  intro apt
  cases apt with
  | leaf other => exact other rfl

theorem of_leaf (apt : g.Apt (.leaf kind text span)) : .leaf kind text span ≠ g.leaf :=
  fun same => not_leaf (same ▸ apt)

theorem children (apt : g.Apt (.node label parts span)) (other : label ≠ .call) :
    ∀ child ∈ parts, g.Apt child := by
  cases apt with
  | call => exact absurd rfl other
  | node parts _ => exact parts

/-- Where the place of the name is in a node, the name is. -/
theorem held (apt : g.Apt (.node label parts span)) (within : g.Within span) :
    g.leaf ∈ Tree.partsAmong parts := by
  cases apt with
  | call => exact List.mem_append_left _ List.mem_cons_self
  | node _ held => exact held within

theorem of_call {values : SyntaxTree} (apt : g.Apt (.node .call [object, values] span)) :
    (g.Apt object ∨ object = g.leaf) ∧ g.Apt values := by
  cases apt with
  | call values => exact ⟨.inr rfl, values⟩
  | node parts _ => exact ⟨.inl (parts _ (by simp)), parts _ (by simp)⟩

end Apt

theorem names_eq_true (named : g.names token = true) :
    token = ⟨.identifier, g.name, g.span, token.newlineBefore⟩ := by
  obtain ⟨kind, text, span, newline⟩ := token
  simp only [names, Bool.and_eq_true, decide_eq_true_eq] at named
  obtain ⟨⟨rfl, rfl⟩, rfl⟩ := named
  rfl

theorem names_of_kind (other : token.kind ≠ .identifier) : g.names token = false := by
  simp [names, other]

/-- The first token of the dotted name resembles the name. -/
theorem names_resembles (named : g.names token = true) :
    token.Resembles (g.head token.newlineBefore) where
  kind := by rw [names_eq_true named]; rfl
  newlineBefore := rfl
  start := by rw [names_eq_true named]; rfl

/-- Where the name is called. -/
def Called (g : Graft) (c : Cursor) : Prop :=
  g.names c.current = true ∧ (c.peek 1).kind = .leftParen

theorem Called.paren (called : g.Called c) : c.next.current.kind = .leftParen := by
  rw [← Cursor.peek_one]
  exact called.2

theorem uncalled_of_names (unnamed : g.names c.current = false) : ¬g.Called c := fun called => by
  simp [Called, unnamed] at called

theorem uncalled_of_kind (other : c.current.kind ≠ .identifier) : ¬g.Called c :=
  uncalled_of_names (names_of_kind other)

/-- The words that are operators are no names. -/
theorem uncalled_of_operator {word : String} (seen : c.current.isWord word = true)
    (operator : Text.ofString word ∈ LexContext.operatorWords) : ¬g.Called c := by
  intro called
  rw [names_eq_true called.1] at seen
  simp only [Token.isWord, decide_true, Bool.true_and, decide_eq_true_eq] at seen
  exact g.name_plain (seen ▸ operator)

theorem tokens_cons
    (uncalled : ¬(g.names token = true ∧ (rest.headD c.final).kind = .leftParen)) :
    g.tokens (token :: rest) = token :: g.tokens rest := by
  rw [tokens, if_neg]
  cases rest with
  | nil => simp
  | cons => simpa using uncalled

theorem tokens_called {later : List Token} {next : Token} (named : g.names token = true)
    (paren : next.kind = .leftParen) : g.tokens (token :: next :: later) =
      g.head token.newlineBefore :: (g.links g.members ++ next :: g.tokens later) := by
  have other : g.names next = false := names_of_kind (by rw [paren]; nofun)
  rw [tokens, if_pos (by simp [named, paren]), tokens, other, Bool.false_and,
    if_neg Bool.false_ne_true]

theorem length_le_tokens (rest : List Token) : rest.length ≤ (g.tokens rest).length := by
  induction rest with
  | nil => exact Nat.le_refl 0
  | cons token rest ih =>
    rw [tokens]
    split
    · simp only [List.length_cons, List.length_append]
      omega
    · exact Nat.succ_le_succ ih

theorem exists_tokens_cons (token : Token) (rest : List Token) : ∃ other later,
    g.tokens (token :: rest) = other :: later ∧ token.Resembles other := by
  rw [tokens]
  split
  · rename_i called
    exact ⟨_, _, rfl, names_resembles (Bool.and_eq_true_iff.1 called).1⟩
  · exact ⟨token, _, rfl, .refl token⟩

theorem head_tokens (final : Token) (rest : List Token) :
    (rest.headD final).Resembles ((g.tokens rest).headD final) := by
  cases rest with
  | nil => exact .refl final
  | cons token rest =>
    obtain ⟨other, later, same, like⟩ := exists_tokens_cons (g := g) token rest
    rw [same]
    exact like

/-- No bracket is opened or closed in a dotted name, and no arrow stands in it. -/
theorem arrowBehindBracket_tokens (depth : Nat) (rest : List Token) :
    Grammar.arrowBehindBracket depth (g.tokens rest) = Grammar.arrowBehindBracket depth rest := by
  have links (members : List Text) (depth : Nat) (rest : List Token) :
      Grammar.arrowBehindBracket depth (g.links members ++ rest) =
        Grammar.arrowBehindBracket depth rest := by
    induction members with
    | nil => rfl
    | cons member members ih => exact ih
  induction rest generalizing depth with
  | nil => rfl
  | cons token rest ih =>
    have behind : ((g.tokens rest).head?.any fun next =>
        next.kind = .arrow && !next.newlineBefore) =
          rest.head?.any fun next => next.kind = .arrow && !next.newlineBefore := by
      cases rest with
      | nil => rfl
      | cons next rest =>
        obtain ⟨other, later, same, like⟩ := exists_tokens_cons (g := g) next rest
        simp [same, like.kind, like.newlineBefore]
    rw [tokens]
    split
    · rename_i called
      have kind := congrArg Token.kind (names_eq_true (Bool.and_eq_true_iff.1 called).1)
      rw [Grammar.arrowBehindBracket, Grammar.arrowBehindBracket, kind]
      exact (links g.members depth _).trans (ih depth)
    · simp only [Grammar.arrowBehindBracket, ih, behind]

namespace Beside

variable (h : g.Beside c d)

include h

theorem current : c.current.Resembles d.current := by
  rw [Cursor.current, Cursor.current, h.rest, h.final]
  exact head_tokens _ _

theorem stop : d.stop = c.stop := by rw [Cursor.stop, Cursor.stop, h.last]

theorem taken : d.last?.isSome = c.last?.isSome := by
  simpa using congrArg Option.isSome h.last

theorem length_le : c.rest.length ≤ d.rest.length := h.rest ▸ length_le_tokens c.rest

theorem current_eq (uncalled : ¬g.Called c) : d.current = c.current := by
  rw [Called, Cursor.peek_one] at uncalled
  rw [Cursor.current, Cursor.current, h.rest, h.final]
  cases rest : c.rest with
  | nil => rfl
  | cons token rest' =>
    simp only [Cursor.current, Cursor.next, rest, List.headD_cons, List.tail_cons] at uncalled
    rw [tokens_cons uncalled]
    rfl

theorem ordered_next : ∃ start stop, Token.Ordered stop start c.next.rest := by
  obtain ⟨start, stop, ordered⟩ := h.ordered
  exact ⟨start, stop, ordered.of_infix (List.tail_suffix c.rest).isInfix⟩

/-- What is behind a token that is no called name. -/
theorem next (uncalled : ¬g.Called c) : g.Beside c.next d.next where
  rest := by
    rw [Called, Cursor.peek_one] at uncalled
    rw [Cursor.next, Cursor.next, h.rest]
    cases rest : c.rest with
    | nil => rfl
    | cons token rest' =>
      simp only [Cursor.current, Cursor.next, rest, List.headD_cons, List.tail_cons] at uncalled
      rw [tokens_cons uncalled]
      rfl
  final := h.final
  last := congrArg (some <| Token.stop ·) (h.current_eq uncalled)
  ends := h.ends
  ordered := h.ordered_next

theorem skipSemicolon : g.Beside c.skipSemicolon d.skipSemicolon :=
  ⟨h.rest, h.final, h.last, h.ends, h.ordered⟩

theorem peek (uncalled : ¬g.Called c) : (c.peek 1).Resembles (d.peek 1) := by
  rw [Cursor.peek_one, Cursor.peek_one]
  exact (h.next uncalled).current

/-- Tokens start one behind the other. -/
theorem start_le (live : c.next.current.kind ≠ .endOfInput) :
    c.current.start.offset ≤ c.next.current.start.offset := by
  obtain ⟨_, _, ordered⟩ := h.ordered
  cases rest : c.rest with
  | nil => simp [Cursor.current, Cursor.next, rest, h.ends] at live
  | cons token rest' =>
    cases rest' with
    | nil => simp [Cursor.current, Cursor.next, rest, h.ends] at live
    | cons next later =>
      rw [rest] at ordered
      simp only [Cursor.current, Cursor.next, rest, List.headD_cons, List.tail_cons]
      exact Nat.le_trans (Nat.le_of_lt ordered.2.1) ordered.2.2.1

/-- The tokens of a called name and of the dotted name. -/
theorem called (called : g.Called c) : ∃ token next later, c.rest = token :: next :: later ∧
    g.names token = true ∧ next.kind = .leftParen ∧
    d.rest = g.head token.newlineBefore :: (g.links g.members ++ next :: g.tokens later) := by
  obtain ⟨named, paren⟩ := called
  rw [Cursor.peek_one] at paren
  cases rest : c.rest with
  | nil => simp [Cursor.current, Cursor.next, rest, h.ends] at paren
  | cons token rest' =>
    cases rest' with
    | nil => simp [Cursor.current, Cursor.next, rest, h.ends] at paren
    | cons next later =>
      simp only [Cursor.current, Cursor.next, rest, List.headD_cons, List.tail_cons] at named paren
      exact ⟨token, next, later, rfl, named, paren, by rw [h.rest, rest, tokens_called named paren]⟩

/-- The graft starts with no word that is more than a name. -/
theorem isWord_called {word : String} (known : word ∈ contextualWords) (called : g.Called c) :
    d.current.isWord word = false := by
  obtain ⟨token, next, later, _, _, _, rest⟩ := h.called called
  rw [Cursor.current, rest]
  simp [head, Token.isWord, Text.ne_word g.first_plain known]

/-- A word is seen with the graft as it is seen without, unless it is the name. -/
theorem isWord {word : String} (known : word ∈ contextualWords)
    (uncalled : c.current.isWord word = true → ¬g.Called c) :
    d.current.isWord word = c.current.isWord word := by
  by_cases called : g.Called c
  · rw [h.isWord_called known called]
    exact (Bool.eq_false_iff.2 fun seen => uncalled seen called).symm
  · rw [h.current_eq called]

/-- What a word says together with the token behind it is the same with the graft, if the name says
nothing in front of a parenthesis. -/
theorem word_pair (word : String) (known : word ∈ contextualWords) (tells : Token → Bool)
    (like : ∀ {token other : Token}, token.Resembles other → tells other = tells token)
    (silent : c.current.isWord word = true → g.Called c → tells (c.peek 1) = false) :
    (d.current.isWord word && tells (d.peek 1)) =
      (c.current.isWord word && tells (c.peek 1)) := by
  by_cases called : g.Called c
  · rw [h.isWord_called known called, Bool.false_and]
    cases seen : c.current.isWord word with
    | true => rw [silent seen called, Bool.and_false]
    | false => rfl
  · rw [h.current_eq called, like (h.peek called)]

/-- What is told neither of a parenthesis nor of a point is told of the token behind the next one as
it is with the graft. -/
theorem peek_tells (tells : Token → Bool)
    (like : ∀ {token other : Token}, token.Resembles other → tells other = tells token)
    (other : ∀ {token : Token}, token.kind = .leftParen ∨ token.kind = .dot →
      tells token = false) :
    tells (d.peek 1) = tells (c.peek 1) := by
  by_cases called : g.Called c
  · obtain ⟨token, next, later, _, _, paren, rest⟩ := h.called called
    have link : (d.peek 1).kind = .leftParen ∨ (d.peek 1).kind = .dot := by
      rw [Cursor.peek, rest]
      cases g.members with
      | nil => exact .inl paren
      | cons => exact .inr rfl
    rw [other link, other (.inl called.2)]
  · exact like (h.peek called)

end Beside

end Graft

end Uncurry
