import Uncurry.Proofs.Syntax.Spelling

/-!
# What parsers take

A parser that succeeds moves a cursor over some tokens. `Cursor.Laid` says that these tokens are
laid out as a list of trees with other tokens between them, `Cursor.Stands` that they spell one
tree. Both assume that the token at the end is the end of the input, which no parser takes.
-/
namespace Uncurry

variable {α β σ : Type} {context : ParseContext} {c c' c'' : Cursor}

/-- The second cursor is the first one behind some tokens. -/
structure Cursor.Passes (c : Cursor) (taken : List Token) (c' : Cursor) : Prop where
  rest : c.rest = taken ++ c'.rest
  final : c'.final = c.final
  stop : c'.stop = (taken.getLast?.map Token.stop).getD c.stop

namespace Cursor

theorem Passes.refl (c : Cursor) : c.Passes [] c := ⟨rfl, rfl, rfl⟩

theorem Passes.trans {first second : List Token} (h : c.Passes first c')
    (h' : c'.Passes second c'') : c.Passes (first ++ second) c'' := by
  refine ⟨by rw [h.rest, h'.rest, List.append_assoc], by rw [h'.final, h.final], ?_⟩
  rw [h'.stop, h.stop, List.getLast?_append]
  cases second.getLast? <;> simp

theorem Passes.current_eq {taken : List Token} (h : c.Passes taken c') (nonempty : taken ≠ []) :
    c.current = taken.headD default := by
  obtain ⟨token, later, rfl⟩ := List.exists_cons_of_ne_nil nonempty
  simp [current, h.rest]

theorem Passes.spanOf_eq {taken : List Token} (h : c.Passes taken c') (nonempty : taken ≠ []) :
    Token.spanOf taken = ⟨c.current.start, c'.stop⟩ := by
  rw [Token.spanOf, h.current_eq nonempty, h.stop, List.getLast?_eq_some_getLast nonempty,
    List.getLastD_eq_getLast?, List.getLast?_eq_some_getLast nonempty]
  rfl

/-- The tokens between two cursors are laid out as some trees. -/
def Laid (c : Cursor) (trees : List SyntaxTree) (c' : Cursor) : Prop :=
  c.final.kind = .endOfInput → ∃ pieces, c.Passes (Piece.spelling pieces) c' ∧
    Piece.children pieces = trees ∧ (∀ piece ∈ pieces, piece.isEcho = false) ∧
    ∀ own tree, .child own tree ∈ pieces → Spelled own tree

/-- Between two cursors there are tokens, and they are laid out as some trees. -/
def LaidSome (c : Cursor) (trees : List SyntaxTree) (c' : Cursor) : Prop :=
  c.final.kind = .endOfInput → ∃ pieces, c.Passes (Piece.spelling pieces) c' ∧
    Piece.children pieces = trees ∧ (∀ piece ∈ pieces, piece.isEcho = false) ∧
    (∀ own tree, .child own tree ∈ pieces → Spelled own tree) ∧ Piece.spelling pieces ≠ []

/-- Between two cursors there is a token of the node itself, and behind it tokens that are laid out
as some trees. -/
def LaidBehind (c : Cursor) (trees : List SyntaxTree) (c' : Cursor) : Prop :=
  c.final.kind = .endOfInput → ∃ token pieces, c.Passes (Piece.spelling (.token token :: pieces)) c' ∧
    Piece.children pieces = trees ∧ (∀ piece ∈ pieces, piece.isEcho = false) ∧
    ∀ own tree, .child own tree ∈ pieces → Spelled own tree

/-- The tokens between two cursors spell a tree. -/
def Stands (c : Cursor) (tree : SyntaxTree) (c' : Cursor) : Prop :=
  c.final.kind = .endOfInput → ∃ own, c.Passes own c' ∧ Spelled own tree

theorem Laid.refl (c : Cursor) : c.Laid [] c := fun _ => ⟨[], .refl c, rfl, by simp, by simp⟩

theorem LaidSome.laid {trees : List SyntaxTree} (h : c.LaidSome trees c') : c.Laid trees c' :=
  fun hc => let ⟨pieces, passes, children, plain, parts, _⟩ := h hc
    ⟨pieces, passes, children, plain, parts⟩

theorem Stands.laid {tree : SyntaxTree} (h : c.Stands tree c') : c.LaidSome [tree] c' := by
  intro hc
  obtain ⟨own, passes, spelled⟩ := h hc
  refine ⟨[.child own tree], by simpa [Piece.tokens] using passes, rfl, by simp [Piece.isEcho], ?_,
    by simpa [Piece.tokens] using spelled.ne_nil⟩
  intro own' tree' member
  simp only [List.mem_singleton, Piece.child.injEq] at member
  obtain ⟨rfl, rfl⟩ := member
  exact spelled

theorem Laid.trans {trees more : List SyntaxTree} (h : c.Laid trees c') (h' : c'.Laid more c'') :
    c.Laid (trees ++ more) c'' := by
  intro hc
  obtain ⟨pieces, passes, children, plain, parts⟩ := h hc
  obtain ⟨pieces', passes', children', plain', parts'⟩ := h' (by rw [passes.final, hc])
  refine ⟨pieces ++ pieces', by simpa using passes.trans passes', by simp [children, children'],
    ?_, ?_⟩
  · intro piece member
    exact (List.mem_append.1 member).elim (plain piece) (plain' piece)
  · intro own tree member
    exact (List.mem_append.1 member).elim (parts own tree) (parts' own tree)

theorem LaidSome.trans {trees more : List SyntaxTree} (h : c.LaidSome trees c')
    (h' : c'.Laid more c'') : c.LaidSome (trees ++ more) c'' := by
  intro hc
  obtain ⟨pieces, passes, children, plain, parts, nonempty⟩ := h hc
  obtain ⟨pieces', passes', children', plain', parts'⟩ := h' (by rw [passes.final, hc])
  refine ⟨pieces ++ pieces', by simpa using passes.trans passes', by simp [children, children'],
    ?_, ?_, by simp [nonempty]⟩
  · intro piece member
    exact (List.mem_append.1 member).elim (plain piece) (plain' piece)
  · intro own tree member
    exact (List.mem_append.1 member).elim (parts own tree) (parts' own tree)

theorem Laid.transSome {trees more : List SyntaxTree} (h : c.Laid trees c')
    (h' : c'.LaidSome more c'') : c.LaidSome (trees ++ more) c'' := by
  intro hc
  obtain ⟨pieces, passes, children, plain, parts⟩ := h hc
  obtain ⟨pieces', passes', children', plain', parts', nonempty⟩ := h' (by rw [passes.final, hc])
  refine ⟨pieces ++ pieces', by simpa using passes.trans passes', by simp [children, children'],
    ?_, ?_, by simp [nonempty]⟩
  · intro piece member
    exact (List.mem_append.1 member).elim (plain piece) (plain' piece)
  · intro own tree member
    exact (List.mem_append.1 member).elim (parts own tree) (parts' own tree)

/-- Tokens of the node itself may follow. -/
theorem Laid.skip {trees : List SyntaxTree} (h : c.Laid trees c') (h' : c'.Laid [] c'') :
    c.Laid trees c'' := by
  simpa using h.trans h'

theorem LaidSome.skip {trees : List SyntaxTree} (h : c.LaidSome trees c') (h' : c'.Laid [] c'') :
    c.LaidSome trees c'' := by
  simpa using h.trans h'

theorem skipSemicolon_passes (c : Cursor) : c.Passes [] c.skipSemicolon := ⟨rfl, rfl, rfl⟩

end Cursor

theorem Cursor.next_passes (live : c.current.kind ≠ .endOfInput)
    (final : c.final.kind = .endOfInput) : c.Passes [c.current] c.next := by
  cases hr : c.rest with
  | nil => simp [Cursor.current, hr, final] at live
  | cons token rest => exact ⟨by simp [Cursor.current, Cursor.next, hr], rfl, rfl⟩

/-- A single piece that takes the current token. -/
private theorem Cursor.LaidSome.ofPiece (piece : Piece) (tokens : piece.tokens = [c.current])
    (plain : piece.isEcho = false) (parts : ∀ own tree, piece = .child own tree → Spelled own tree)
    (live : c.current.kind ≠ .endOfInput) : c.LaidSome piece.trees c.next := by
  intro final
  refine ⟨[piece], by simpa [tokens] using Cursor.next_passes live final, by simp, by simp [plain],
    ?_, by simp [tokens]⟩
  intro own tree member
  exact parts own tree (List.mem_singleton.1 member).symm

namespace Cursor

theorem next_laid (live : c.current.kind ≠ .endOfInput) : c.LaidSome [] c.next :=
  .ofPiece (.token c.current) rfl rfl (by simp) live

theorem next_stands (live : c.current.kind ≠ .endOfInput) :
    c.Stands (Parser.leaf c.current) c.next :=
  fun final => ⟨_, next_passes live final, .leaf _⟩

theorem word_laid (kind : LeafKind) (live : c.current.kind ≠ .endOfInput) :
    c.LaidSome [.leaf kind c.current.text c.current.span] c.next :=
  .ofPiece (.word kind c.current) rfl rfl (by simp) live

/-- A token of the node itself with trees behind it. -/
theorem Laid.behind {trees : List SyntaxTree} (live : c.current.kind ≠ .endOfInput)
    (h : c.next.Laid trees c') : c.LaidBehind trees c' := by
  intro final
  have first := next_passes live final
  obtain ⟨pieces, passes, children, plain, parts⟩ := h (by rw [first.final, final])
  exact ⟨c.current, pieces, by simpa [Piece.tokens] using first.trans passes, children, plain, parts⟩

theorem LaidBehind.trans {trees more : List SyntaxTree} (h : c.LaidBehind trees c')
    (h' : c'.Laid more c'') : c.LaidBehind (trees ++ more) c'' := by
  intro final
  obtain ⟨token, pieces, passes, children, plain, parts⟩ := h final
  obtain ⟨pieces', passes', children', plain', parts'⟩ := h' (by rw [passes.final, final])
  refine ⟨token, pieces ++ pieces', by simpa using passes.trans passes', by
    simp [children, children'], fun piece member => ?_, fun own tree member => ?_⟩
  · exact (List.mem_append.1 member).elim (plain piece) (plain' piece)
  · exact (List.mem_append.1 member).elim (parts own tree) (parts' own tree)

/-- Tokens of the node itself may stand before. -/
theorem Laid.transBehind {trees : List SyntaxTree} (h : c.Laid [] c')
    (h' : c'.LaidBehind trees c'') : c.LaidBehind trees c'' := by
  intro final
  obtain ⟨pieces, passes, children, plain, parts⟩ := h final
  obtain ⟨token, pieces', passes', rfl, plain', parts'⟩ := h' (by rw [passes.final, final])
  cases pieces with
  | nil => exact ⟨token, pieces', by simpa using passes.trans passes', rfl, plain', parts'⟩
  | cons piece pieces =>
    rw [Piece.children_cons, List.append_eq_nil_iff] at children
    obtain ⟨first, rfl⟩ : ∃ first, piece = .token first := by
      cases piece with
      | token first => exact ⟨first, rfl⟩
      | _ => cases children.1
    refine ⟨first, pieces ++ .token token :: pieces', by simpa using passes.trans passes', by
      simp [children.2, Piece.trees], fun piece member => ?_, fun own tree member => ?_⟩
    · rcases List.mem_append.1 member with before | behind
      · exact plain piece (List.mem_cons_of_mem _ before)
      · rcases List.mem_cons.1 behind with rfl | behind
        · rfl
        · exact plain' piece behind
    · rcases List.mem_append.1 member with before | behind
      · exact parts own tree (List.mem_cons_of_mem _ before)
      · exact parts' own tree (by simpa using behind)

theorem skip_laid (live : c.current.kind ≠ .endOfInput) : c.Laid [] c.next := (next_laid live).laid

/-- Trees between two tokens of the node itself. -/
theorem enclosed_laid {trees : List SyntaxTree} (opening : c.current.kind ≠ .endOfInput)
    (h : c.next.Laid trees c') (closing : c'.current.kind ≠ .endOfInput) :
    c.LaidSome trees c'.next :=
  ((next_laid opening).trans h).skip (skip_laid closing)

theorem skipSemicolon_laid (c : Cursor) : c.Laid [] c.skipSemicolon :=
  fun _ => ⟨[], c.skipSemicolon_passes, rfl, by simp, by simp⟩

theorem missing_laid (c : Cursor) : c.Laid [.missing] c :=
  fun _ => ⟨[.absent], .refl c, rfl, by simp [Piece.isEcho], by simp⟩

end Cursor

/-- Labels of nodes of which nothing else has to be known than what they are made of. -/
def Label.isPlain (label : Label) : Bool :=
  label ∉ [.call, .args, .varDeclarator] ++ Curry.declarationLabels && !label.isStatementList

theorem Fits.ofPlain {label : Label} {pieces : List Piece} (plainLabel : label.isPlain = true)
    (plain : ∀ piece ∈ pieces, piece.isEcho = false) : Fits label pieces where
  call h := by subst h; cases plainLabel
  args h := by subst h; cases plainLabel
  declarator h := by subst h; cases plainLabel
  declaration h := by simp_all [Label.isPlain]
  echo kind token member := by simpa [Piece.isEcho] using plain _ member
  listing h := by simp [Label.isPlain, h] at plainLabel

/-- A list of statements starts with a token of its own, unless it is a whole program. -/
theorem Fits.ofListing {label : Label} {token : Token} {pieces : List Piece}
    (listed : label.isStatementList = true) (inner : label ≠ .program)
    (plain : ∀ piece ∈ pieces, piece.isEcho = false) :
    Fits label (.token token :: pieces) where
  call h := by subst h; cases listed
  args h := by subst h; cases listed
  declarator h := by subst h; cases listed
  declaration h := absurd listed (by revert h; cases label <;> decide)
  echo kind token member := by
    have member : .echo kind token ∈ pieces := by simpa using member
    simpa [Piece.isEcho] using plain _ member
  listing _ := ⟨inner, token, pieces, rfl⟩

theorem Fits.ofDeclaration {label : Label} {pieces : List Piece}
    (opens : ((Piece.spelling pieces).headD default).opensDeclaration = true)
    (declares : label ∈ Curry.declarationLabels)
    (plain : ∀ piece ∈ pieces, piece.isEcho = false) : Fits label pieces where
  call h := absurd (h ▸ declares) (by decide)
  args h := absurd (h ▸ declares) (by decide)
  declarator h := absurd (h ▸ declares) (by decide)
  declaration _ := opens
  echo kind token member := by simpa [Piece.isEcho] using plain _ member
  listing h := absurd h (by revert declares; cases label <;> decide)

theorem Fits.ofEcho {label : Label} {kind : LeafKind} {token : Token} {next : Piece}
    (echoes : label.mayEcho = true) (again : Piece.Repeats label kind token next)
    (first : next.tokens.head? = some token) : Fits label [.echo kind token, next] where
  call h := by subst h; cases echoes
  args h := by subst h; cases echoes
  declarator h := by subst h; cases echoes
  declaration h := absurd echoes (by revert h; cases label <;> decide)
  echo kind' token' member := by
    obtain echo | rfl : Piece.echo kind' token' = .echo kind token ∨ _ = next := by simpa using member
    · obtain ⟨rfl, rfl⟩ := Piece.echo.inj echo
      exact ⟨echoes, next, rfl, first, again⟩
    · cases again
  listing h := absurd h (by revert echoes; cases label <;> decide)

namespace Cursor

/-- What is laid between two cursors makes a node, if its label has nothing against the pieces. -/
theorem LaidSome.nodeOf {trees : List SyntaxTree} {label : Label} (h : c.LaidSome trees c')
    (fits : ∀ pieces, Piece.children pieces = trees →
      ((Piece.spelling pieces).headD default) = c.current →
      (∀ piece ∈ pieces, piece.isEcho = false) → Fits label pieces) :
    c.Stands (.node label trees ⟨c.current.start, c'.stop⟩) c' := by
  intro final
  obtain ⟨pieces, passes, rfl, plain, parts, nonempty⟩ := h final
  refine ⟨_, passes, ?_⟩
  rw [← passes.spanOf_eq nonempty]
  exact .node label pieces nonempty (fits pieces rfl (passes.current_eq nonempty).symm plain) parts

theorem LaidSome.node {trees : List SyntaxTree} {label : Label} (h : c.LaidSome trees c')
    (plainLabel : label.isPlain = true) :
    c.Stands (.node label trees ⟨c.current.start, c'.stop⟩) c' :=
  h.nodeOf fun _ _ _ plain => .ofPlain plainLabel plain

theorem LaidSome.declaration {trees : List SyntaxTree} {label : Label} (h : c.LaidSome trees c')
    (opens : c.current.opensDeclaration = true)
    (declares : label ∈ Curry.declarationLabels) :
    c.Stands (.node label trees ⟨c.current.start, c'.stop⟩) c' :=
  h.nodeOf fun _ _ first plain => .ofDeclaration (by rw [first, opens]) declares plain

/-- A function or a class, as an expression or as a declaration. -/
theorem LaidSome.definition {trees : List SyntaxTree} {label : Label} (h : c.LaidSome trees c')
    (opens : c.current.opensDeclaration = true)
    (allowed : label.isPlain = true ∨ label ∈ Curry.declarationLabels) :
    c.Stands (.node label trees ⟨c.current.start, c'.stop⟩) c' :=
  allowed.elim (fun plainLabel => h.node plainLabel) fun declares => h.declaration opens declares

theorem LaidSome.declarator {target initial : SyntaxTree} (h : c.LaidSome [target, initial] c') :
    c.Stands (.node .varDeclarator [target, initial] ⟨c.current.start, c'.stop⟩) c' :=
  h.nodeOf fun pieces children _ plain =>
    { call := nofun
      args := nofun
      declarator := fun _ => by rw [children]; rfl
      declaration := fun h => absurd h (by decide)
      echo := fun _ _ member => by simpa [Piece.isEcho] using plain _ member
      listing := nofun }

/-- Statements behind a token of the node itself make a list of statements. -/
theorem LaidBehind.listing {trees : List SyntaxTree} {label : Label} (h : c.LaidBehind trees c')
    (listed : label.isStatementList = true) (inner : label ≠ .program) :
    c.Stands (.node label trees ⟨c.current.start, c'.stop⟩) c' := by
  intro final
  obtain ⟨token, pieces, passes, rfl, plain, parts⟩ := h final
  refine ⟨_, passes, ?_⟩
  rw [← passes.spanOf_eq (by simp [Piece.tokens])]
  exact .node label (.token token :: pieces) (by simp [Piece.tokens]) (.ofListing listed inner plain)
    fun own tree member => parts own tree (by simpa using member)

end Cursor

namespace Parser

theorem bind_ok {p : Parser α} {f : α → Parser β} {x : β × Cursor} :
    (p >>= f) context c = .ok x ↔ ∃ a c', p context c = .ok (a, c') ∧ f a context c' = .ok x := by
  simp only [bind, ReaderT.bind, StateT.bind, Except.bind]
  cases h : p context c with
  | error e => simp
  | ok r => exact ⟨fun h' => ⟨r.1, r.2, rfl, h'⟩, fun ⟨a, c', h1, h2⟩ => by cases h1; exact h2⟩

theorem pure_ok {a b : α} : (pure a : Parser α) context c = .ok (b, c') ↔ a = b ∧ c = c' := by
  change Except.ok (a, c) = Except.ok (b, c') ↔ _
  simp

theorem pure_bind' (a : α) (f : α → Parser β) : (pure a >>= f) context c = f a context c := rfl

theorem halt_ok {cause : HaltCause} {x : α × Cursor} :
    (halt cause : Parser α) context c = .ok x ↔ False := by
  change Except.error _ = Except.ok x ↔ _
  simp

theorem fail_ok {cause : ParseCause} {token : Token} {x : α × Cursor} :
    (fail cause token : Parser α) context c = .ok x ↔ False := halt_ok

theorem fail_bind (cause : ParseCause) (token : Token) (f : α → Parser β) :
    (fail cause token >>= f) = fail cause token := rfl

theorem ite_ok {b : Prop} [Decidable b] {p q : Parser α} {x : α × Cursor} :
    (if b then p else q) context c = .ok x ↔
      (b ∧ p context c = .ok x) ∨ (¬b ∧ q context c = .ok x) := by
  by_cases h : b <;> simp [h]

theorem ite_apply {b : Prop} [Decidable b] {p q : Parser α} :
    (if b then p else q) context c = if b then p context c else q context c := by
  by_cases h : b <;> simp [h]

/-- A choice before a continuation is a choice of what is continued. -/
theorem bind_ite {b : Prop} [Decidable b] {p q : Parser α} {f : α → Parser β} :
    (if b then p >>= f else q >>= f) = (if b then p else q) >>= f := by
  by_cases h : b <;> simp [h]

theorem current_bind (f : Token → Parser β) :
    (current >>= f) context c = f c.current context c := rfl

theorem peek_bind (ahead : Nat) (f : Token → Parser β) :
    (peek ahead >>= f) context c = f (c.peek ahead) context c := rfl

theorem here_bind (f : Location → Parser β) :
    (here >>= f) context c = f c.current.start context c := rfl

theorem sees_bind (kind : TokenKind) (f : Bool → Parser β) :
    (sees kind >>= f) context c = f (c.current.kind = kind) context c := rfl

theorem seesAny_bind (kinds : List TokenKind) (f : Bool → Parser β) :
    (seesAny kinds >>= f) context c = f (kinds.contains c.current.kind) context c := rfl

theorem seesWord_bind (word : String) (f : Bool → Parser β) :
    (seesWord word >>= f) context c = f (c.current.isWord word) context c := rfl

theorem context_bind (f : ParseContext → Parser β) :
    (Parser.context >>= f) context c = f context context c := rfl

theorem allowingIn_apply (p : Parser α) :
    allowingIn p context c = p { context with allowIn := true } c := rfl

theorem forbiddingIn_apply (p : Parser α) :
    forbiddingIn p context c = p { context with allowIn := false } c := rfl

theorem insideFunction_apply (isAsync isGenerator : Bool) (p : Parser α) :
    insideFunction isAsync isGenerator p context c = p
      { context with
        insideFunction := true
        insideAsync := isAsync
        insideGenerator := isGenerator } c := rfl

theorem isWord_kind {token : Token} {word : String} (h : token.isWord word = true) :
    token.kind = .identifier := by
  simp only [Token.isWord, Bool.and_eq_true, decide_eq_true_eq] at h
  exact h.1

theorem advance_eq : advance context c = .ok (c.current, c.next) := rfl

theorem advance_bind (f : Token → Parser β) :
    (advance >>= f) context c = f c.current context c.next := by
  simp only [bind, ReaderT.bind, StateT.bind, Except.bind, advance_eq]

theorem takeLeaf_eq : takeLeaf context c = .ok (leaf c.current, c.next) := advance_bind _

theorem takeLeaf_bind (f : SyntaxTree → Parser β) :
    (takeLeaf >>= f) context c = f (leaf c.current) context c.next := by
  simp only [bind, ReaderT.bind, StateT.bind, Except.bind, takeLeaf_eq]

/-- What is done with the answer of a test that takes the current token if it succeeds. -/
private theorem test_bind (f : Bool → Parser β) (test : Parser Bool) (answer : Bool)
    (tells : test context c = .ok (answer, c)) :
    ((do if ← test then { let _ ← advance; return true }; return false) >>= f) context c =
      if answer = true then f true context c.next else f false context c := by
  rw [bind_assoc]
  simp only [bind, ReaderT.bind, StateT.bind, Except.bind, tells]
  cases answer with
  | true => simp only [if_true, bind, ReaderT.bind, StateT.bind, Except.bind, advance_eq]; rfl
  | false => rfl

theorem accept_bind (kind : TokenKind) (f : Bool → Parser β) :
    (accept kind >>= f) context c =
      if c.current.kind = kind then f true context c.next else f false context c :=
  (test_bind f (sees kind) (c.current.kind = kind) rfl).trans (by simp)

theorem acceptWord_bind (word : String) (f : Bool → Parser β) :
    (acceptWord word >>= f) context c =
      if c.current.isWord word then f true context c.next else f false context c :=
  test_bind f (seesWord word) (c.current.isWord word) rfl

theorem expect_bind (kind : TokenKind) (f : Token → Parser β) :
    (expect kind >>= f) context c = if c.current.kind = kind then f c.current context c.next
      else .error ⟨.error ⟨.expected kind c.current.kind, c.current⟩, c⟩ := by
  rw [expect, bind_assoc, current_bind]
  by_cases h : c.current.kind = kind
  · simp only [h, if_true, advance_bind]
  · simp only [h, if_false]
    rfl

theorem expectWord_bind (word : String) (f : Unit → Parser β) :
    (expectWord word >>= f) context c = if c.current.isWord word then f () context c.next
      else .error ⟨.error ⟨.expectedWord word c.current.kind, c.current⟩, c⟩ := by
  rw [expectWord, bind_assoc, current_bind]
  by_cases h : c.current.isWord word = true
  · simp only [h, if_true, bind_assoc, advance_bind]
    rfl
  · simp only [h, Bool.false_eq_true, if_false]
    rfl

/-- What was expected is there if the parser succeeds. -/
theorem expected_ok {b : Prop} [Decidable b] {r : Except Halt (α × Cursor)} {e : Halt}
    {x : α × Cursor} : (if b then r else .error e) = .ok x ↔ b ∧ r = .ok x := by
  by_cases h : b <;> simp [h]

theorem finish_bind (label : Label) (children : List SyntaxTree) (start : Location)
    (f : SyntaxTree → Parser β) : (finish label children start >>= f) context c =
      if c.last?.isSome then f (.node label children ⟨start, c.stop⟩) context c
      else .error ⟨.nothingTaken, c⟩ := by
  change ((do if c.last?.isNone then halt .nothingTaken
              return .node label children ⟨start, c.stop⟩ : Parser SyntaxTree) >>= f) context c = _
  cases c.last? <;> rfl

theorem finish_ok {label : Label} {children : List SyntaxTree} {start : Location}
    {tree : SyntaxTree} : finish label children start context c = .ok (tree, c') ↔
      c.last?.isSome = true ∧ .node label children ⟨start, c.stop⟩ = tree ∧ c = c' := by
  rw [← bind_pure (finish label children start), finish_bind, expected_ok, pure_ok]

end Parser

end Uncurry
