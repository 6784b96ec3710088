import Uncurry.Grammar.Program
import Uncurry.Proofs.Syntax.Reading

/-!
# Parsers that build

A parser of trees builds if the tokens it takes always spell the tree it gives; a parser of lists
lays if they are always laid out as its trees. Repetitions lay what their elements lay.
-/
namespace Uncurry

variable {α σ : Type} {context : ParseContext} {c c' c'' : Cursor}

/-- The tokens that a parser takes spell the tree it gives. -/
def Parser.Builds (parser : Parser SyntaxTree) : Prop :=
  ∀ ⦃context c tree c'⦄, parser context c = .ok (tree, c') → c.Stands tree c'

/-- The tokens that a parser takes are laid out as the trees it gives. -/
def Parser.Lays (parser : Parser (List SyntaxTree)) : Prop :=
  ∀ ⦃context c trees c'⦄, parser context c = .ok (trees, c') → c.Laid trees c'

/-- All rules build. -/
def Rules.Build (rules : Rules) : Prop := ∀ rule, (rules rule).Builds

namespace Cursor

/-- The tokens between two cursors are laid out as values with commas between them. -/
def Lists (c : Cursor) (trees : List SyntaxTree) (c' : Cursor) : Prop :=
  c.final.kind = .endOfInput → ∃ pieces, c.Passes (Piece.spelling pieces) c' ∧
    Piece.children pieces = trees ∧ Piece.Listed pieces ∧
    ∀ own tree, .child own tree ∈ pieces → Spelled own tree

theorem Lists.refl (c : Cursor) : c.Lists [] c := fun _ => ⟨[], .refl c, rfl, .none, by simp⟩

theorem Lists.last {tree : SyntaxTree} (h : c.Stands tree c') : c.Lists [tree] c' := by
  intro final
  obtain ⟨own, passes, spelled⟩ := h final
  refine ⟨[.child own tree], by simpa [Piece.tokens] using passes, rfl, .last own tree, ?_⟩
  intro own' tree' member
  simp only [List.mem_singleton, Piece.child.injEq] at member
  obtain ⟨rfl, rfl⟩ := member
  exact spelled

theorem Lists.more {tree : SyntaxTree} {trees : List SyntaxTree} (h : c.Stands tree c')
    (comma : c'.current.kind = .comma) (later : c'.next.Lists trees c'') :
    c.Lists (tree :: trees) c'' := by
  intro final
  obtain ⟨own, passes, spelled⟩ := h final
  have first : c'.Passes [c'.current] c'.next :=
    next_passes (by simp [comma]) (by rw [passes.final, final])
  obtain ⟨pieces, passes', rfl, listed, parts⟩ :=
    later (by rw [first.final, passes.final, final])
  refine ⟨.child own tree :: .token c'.current :: pieces, ?_, by simp [Piece.trees],
    .more own tree comma listed, ?_⟩
  · simpa [Piece.tokens] using passes.trans (first.trans passes')
  · intro own' tree' member
    simp only [List.mem_cons, Piece.child.injEq, reduceCtorEq, false_or] at member
    obtain ⟨rfl, rfl⟩ | member := member
    · exact spelled
    · exact parts own' tree' member

/-- Listed values in parentheses are the arguments of a call. -/
theorem Lists.args {trees : List SyntaxTree} (opening : c.current.kind = .leftParen)
    (h : c.next.Lists trees c') (closing : c'.current.kind = .rightParen) :
    c.Stands (.node .args trees ⟨c.current.start, c'.next.stop⟩) c'.next := by
  intro final
  have first := next_passes (by simp [opening]) final
  obtain ⟨pieces, passes, rfl, listed, parts⟩ := h (by rw [first.final, final])
  have last : c'.Passes [c'.current] c'.next :=
    next_passes (by simp [closing]) (by rw [passes.final, first.final, final])
  have all := first.trans (passes.trans last)
  refine ⟨Piece.spelling (.token c.current :: pieces ++ [.token c'.current]),
    by simpa [Piece.tokens] using all, ?_⟩
  rw [← all.spanOf_eq (by simp)]
  have node := Spelled.node .args (.token c.current :: pieces ++ [.token c'.current])
    (by simp [Piece.tokens])
    { call := fun h => absurd h (by decide)
      args := fun _ => ⟨_, _, _, opening, rfl, listed⟩
      declarator := fun h => absurd h (by decide)
      declaration := fun h => absurd h (by decide)
      echo := fun kind token member => by
        have member : .echo kind token ∈ pieces := by simpa using member
        simpa [Piece.isEcho] using listed.plain _ member
      listing := fun h => absurd h (by decide) }
    (fun own tree member => parts own tree (by simpa using member))
  simpa [Piece.trees, Piece.tokens] using node

/-- A callee with arguments behind it is a call. -/
theorem Stands.call {callee : SyntaxTree} {values : List SyntaxTree} {span : Span}
    (h : c.Stands callee c') (h' : c'.Stands (.node .args values span) c'') :
    c.Stands (.node .call [callee, .node .args values span] ⟨c.current.start, c''.stop⟩) c'' := by
  intro final
  obtain ⟨called, passes, spelled⟩ := h final
  obtain ⟨listed, passes', spelled'⟩ := h' (by rw [passes.final, final])
  have all := passes.trans passes'
  have nonempty : called ++ listed ≠ [] := by simp [spelled.ne_nil]
  refine ⟨called ++ listed, all, ?_⟩
  rw [← all.spanOf_eq nonempty]
  have node := Spelled.node .call [.child called callee, .child listed (.node .args values span)]
    (by simpa [Piece.tokens] using nonempty)
    { call := fun _ => ⟨_, _, _, _, _, rfl⟩
      args := nofun
      declarator := nofun
      declaration := fun h => absurd h (by decide)
      echo := by simp
      listing := nofun }
    (by
      intro own tree member
      simp only [List.mem_cons, Piece.child.injEq, List.not_mem_nil, or_false] at member
      obtain ⟨rfl, rfl⟩ | ⟨rfl, rfl⟩ := member
      · exact spelled
      · exact spelled')
  simpa [Piece.trees, Piece.tokens] using node

/-- A property whose name is bound itself, with a default. -/
theorem Stands.echoed {initial : SyntaxTree} {span : Span}
    (h : c.Stands (.node .assignPattern [Parser.leaf c.current, initial] span) c') :
    c.Stands (.node .patternProperty
      [Parser.leaf c.current, .node .assignPattern [Parser.leaf c.current, initial] span]
      ⟨c.current.start, c'.stop⟩) c' := by
  intro final
  obtain ⟨own, passes, spelled⟩ := h final
  refine ⟨own, passes, ?_⟩
  rw [← passes.spanOf_eq spelled.ne_nil]
  have first : own.head? = some c.current := by
    rw [passes.current_eq spelled.ne_nil]
    obtain ⟨token, later, rfl⟩ := List.exists_cons_of_ne_nil spelled.ne_nil
    rfl
  have node := Spelled.node .patternProperty
    [.echo (.token c.current.kind) c.current, .child own (.node .assignPattern _ span)]
    (by simpa [Piece.tokens] using spelled.ne_nil) (.ofEcho rfl (.pattern own initial span rfl) first)
    (by
      intro own' tree' member
      simp only [List.mem_cons, Piece.child.injEq, reduceCtorEq, List.not_mem_nil, or_false,
        false_or] at member
      obtain ⟨rfl, rfl⟩ := member
      exact spelled)
  simpa [Piece.trees, Piece.tokens, Parser.leaf] using node

/-- A node whose two children are the leaf of the current token. -/
theorem next_echoed {label : Label} (kind : LeafKind) (live : c.current.kind ≠ .endOfInput)
    (echoes : label.mayEcho = true) :
    c.Stands (.node label [.leaf kind c.current.text c.current.span,
      .leaf kind c.current.text c.current.span] ⟨c.current.start, c.next.stop⟩) c.next := by
  intro final
  have passes := next_passes live final
  refine ⟨_, passes, ?_⟩
  rw [← passes.spanOf_eq (by simp)]
  have node := Spelled.node label [.echo kind c.current, .word kind c.current]
    (by simp [Piece.tokens]) (.ofEcho echoes .word rfl) (by simp)
  simpa [Piece.trees, Piece.tokens] using node

end Cursor

namespace Parser

theorem collectFuel_laid {ends : TokenKind → Bool} {element : Parser (List SyntaxTree)}
    (h : ∀ {context c trees c'}, ends c.current.kind = false →
      element context c = .ok (trees, c') → c.Laid trees c') {fuel : Nat} {c c' : Cursor}
    {trees : List SyntaxTree} (taken : collectFuel ends element fuel context c = .ok (trees, c')) :
    c.Laid trees c' := by
  induction fuel generalizing c trees with
  | zero => exact (halt_ok.1 taken).elim
  | succ fuel ih =>
    rw [collectFuel, current_bind] at taken
    cases stops : ends c.current.kind with
    | true =>
      simp only [stops, if_true, pure_ok] at taken
      obtain ⟨rfl, rfl⟩ := taken
      exact .refl c
    | false =>
      simp only [stops, Bool.false_eq_true, if_false, bind_ok, pure_ok] at taken
      obtain ⟨first, c₁, hf, later, c₂, hl, rfl, rfl⟩ := taken
      exact (h stops hf).trans (ih hl)

/-- What collects elements stops at a token that ends them. -/
theorem collectFuel_ends {ends : TokenKind → Bool} {element : Parser (List α)} {fuel : Nat}
    {c c' : Cursor} {values : List α}
    (taken : collectFuel ends element fuel context c = .ok (values, c')) :
    ends c'.current.kind = true := by
  induction fuel generalizing c values with
  | zero => exact (halt_ok.1 taken).elim
  | succ fuel ih =>
    rw [collectFuel, current_bind] at taken
    cases stops : ends c.current.kind with
    | true =>
      simp only [stops, if_true, pure_ok] at taken
      rwa [← taken.2]
    | false =>
      simp only [stops, Bool.false_eq_true, if_false, bind_ok, pure_ok] at taken
      obtain ⟨first, c₁, hf, later, c₂, hl, _, rfl⟩ := taken
      exact ih hl

/-- Nothing is collected in front of a token that ends it. -/
theorem collect_nil {ends : TokenKind → Bool} {element : Parser (List α)}
    (stops : ends c.current.kind = true) : collect ends element context c = .ok ([], c) := by
  have unfolded : collect ends element context c =
      collectFuel ends element (c.rest.length + 1) context c := rfl
  rw [unfolded, collectFuel, current_bind, if_pos stops]
  rfl

theorem collect_ends {ends : TokenKind → Bool} {element : Parser (List α)} {values : List α}
    (taken : collect ends element context c = .ok (values, c')) : ends c'.current.kind = true :=
  collectFuel_ends taken

/-- Elements that lay where they do not end make a list that lays. -/
theorem collect_laid {ends : TokenKind → Bool} {element : Parser (List SyntaxTree)}
    (h : ∀ {context c trees c'}, ends c.current.kind = false →
      element context c = .ok (trees, c') → c.Laid trees c') {trees : List SyntaxTree}
    (taken : collect ends element context c = .ok (trees, c')) : c.Laid trees c' :=
  collectFuel_laid h taken

theorem Lays.collect {ends : TokenKind → Bool} {element : Parser (List SyntaxTree)}
    (h : element.Lays) : (Parser.collect ends element).Lays :=
  fun _ _ _ _ taken => collect_laid (fun _ first => h first) taken

theorem Builds.single_some {element : Parser SyntaxTree} (h : element.Builds)
    {trees : List SyntaxTree} (taken : (do return [← element]) context c = .ok (trees, c')) :
    c.LaidSome trees c' := by
  simp only [bind_ok, pure_ok] at taken
  obtain ⟨tree, c₁, ht, rfl, rfl⟩ := taken
  exact (h ht).laid

theorem Builds.single {element : Parser SyntaxTree} (h : element.Builds) :
    Parser.Lays (do return [← element]) :=
  fun _ _ _ _ taken => (h.single_some taken).laid

theorem listed_ok {close : TokenKind} {element : Parser SyntaxTree} {trees : List SyntaxTree}
    (taken : listed close element context c = .ok (trees, c')) :
    ∃ tree c₁, element context c = .ok (tree, c₁) ∧ trees = [tree] ∧
      (c₁.current.kind = close ∧ c' = c₁ ∨ c₁.current.kind = .comma ∧ c' = c₁.next) := by
  simp only [listed, bind_ok, sees_bind] at taken
  obtain ⟨tree, c₁, ht, later⟩ := taken
  refine ⟨tree, c₁, ht, ?_⟩
  by_cases closes : c₁.current.kind = close
  · simp only [closes, decide_true, if_true, pure_ok] at later
    exact ⟨later.1.symm, .inl ⟨closes, later.2.symm⟩⟩
  · simp only [closes, decide_false, Bool.false_eq_true, if_false, expect_bind, expected_ok,
      pure_ok] at later
    exact ⟨later.2.1.symm, .inr ⟨later.1, later.2.2.symm⟩⟩

theorem Builds.listed {close : TokenKind} {element : Parser SyntaxTree} (h : element.Builds) :
    (Parser.listed close element).Lays := by
  intro context c trees c' taken
  obtain ⟨tree, c₁, ht, rfl, ⟨_, rfl⟩ | ⟨comma, rfl⟩⟩ := listed_ok taken
  · exact (h ht).laid.laid
  · exact (h ht).laid.laid.trans (Cursor.next_laid (by simp [comma])).laid

theorem collectFuel_lists {close : TokenKind} {element : Parser SyntaxTree} (h : element.Builds)
    {fuel : Nat} {c c' : Cursor} {trees : List SyntaxTree}
    (taken : collectFuel (· = close) (listed close element) fuel context c = .ok (trees, c')) :
    c.Lists trees c' := by
  induction fuel generalizing c trees with
  | zero => exact (halt_ok.1 taken).elim
  | succ fuel ih =>
    rw [collectFuel, current_bind] at taken
    by_cases stops : c.current.kind = close
    · simp only [stops, decide_true, if_true, pure_ok] at taken
      obtain ⟨rfl, rfl⟩ := taken
      exact .refl c
    · simp only [stops, decide_false, Bool.false_eq_true, if_false, bind_ok, pure_ok] at taken
      obtain ⟨first, c₁, hf, later, c₂, hl, rfl, rfl⟩ := taken
      obtain ⟨tree, c₃, ht, rfl, ⟨closes, rfl⟩ | ⟨comma, rfl⟩⟩ := listed_ok hf
      · cases fuel with
        | zero => exact (halt_ok.1 hl).elim
        | succ fuel =>
          rw [collectFuel, current_bind] at hl
          simp only [closes, decide_true, if_true, pure_ok] at hl
          obtain ⟨rfl, rfl⟩ := hl
          exact .last (h ht)
      · exact .more (h ht) comma (ih hl)

theorem iterateFuel_invariant {step : σ → Parser (Option σ)} {P : σ → Cursor → Prop}
    (keeps : ∀ {context state c next c'}, P state c →
      step state context c = .ok (next, c') → P (next.getD state) c')
    {fuel : Nat} {state result : σ} {c c' : Cursor} (holds : P state c)
    (taken : iterateFuel step fuel state context c = .ok (result, c')) : P result c' := by
  induction fuel generalizing state c with
  | zero => exact (halt_ok.1 taken).elim
  | succ fuel ih =>
    rw [iterateFuel, bind_ok] at taken
    obtain ⟨next, c₁, hn, later⟩ := taken
    have kept := keeps holds hn
    cases next with
    | none =>
      obtain ⟨rfl, rfl⟩ := pure_ok.1 later
      exact kept
    | some state' => exact ih kept later

/-- What every step keeps holds behind all steps. -/
theorem iterate_invariant {step : σ → Parser (Option σ)} {P : σ → Cursor → Prop}
    (keeps : ∀ {context state c next c'}, P state c →
      step state context c = .ok (next, c') → P (next.getD state) c')
    {state result : σ} (holds : P state c)
    (taken : iterate step state context c = .ok (result, c')) : P result c' :=
  iterateFuel_invariant keeps holds taken

theorem accept_laid {kind : TokenKind} {b : Bool} (live : kind ≠ .endOfInput)
    (taken : accept kind context c = .ok (b, c')) : c.Laid [] c' := by
  rw [← bind_pure (accept kind), accept_bind] at taken
  by_cases seen : c.current.kind = kind
  · simp only [seen, if_true, pure_ok] at taken
    rw [← taken.2]
    exact (Cursor.next_laid (by rwa [seen])).laid
  · simp only [seen, if_false, pure_ok] at taken
    rw [← taken.2]
    exact .refl c

theorem acceptWord_ok {word : String} {b : Bool}
    (taken : acceptWord word context c = .ok (b, c')) :
    c.current.isWord word = true ∧ c' = c.next ∨ c.current.isWord word = false ∧ c' = c := by
  rw [← bind_pure (acceptWord word), acceptWord_bind] at taken
  cases seen : c.current.isWord word with
  | true =>
    simp only [seen, if_true, pure_ok] at taken
    exact .inl ⟨rfl, taken.2.symm⟩
  | false =>
    simp only [seen, Bool.false_eq_true, if_false, pure_ok] at taken
    exact .inr ⟨rfl, taken.2.symm⟩

theorem acceptWord_laid {word : String} {b : Bool}
    (taken : acceptWord word context c = .ok (b, c')) : c.Laid [] c' := by
  obtain ⟨seen, rfl⟩ | ⟨_, rfl⟩ := acceptWord_ok taken
  · exact Cursor.skip_laid (by simp [isWord_kind seen])
  · exact .refl _

/-- A word that is looked for under some condition only. -/
theorem acceptWordIf_laid {p : Prop} [Decidable p] {word : String} {b : Bool}
    (taken : (if p then acceptWord word else pure false) context c = .ok (b, c')) :
    c.Laid [] c' := by
  by_cases hp : p
  · simp only [hp, if_true] at taken
    exact acceptWord_laid taken
  · simp only [hp, if_false, pure_ok] at taken
    rw [← taken.2]
    exact .refl c

/-- What follows a part that only stands behind a token of some kind. -/
theorem accepted_bind {kind : TokenKind} {part : Parser SyntaxTree} {k : SyntaxTree → Parser α}
    {x : α × Cursor} (h : part.Builds)
    (taken : (accept kind >>= fun b => if b then part >>= k else pure .missing >>= k) context c =
      .ok x) (live : kind ≠ .endOfInput) :
    ∃ tree c₁, c.Laid [tree] c₁ ∧ k tree context c₁ = .ok x := by
  rw [accept_bind] at taken
  by_cases seen : c.current.kind = kind
  · simp only [seen, if_true, bind_ok] at taken
    obtain ⟨tree, c₁, ht, later⟩ := taken
    exact ⟨tree, c₁, (Cursor.skip_laid (by rwa [seen])).trans (h ht).laid.laid, later⟩
  · simp only [seen, if_false, Bool.false_eq_true, pure_bind'] at taken
    exact ⟨.missing, c, Cursor.missing_laid c, taken⟩

/-- What follows a part that only stands behind a word. -/
theorem acceptedWord_bind {word : String} {part : Parser SyntaxTree} {k : SyntaxTree → Parser α}
    {x : α × Cursor}
    (h : ∀ {context c tree c'}, part context c = .ok (tree, c') → c.Laid [tree] c')
    (taken : (acceptWord word >>= fun b => if b then part >>= k else pure .missing >>= k) context c =
      .ok x) : ∃ tree c₁, c.Laid [tree] c₁ ∧ k tree context c₁ = .ok x := by
  rw [acceptWord_bind] at taken
  split at taken
  · rename_i seen
    simp only [if_true, bind_ok] at taken
    obtain ⟨tree, c₁, ht, later⟩ := taken
    exact ⟨tree, c₁, (Cursor.skip_laid (by simp [isWord_kind seen])).trans (h ht), later⟩
  · simp only [if_false, Bool.false_eq_true, pure_bind'] at taken
    exact ⟨.missing, c, Cursor.missing_laid c, taken⟩

/-- What follows a part that only stands under some condition. -/
theorem present_bind {b : Prop} [Decidable b] {part : Parser SyntaxTree}
    {k : SyntaxTree → Parser α} {x : α × Cursor} (h : part.Builds)
    (taken : (if b then part >>= k else pure .missing >>= k) context c = .ok x) :
    ∃ tree c₁, c.Laid [tree] c₁ ∧ k tree context c₁ = .ok x := by
  by_cases hb : b
  · simp only [hb, if_true, bind_ok] at taken
    obtain ⟨tree, c₁, ht, later⟩ := taken
    exact ⟨tree, c₁, (h ht).laid.laid, later⟩
  · simp only [hb, if_false, pure_bind'] at taken
    exact ⟨.missing, c, Cursor.missing_laid c, taken⟩

/-- What follows a part that is missing under some condition. -/
theorem absent_bind {b : Prop} [Decidable b] {part : Parser SyntaxTree}
    {k : SyntaxTree → Parser α} {x : α × Cursor} (h : part.Builds)
    (taken : (if b then pure .missing >>= k else part >>= k) context c = .ok x) :
    ∃ tree c₁, c.Laid [tree] c₁ ∧ k tree context c₁ = .ok x :=
  present_bind (b := ¬b) h (by rwa [ite_not])

theorem endStatement_laid {u : Unit} (taken : endStatement context c = .ok (u, c')) :
    c.Laid [] c' := by
  rw [endStatement, accept_bind] at taken
  by_cases seen : c.current.kind = .semicolon
  · simp only [seen, if_true, pure_ok] at taken
    rw [← taken.2]
    exact (Cursor.next_laid (by simp [seen])).laid
  · simp only [seen, if_false, Bool.false_eq_true, current_bind] at taken
    split at taken
    · cases taken
      exact c.skipSemicolon_laid
    · exact (fail_ok.1 taken).elim

theorem Builds.ite {b : Prop} [Decidable b] {first other : Parser SyntaxTree} (h : first.Builds)
    (h' : other.Builds) : Parser.Builds (if b then first else other) := by
  intro context c tree c' taken
  split at taken
  · exact h taken
  · exact h' taken

theorem allowingIn_builds {parser : Parser SyntaxTree} (h : parser.Builds) :
    (allowingIn parser).Builds := fun _ _ _ _ taken => h taken

end Parser

end Uncurry
