import Mathlib.Data.List.Forall2
import Uncurry.Grammar.Function
import Uncurry.Proofs.Progress.Passing

/-!
# Two sequences of tokens side by side

The second sequence has the tokens of the first one, at other places of the text perhaps, and it may
have semicolons where the first one has none. `Cursor.Aligned` says so of two cursors, given what a
parser passes behind the first one: a semicolon stands only where this parser leaves one out.
-/
namespace Uncurry

/-- Tokens that are the same but for their places. -/
structure Token.Alike (token other : Token) : Prop where
  kind : other.kind = token.kind
  text : other.text = token.text
  newlineBefore : other.newlineBefore = token.newlineBefore

namespace Token

variable {token other : Token}

theorem Alike.refl (token : Token) : token.Alike token := ⟨rfl, rfl, rfl⟩

theorem Alike.isWord (h : token.Alike other) (word : String) :
    other.isWord word = token.isWord word := by
  rw [Token.isWord, Token.isWord, h.kind, h.text]

theorem Alike.endsStatement (h : token.Alike other) :
    other.endsStatement = token.endsStatement := by
  rw [Token.endsStatement, Token.endsStatement, h.kind, h.newlineBefore]

/-- What the second sequence may show where the first one shows a token: the same token, or a
semicolon that may be left out before it. -/
def Shows (token other : Token) : Prop :=
  token.Alike other ∨ other.kind = .semicolon ∧ token.endsStatement = true

theorem Shows.alike (h : token.Shows other) (firm : other.kind ≠ .semicolon) : token.Alike other :=
  h.resolve_right fun written => firm written.1

theorem Shows.isWord (h : token.Shows other) {word : String} (unseen : token.isWord word = false) :
    other.isWord word = false := by
  rcases h with alike | ⟨written, _⟩
  · rw [alike.isWord, unseen]
  · simp [Token.isWord, written]

end Token

/-- The second sequence has the tokens of the first one, and semicolons before some of them that
may be left out there; both end before a token. -/
inductive Filled (final : Token) : List Token → List Token → Prop
  | nil : Filled final [] []
  | token {token other : Token} {tokens others : List Token} : token.Alike other →
      Filled final tokens others → Filled final (token :: tokens) (other :: others)
  | semicolon {other : Token} {tokens others : List Token} : other.kind = .semicolon →
      (tokens.headD final).endsStatement = true → Filled final tokens others →
      Filled final tokens (other :: others)

namespace Filled

variable {final final' : Token} {tokens others : List Token}

theorem shows (h : Filled final tokens others) (ends : final.Alike final') :
    (tokens.headD final).Shows (others.headD final') := by
  cases h with
  | nil => exact .inl ends
  | token alike _ => exact .inl alike
  | semicolon kind before _ => exact .inr ⟨kind, before⟩

theorem length_le (h : Filled final tokens others) : tokens.length ≤ others.length := by
  induction h with
  | nil => exact Nat.le_refl _
  | token _ _ ih => simpa using ih
  | semicolon _ _ _ ih => exact Nat.le_trans ih (Nat.le_succ _)

/-- Behind a token that is no semicolon that was written the sequences go on side by side. -/
theorem tail (h : Filled final tokens others) (ends : final'.kind = .endOfInput)
    (live : (others.headD final').kind ≠ .endOfInput)
    (firm : (others.headD final').kind ≠ .semicolon) : Filled final tokens.tail others.tail := by
  cases h with
  | nil => exact (live ends).elim
  | token _ later => exact later
  | semicolon kind _ _ => exact (firm kind).elim

/-- An arrow behind a bracket is on the line on which the bracket is closed, so that no semicolon
stands between them. -/
theorem arrowBehindBracket (h : Filled final tokens others) (depth : Nat) :
    Grammar.arrowBehindBracket depth others = Grammar.arrowBehindBracket depth tokens := by
  induction h generalizing depth with
  | nil => rfl
  | @token token other tokens others alike later ih =>
    have behind : (others.head?.any fun next => next.kind = .arrow && !next.newlineBefore) =
        tokens.head?.any fun next => next.kind = .arrow && !next.newlineBefore := by
      cases later with
      | nil => rfl
      | token alike _ => simp [alike.kind, alike.newlineBefore]
      | @semicolon _ tokens _ kind before _ =>
        cases tokens with
        | nil => simp [kind]
        | cons next _ =>
          simp only [List.headD_cons, Token.endsStatement, Bool.or_eq_true] at before
          obtain (brace | final) | newline := before
          · simp [kind, of_decide_eq_true brace]
          · simp [kind, of_decide_eq_true final]
          · simp [kind, newline]
    simp only [Grammar.arrowBehindBracket, alike.kind, ih, behind]
  | semicolon kind _ _ ih =>
    rw [Grammar.arrowBehindBracket, kind]
    exact ih depth

end Filled

/-- What stands in the second sequence for something that is passed in the first one. -/
inductive Passage.Renders : Passage → Passage → Prop
  | token {token other : Token} : token.Alike other → Renders (.token token) (.token other)
  | omitted : Renders .automatic .automatic
  | written {other : Token} : other.kind = .semicolon → Renders .automatic (.token other)

/-- A whole stretch of what is passed. -/
abbrev Passage.RendersAll : List Passage → List Passage → Prop := List.Forall₂ Renders

instance : Std.Refl Passage.Renders where
  refl
    | .token token => .token (.refl token)
    | .automatic => .omitted

namespace Passage

variable {future future' passed passed' : List Passage} {final token other : Token}

theorem RendersAll.filled (h : RendersAll future future') (lawful : Lawful future final) :
    Filled final (tokens future) (tokens future') := by
  induction h with
  | nil => exact .nil
  | cons renders later ih =>
    cases renders with
    | token alike => exact .token alike (ih lawful)
    | omitted => exact ih lawful.2
    | written kind => exact .semicolon kind lawful.1 (ih lawful.2)

/-- Where one of two semicolons is written it does not matter which one. -/
theorem RendersAll.exchange {future' : List Passage} (h : RendersAll future future')
    (written : (tokens future').head? = some other) (kind : other.kind = .semicolon)
    (before : (tokens future).head?.all (·.kind ≠ .semicolon)) :
    ∃ future'', RendersAll future future'' ∧ tokens future' = other :: tokens future'' := by
  induction h with
  | nil => simp at written
  | @cons event event' future future' renders later ih =>
    cases renders with
    | token alike =>
      simp only [tokens_token, List.head?_cons, Option.some.injEq, Option.all_some,
        decide_eq_true_eq] at written before
      exact (before (by rw [← alike.kind, written, kind])).elim
    | omitted =>
      obtain ⟨future'', renders, same⟩ := ih written before
      exact ⟨.automatic :: future'', .cons .omitted renders, same⟩
    | written kind' =>
      simp only [tokens_token, List.head?_cons, Option.some.injEq] at written
      exact ⟨.automatic :: future', .cons .omitted later, by simp [written]⟩

/-- A semicolon that is the next token is written where one is left out, though it may be a later one
of those that are left out there. -/
theorem RendersAll.ofWritten (h : RendersAll (.automatic :: future) future')
    (written : (tokens future').head? = some other) (kind : other.kind = .semicolon)
    (before : (tokens future).head?.all (·.kind ≠ .semicolon)) :
    ∃ future'', RendersAll future future'' ∧ tokens future' = other :: tokens future'' := by
  cases h with
  | @cons _ _ _ later' first behind =>
    cases first with
    | omitted =>
      rw [tokens_automatic] at written ⊢
      exact RendersAll.exchange behind written kind before
    | written =>
      simp only [tokens_token, List.head?_cons, Option.some.injEq] at written
      exact ⟨later', behind, by simp [written]⟩

/-- Where the next token is no semicolon, one that is left out is not written. -/
theorem RendersAll.ofOmitted (h : RendersAll (.automatic :: future) future')
    (bare : ∀ token, (tokens future').head? = some token → token.kind ≠ .semicolon) :
    ∃ future'', RendersAll future future'' ∧ tokens future' = tokens future'' := by
  cases h with
  | @cons _ _ _ later' first behind =>
    cases first with
    | omitted => exact ⟨later', behind, rfl⟩
    | written kind => exact (bare _ rfl kind).elim

theorem RendersAll.taken (h : RendersAll passed passed')
    (taken : (passed.findSome? token?).isSome = true) :
    (passed'.findSome? token?).isSome = true := by
  induction h with
  | nil => exact taken
  | cons renders _ ih =>
    cases renders with
    | token => rfl
    | omitted => exact ih taken
    | written => rfl

end Passage

namespace Cursor

/-- The second cursor stands in its sequence where the first one stands in its own, given all that
a parser passes behind the first one up to the end. -/
structure Aligned (future : List Passage) (c d : Cursor) : Prop where
  rest : c.rest = Passage.tokens future
  lawful : Passage.Lawful future c.final
  renders : ∃ future', Passage.RendersAll future future' ∧ d.rest = Passage.tokens future'
  passed : Passage.RendersAll c.passed d.passed
  final : c.final.Alike d.final
  ends : c.final.kind = .endOfInput

namespace Aligned

variable {c d : Cursor} {future later : List Passage} {token : Token}

theorem filled (h : Aligned future c d) : Filled c.final c.rest d.rest := by
  obtain ⟨future', renders, rest⟩ := h.renders
  rw [h.rest, rest]
  exact renders.filled h.lawful

/-- A cursor is aligned with itself. -/
theorem refl {c' : Cursor} {events : List Passage} (h : c.Moves events c')
    (ends : c.final.kind = .endOfInput) : Aligned (events ++ c'.rest.map .token) c c := by
  have rest : c.rest = Passage.tokens (events ++ c'.rest.map .token) := by
    rw [Passage.tokens_append, Passage.tokens_map_token, h.rest]
  refine ⟨rest, .append ?_ (Passage.lawful_map_token _ _), ⟨_, List.forall₂_refl _, rest⟩,
    List.forall₂_refl _, .refl _, ends⟩
  rw [Passage.tokens_map_token, ← h.final]
  exact h.lawful

theorem ends' (h : Aligned future c d) : d.final.kind = .endOfInput := by
  rw [h.final.kind, h.ends]

theorem shows (h : Aligned future c d) : c.current.Shows d.current := h.filled.shows h.final

theorem taken (h : Aligned future c d) (taken : c.last?.isSome = true) : d.last?.isSome = true :=
  h.passed.taken taken

/-- A token is the same in both sequences, and what is behind it is aligned. -/
theorem ofToken (h : Aligned (.token token :: later) c d) :
    c.current.Alike d.current ∧ Aligned later c.next d.next := by
  obtain ⟨future', renders, rest⟩ := h.renders
  cases renders with
  | @cons _ event' _ later' first behind =>
    cases first with
    | @token _ other alike =>
      have current : c.current = token := by simp [current, h.rest]
      have current' : d.current = other := by simp [Cursor.current, rest]
      refine ⟨by rwa [current, current'], ?_⟩
      exact {
        rest := by simp [next, h.rest]
        lawful := h.lawful
        renders := ⟨later', behind, by simp [next, rest]⟩
        passed := .cons (.token (by rwa [current, current'])) h.passed
        final := h.final
        ends := h.ends }

theorem ofLead (h : Aligned future c d) (lead : 0 < Passage.lead future) :
    c.current.Alike d.current := by
  obtain ⟨token, later, rfl⟩ := Passage.exists_of_lead lead
  exact h.ofToken.1

theorem peekShows (h : Aligned future c d) (lead : 1 ≤ Passage.lead future) :
    (c.peek 1).Shows (d.peek 1) := by
  obtain ⟨token, later, rfl⟩ := Passage.exists_of_lead lead
  rw [peek_one, peek_one]
  exact h.ofToken.2.shows

/-- What is told of the next two tokens together is the same in both sequences, if it is not told
where a statement may end between them. -/
theorem pair_eq (h : Aligned future c d) (lead : 1 ≤ Passage.lead future)
    (tells : Token → Token → Bool)
    (alike : ∀ {token other next next'}, token.Alike other → next.Alike next' →
      tells other next' = tells token next)
    (newline : ∀ token {next : Token}, next.newlineBefore = true → tells token next = false)
    (kinds : ∀ token {next : Token},
      next.kind = .semicolon ∨ next.kind = .rightBrace ∨ next.kind = .endOfInput →
      tells token next = false) :
    tells d.current (d.peek 1) = tells c.current (c.peek 1) := by
  rcases h.peekShows lead with next | ⟨kind, before⟩
  · exact alike (h.ofLead lead) next
  · rw [kinds _ (.inl kind)]
    simp only [Token.endsStatement, Bool.or_eq_true, decide_eq_true_eq] at before
    rcases before with ends | newline'
    · exact (kinds _ (.inr ends)).symm
    · exact (newline _ newline').symm

theorem peekAlike (h : Aligned future c d) (lead : 2 ≤ Passage.lead future) :
    (c.peek 1).Alike (d.peek 1) := by
  obtain ⟨token, later, rfl⟩ := Passage.exists_of_lead (Nat.lt_of_lt_of_le Nat.two_pos lead)
  rw [peek_one, peek_one]
  exact h.ofToken.2.ofLead (Nat.lt_of_succ_lt_succ lead)

theorem peekBeyondShows (h : Aligned future c d) (lead : 1 ≤ Passage.lead future)
    (live : (d.peek 1).kind ≠ .endOfInput) (firm : (d.peek 1).kind ≠ .semicolon) :
    (c.peek 2).Shows (d.peek 2) := by
  obtain ⟨token, later, rfl⟩ := Passage.exists_of_lead lead
  have behind := h.ofToken.2
  rw [peek_one] at live firm
  rw [peek_two, peek_two]
  exact (behind.filled.tail behind.ends' live firm).shows h.final

theorem peekBeyondAlike (h : Aligned future c d) (lead : 3 ≤ Passage.lead future) :
    (c.peek 2).Alike (d.peek 2) := by
  obtain ⟨token, later, rfl⟩ := Passage.exists_of_lead (Nat.lt_of_lt_of_le (by decide) lead)
  rw [peek_two, peek_two, ← peek_one, ← peek_one]
  exact h.ofToken.2.peekAlike (Nat.le_of_succ_le_succ lead)

/-- Nothing stands between two cursors unless a semicolon is left out next. -/
theorem ofOpens (h : Aligned future c d) (opens : Passage.Opens future) :
    c.current.Alike d.current := by
  rcases future with _ | ⟨_ | _, later⟩
  · obtain ⟨future', renders, rest⟩ := h.renders
    cases renders
    simpa [current, h.rest, rest] using h.final
  · exact h.ofToken.1
  · exact (opens rfl).elim

/-- A semicolon that is left out in the first sequence is written in the second one, or it is left
out there as well. -/
theorem ofAutomatic (h : Aligned (.automatic :: later) c d)
    (other : c.current.kind ≠ .semicolon) :
    d.current.kind = .semicolon ∧ Aligned later c.skipSemicolon d.next ∨
      d.current.kind ≠ .semicolon ∧ d.current.endsStatement = true ∧
        Aligned later c.skipSemicolon d.skipSemicolon := by
  obtain ⟨future', renders, rest⟩ := h.renders
  have ends : c.current.endsStatement = true := by
    have first := h.lawful.1
    rwa [current, h.rest]
  by_cases semicolon : d.current.kind = .semicolon
  · refine .inl ⟨semicolon, ?_⟩
    have written : (Passage.tokens future').head? = some d.current := by
      cases first : Passage.tokens future' with
      | nil =>
        have atEnd := h.ends'
        rw [current, rest, first] at semicolon
        rw [List.headD_nil, atEnd] at semicolon
        cases semicolon
      | cons token tokens => simp [current, rest, first]
    have before : (Passage.tokens later).head?.all (·.kind ≠ .semicolon) := by
      cases tokens : Passage.tokens later with
      | nil => rfl
      | cons token rest => simpa [current, h.rest, tokens] using other
    obtain ⟨later', behind, same⟩ := renders.ofWritten written semicolon before
    exact {
      rest := h.rest
      lawful := h.lawful.2
      renders := ⟨later', behind, by simp [next, rest, same]⟩
      passed := .cons (.written semicolon) h.passed
      final := h.final
      ends := h.ends }
  · refine .inr ⟨semicolon, ?_, ?_⟩
    · rw [(h.shows.alike semicolon).endsStatement, ends]
    · obtain ⟨later', behind, same⟩ := renders.ofOmitted fun token first => by
        simpa [current, rest, first] using semicolon
      exact {
        rest := h.rest
        lawful := h.lawful.2
        renders := ⟨later', behind, rest.trans same⟩
        passed := .cons .omitted h.passed
        final := h.final
        ends := h.ends }

end Aligned

end Cursor

end Uncurry
