import Uncurry.Grammar.Parser

/-!
# What parsers pass

`Cursor.Moves` says that a cursor is another one behind some tokens and some semicolons that were
left out where they may be. The token at the end is not among them.
-/
namespace Uncurry

namespace TokenKind

/-- The kind of bracket that closes what a kind opens. -/
def closer? : TokenKind → Option TokenKind
  | .leftParen => some .rightParen
  | .leftBracket => some .rightBracket
  | .leftBrace => some .rightBrace
  | .templateHead => some .templateTail
  | _ => none

/-- The brackets to close behind a token of some kind, given those to close before it, the next one
first. No bracket closes before one that was opened behind its own opening bracket. -/
def nest (unclosed : List TokenKind) (kind : TokenKind) : Option (List TokenKind) :=
  match kind.closer? with
  | some closer => some (closer :: unclosed)
  | none =>
    if kind.closes then if unclosed.head? = some kind then some unclosed.tail else none
    else some unclosed

/-- Neither opens nor closes a bracket. -/
def isPlain (kind : TokenKind) : Bool := kind.closer?.isNone && !kind.closes

/-- The brackets to close behind tokens of some kinds. -/
def nestAll (unclosed : List TokenKind) (kinds : List TokenKind) : Option (List TokenKind) :=
  kinds.foldlM nest unclosed

variable {unclosed unclosed' unclosed'' outer kinds more : List TokenKind} {kind : TokenKind}

theorem nest_of_plain (plain : kind.isPlain = true) (unclosed : List TokenKind) :
    nest unclosed kind = some unclosed := by
  simp only [isPlain, Bool.and_eq_true, Option.isNone_iff_eq_none, Bool.not_eq_true'] at plain
  simp [nest, plain]

@[simp] theorem nestAll_nil (unclosed : List TokenKind) : nestAll unclosed [] = some unclosed := rfl

theorem nestAll_cons (h : nest unclosed kind = some unclosed') :
    nestAll unclosed (kind :: kinds) = nestAll unclosed' kinds := by
  simp [nestAll, h]

theorem nestAll_append (h : nestAll unclosed kinds = some unclosed')
    (h' : nestAll unclosed' more = some unclosed'') :
    nestAll unclosed (kinds ++ more) = some unclosed'' := by
  simp only [nestAll] at h h' ⊢
  simp [List.foldlM_append, h, h']

/-- What is open around a token stays open. -/
theorem nest_outer (h : nest unclosed kind = some unclosed') (outer : List TokenKind) :
    nest (unclosed ++ outer) kind = some (unclosed' ++ outer) := by
  unfold nest at h ⊢
  cases closer : kind.closer? with
  | some closer =>
    simp only [closer, Option.some.injEq] at h
    simp [← h]
  | none =>
    simp only [closer] at h ⊢
    split at h
    · rename_i closes
      cases unclosed with
      | nil => simp at h
      | cons first rest =>
        simp only [List.head?_cons, List.tail_cons, Option.some.injEq] at h
        simp only [closes, if_true, List.cons_append, List.head?_cons, List.tail_cons,
          Option.some.injEq]
        by_cases same : first = kind
        · rw [if_pos same, Option.some.injEq] at h
          rw [if_pos same, h]
        · rw [if_neg same] at h
          cases h
    · rename_i other
      simp only [Option.some.injEq] at h
      rw [if_neg other, h]

theorem nestAll_outer (h : nestAll unclosed kinds = some unclosed') (outer : List TokenKind) :
    nestAll (unclosed ++ outer) kinds = some (unclosed' ++ outer) := by
  induction kinds generalizing unclosed with
  | nil =>
    simp only [nestAll_nil, Option.some.injEq] at h
    rw [h, nestAll_nil]
  | cons kind kinds ih =>
    cases step : nest unclosed kind with
    | none => simp [nestAll, step] at h
    | some next =>
      rw [nestAll_cons step] at h
      rw [nestAll_cons (nest_outer step outer)]
      exact ih h

end TokenKind

namespace Passage

/-- The tokens among what was passed. -/
def tokens (events : List Passage) : List Token := events.filterMap token?

/-- The kinds of the tokens among what was passed. -/
def kinds (events : List Passage) : List TokenKind := (tokens events).map Token.kind

/-- The number of tokens before the first semicolon that was left out. -/
def lead : List Passage → Nat
  | .token _ :: later => lead later + 1
  | _ => 0

/-- What was passed does not start with a semicolon that was left out. -/
def Opens (events : List Passage) : Prop := events.head? ≠ some .automatic

/-- Semicolons are left out only where they may be, given the token behind all that was passed. -/
def Lawful : List Passage → Token → Prop
  | [], _ => True
  | .token _ :: later, next => Lawful later next
  | .automatic :: later, next =>
    ((tokens later).headD next).endsStatement = true ∧ Lawful later next

variable {events more : List Passage} {next : Token}

@[simp] theorem tokens_nil : tokens [] = [] := rfl

@[simp] theorem tokens_token (token : Token) (events : List Passage) :
    tokens (.token token :: events) = token :: tokens events := rfl

@[simp] theorem tokens_automatic (events : List Passage) :
    tokens (.automatic :: events) = tokens events := rfl

@[simp] theorem tokens_append (events more : List Passage) :
    tokens (events ++ more) = tokens events ++ tokens more := List.filterMap_append

@[simp] theorem tokens_reverse (events : List Passage) :
    tokens events.reverse = (tokens events).reverse := List.filterMap_reverse

@[simp] theorem kinds_append (events more : List Passage) :
    kinds (events ++ more) = kinds events ++ kinds more := by simp [kinds]

theorem lead_le_append (events more : List Passage) : lead events ≤ lead (events ++ more) := by
  induction events with
  | nil => simp [lead]
  | cons event events ih => cases event <;> simp [lead, ih]

theorem lead_le_length (events : List Passage) : lead events ≤ (tokens events).length := by
  induction events with
  | nil => exact Nat.le_refl _
  | cons event events ih => cases event <;> simp [lead, ih]

theorem exists_of_lead (h : 0 < lead events) : ∃ token later, events = .token token :: later := by
  rcases events with _ | ⟨token | _, later⟩
  · simp [lead] at h
  · exact ⟨token, later, rfl⟩
  · simp [lead] at h

theorem opens_nil : Opens [] := by simp [Opens]

theorem opens_of_lead (h : 0 < lead events) : Opens events := by
  obtain ⟨token, later, rfl⟩ := exists_of_lead h
  simp [Opens]

theorem Opens.append (h : Opens events) (h' : Opens more) : Opens (events ++ more) := by
  cases events with
  | nil => exact h'
  | cons event events => exact h

theorem tokens_map_token (taken : List Token) : tokens (taken.map .token) = taken := by
  induction taken with
  | nil => rfl
  | cons token taken ih => simp [ih]

theorem lawful_map_token (taken : List Token) (next : Token) :
    Lawful (taken.map .token) next := by
  induction taken with
  | nil => trivial
  | cons token taken ih => exact ih

theorem headD_append (first second : List Token) (next : Token) :
    (first ++ second).headD next = first.headD (second.headD next) := by
  cases first <;> rfl

theorem Lawful.append (h : Lawful events ((tokens more).headD next)) (h' : Lawful more next) :
    Lawful (events ++ more) next := by
  induction events with
  | nil => exact h'
  | cons event events ih =>
    cases event with
    | token token => exact ih h
    | automatic =>
      refine ⟨?_, ih h.2⟩
      rw [List.append_eq, tokens_append, headD_append]
      exact h.1

end Passage

namespace Cursor

variable {c c' c'' : Cursor} {events more : List Passage}

/-- The tokens that were taken up to a cursor, the first one first. -/
def taken (c : Cursor) : List Token := (Passage.tokens c.passed).reverse

/-- All tokens of a sequence but the one at the end, before and behind a cursor. -/
def all (c : Cursor) : List Token := c.taken ++ c.rest

/-- The number of tokens that every construct takes at least from a place on. An `import` in an
expression does not stand alone. -/
def lead (c : Cursor) : Nat := if c.current.kind = .kwImport then 2 else 1

theorem lead_pos (c : Cursor) : 0 < c.lead := by
  unfold lead
  split <;> decide

theorem lead_le_two (c : Cursor) : c.lead ≤ 2 := by
  unfold lead
  split <;> decide

theorem lead_eq_one (h : c.current.kind ≠ .kwImport) : c.lead = 1 := if_neg h

theorem peek_one (c : Cursor) : c.peek 1 = c.next.current := by
  simp [peek, current, next]

theorem peek_two (c : Cursor) : c.peek 2 = c.next.next.current := by
  simp [peek, current, next]

theorem current_mem (c : Cursor) : c.current ∈ c.all ∨ c.current = c.final := by
  rw [current, all]
  cases c.rest with
  | nil => exact .inr rfl
  | cons token rest => exact .inl (List.mem_append_right _ (List.mem_cons_self ..))

theorem mem_all_next {token : Token} (h : token ∈ c.all ∨ token = c.final) :
    token ∈ c.next.all ∨ token = c.next.final := by
  refine h.imp_left fun member => ?_
  simp only [all, taken, next, current, Passage.tokens_token, List.reverse_cons, List.append_assoc]
    at member ⊢
  cases hr : c.rest <;> simp_all

/-- The second cursor is the first one behind what was passed. -/
structure Moves (c : Cursor) (events : List Passage) (c' : Cursor) : Prop where
  passed : c'.passed = events.reverse ++ c.passed
  rest : c.rest = Passage.tokens events ++ c'.rest
  final : c'.final = c.final
  lawful : Passage.Lawful events c'.current

theorem Moves.refl (c : Cursor) : c.Moves [] c := ⟨rfl, rfl, rfl, trivial⟩

theorem Moves.current_eq (h : c.Moves events c') :
    c.current = (Passage.tokens events).headD c'.current := by
  rw [current, h.rest, Passage.headD_append, current, h.final]

theorem Moves.trans (h : c.Moves events c') (h' : c'.Moves more c'') :
    c.Moves (events ++ more) c'' where
  passed := by rw [h'.passed, h.passed, List.reverse_append, List.append_assoc]
  rest := by rw [h.rest, h'.rest, Passage.tokens_append, List.append_assoc]
  final := by rw [h'.final, h.final]
  lawful := .append (h'.current_eq ▸ h.lawful) h'.lawful

/-- Where a cursor was moved to tells what was passed. -/
theorem Moves.unique (h : c.Moves events c') (h' : c.Moves more c') : events = more := by
  have same := h.passed.symm.trans h'.passed
  exact List.reverse_inj.1 (List.append_cancel_right same)

theorem Moves.all_eq (h : c.Moves events c') : c'.all = c.all := by
  simp [all, taken, h.passed, h.rest]

theorem Moves.taken_eq (h : c.Moves events c') : c'.taken = c.taken ++ Passage.tokens events := by
  simp [taken, h.passed]

theorem Moves.mem_all (h : c.Moves events c') {token : Token}
    (place : token ∈ c.all ∨ token = c.final) : token ∈ c'.all ∨ token = c'.final := by
  rwa [h.all_eq, h.final]

theorem Moves.lead_add_le (h : c.Moves events c') :
    Passage.lead events + c'.rest.length ≤ c.rest.length := by
  rw [h.rest, List.length_append]
  exact Nat.add_le_add_right (Passage.lead_le_length events) _

/-- A cursor that was moved over no token has no token behind it that it did not have before. -/
theorem Moves.last?_eq_none (h : c.Moves events c') (none : c'.last? = none) :
    c.last? = .none ∧ ¬0 < Passage.lead events := by
  rw [last?, h.passed, List.findSome?_append, Option.or_eq_none_iff] at none
  refine ⟨none.2, fun takes => ?_⟩
  obtain ⟨token, later, rfl⟩ := Passage.exists_of_lead takes
  simp [Passage.token?] at none

theorem rest_ne_nil (final : c.final.kind = .endOfInput) (live : c.current.kind ≠ .endOfInput) :
    c.rest ≠ [] := by
  intro empty
  rw [current, empty] at live
  exact live final

theorem next_moves (final : c.final.kind = .endOfInput) (live : c.current.kind ≠ .endOfInput) :
    c.Moves [.token c.current] c.next := by
  obtain ⟨token, later, same⟩ := List.exists_cons_of_ne_nil (rest_ne_nil final live)
  exact ⟨rfl, by simp [current, next, same], rfl, trivial⟩

theorem skipSemicolon_moves (ends : c.current.endsStatement = true) :
    c.Moves [.automatic] c.skipSemicolon :=
  ⟨rfl, rfl, rfl, ends, trivial⟩

end Cursor

end Uncurry
