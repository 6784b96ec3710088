import Mathlib.Data.List.Induction
import Uncurry.Console.Entry
import Uncurry.Proofs.Progress.Outcomes

/-!
# Programs leave no bracket open

The brackets of a program that is accepted nest, so that counting those that are open never goes
below zero and comes back to it. A complete program is not held back while it is typed.
-/
namespace Uncurry

namespace TokenKind

variable {unclosed unclosed' : List TokenKind} {kind : TokenKind} {kinds more : List TokenKind}

theorem opens_eq (kind : TokenKind) : kind.opens = kind.closer?.isSome := by
  cases kind <;> rfl

/-- A bracket that opens makes one more to close. -/
theorem length_of_opens (h : nest unclosed kind = some unclosed') (opens : kind.opens = true) :
    unclosed'.length = unclosed.length + 1 := by
  obtain ⟨closer, found⟩ := Option.isSome_iff_exists.1 (opens_eq kind ▸ opens)
  rw [nest, found] at h
  cases h
  rfl

/-- A bracket that closes was to be closed. -/
theorem length_of_closes (h : nest unclosed kind = some unclosed') (opens : kind.opens = false)
    (closes : kind.closes = true) : unclosed.length = unclosed'.length + 1 := by
  have none : kind.closer? = none := Option.isNone_iff_eq_none.1 (by simpa [opens_eq] using opens)
  simp only [nest, none, closes, if_true] at h
  split at h
  · rename_i first
    cases unclosed with
    | nil => cases first
    | cons closer unclosed =>
      cases h
      rfl
  · cases h

theorem eq_of_plain (h : nest unclosed kind = some unclosed') (opens : kind.opens = false)
    (closes : kind.closes = false) : unclosed' = unclosed := by
  have none : kind.closer? = none := Option.isNone_iff_eq_none.1 (by simpa [opens_eq] using opens)
  simpa [nest, none, closes, eq_comm] using h

/-- Brackets that nest as a whole nest up to any place between them. -/
theorem nestAll_split (h : nestAll unclosed (kinds ++ more) = some unclosed') :
    ∃ between, nestAll unclosed kinds = some between ∧ nestAll between more = some unclosed' := by
  rw [nestAll, List.foldlM_append] at h
  exact Option.bind_eq_some_iff.1 h

end TokenKind

namespace Console

variable {tokens : List Token} {unclosed unclosed' : List TokenKind}

/-- Where brackets nest, those that are open are counted. -/
theorem openBrackets_eq (h : TokenKind.nestAll [] (tokens.map Token.kind) = some unclosed) :
    openBrackets tokens = unclosed.length := by
  induction tokens using List.reverseRecOn generalizing unclosed with
  | nil =>
    cases h
    rfl
  | append_singleton tokens token ih =>
    rw [List.map_append] at h
    obtain ⟨between, before, last⟩ := TokenKind.nestAll_split h
    have step : TokenKind.nest between token.kind = some unclosed := by
      simpa [TokenKind.nestAll] using last
    have counted : openBrackets (tokens ++ [token]) =
        if token.kind.opens then openBrackets tokens + 1
        else if token.kind.closes then openBrackets tokens - 1
        else openBrackets tokens := by
      simp [openBrackets, List.foldl_append]
    rw [counted, ih before]
    cases opens : token.kind.opens with
    | true => exact (TokenKind.length_of_opens step opens).symm
    | false =>
      cases closes : token.kind.closes with
      | true => simp [TokenKind.length_of_closes step opens closes]
      | false => simp [TokenKind.eq_of_plain step opens closes]

/-- A bracket that closes where brackets nest finds one open. -/
theorem openBrackets_pos {front back : List Token} {token : Token}
    (h : TokenKind.nestAll [] ((front ++ token :: back).map Token.kind) = some unclosed)
    (closes : token.kind.closes = true) : 0 < openBrackets front := by
  rw [List.map_append, List.map_cons] at h
  obtain ⟨between, before, behind⟩ := TokenKind.nestAll_split h
  rw [openBrackets_eq before]
  have opens : token.kind.opens = false := by
    cases kind : token.kind <;> simp_all [TokenKind.opens, TokenKind.closes]
  cases step : TokenKind.nest between token.kind with
  | none => simp [TokenKind.nestAll, step] at behind
  | some later =>
    rw [TokenKind.length_of_closes step opens closes]
    exact Nat.succ_pos _

/-- The brackets of a program that is accepted nest and are all closed. -/
theorem nestAll_program {body : List Token} {final : Token} {tree : SyntaxTree}
    (ends : final.kind = .endOfInput) (only : ∀ token ∈ body, token.kind ≠ .endOfInput)
    (plain : ∀ token ∈ body, token.kind ≠ .comment)
    (accepted : Grammar.program.run (body ++ [final]) = .ok tree) :
    TokenKind.nestAll [] ((body ++ [final]).map Token.kind) = some [] := by
  obtain ⟨c, parsed⟩ := Parser.run_ok.1 accepted
  have code : body.filter (·.kind != .comment) = body :=
    List.filter_eq_self.2 fun token member => by simpa using plain token member
  rw [Cursor.ofTokens_append ends, code] at parsed
  obtain ⟨rest, events, beside⟩ := Grammar.program_passes ends only parsed
  have all : body = Passage.tokens events := by simpa [rest] using beside.moves.rest
  rw [List.map_append, all]
  refine TokenKind.nestAll_append beside.nested ?_
  rw [List.map_singleton, ends]
  rfl

/-- A program that is accepted asks for no more lines: its brackets nest, none of them closes where
none is open, and none is left open. -/
theorem needsContinuation_parsed {text : Text} {tree : SyntaxTree}
    (accepted : parseProgram text = .ok tree) :
    needsContinuation? text = some false ∧
      ∃ tokens, tokenize .skip text = .ok tokens ∧
        TokenKind.nestAll [] (tokens.map Token.kind) = some [] ∧ openBrackets tokens = 0 ∧
        ∀ front token back, tokens = front ++ token :: back → token.kind.closes = true →
          0 < openBrackets front := by
  obtain ⟨tokens, read, run⟩ := parseWith_ok.1 accepted
  have nested : TokenKind.nestAll [] (tokens.map Token.kind) = some [] := by
    obtain ⟨body, final, same, ends, only, plain⟩ := tokenize_ended read
    rw [same] at run ⊢
    exact nestAll_program ends only (plain rfl) run
  have closed : openBrackets tokens = 0 := openBrackets_eq nested
  refine ⟨by simp [needsContinuation?, read, closed], tokens, read, nested, closed,
    fun front token back same closes => ?_⟩
  rw [same] at nested
  exact openBrackets_pos nested closes

/-- A program with brackets of all sorts. -/
def nestedBrackets : Text :=
  Text.ofString "f([`a$\x7b \x7bb: (c)\x7d \x7dd`]); class A \x7b [k]() \x7b \x7d \x7d"

theorem needsContinuation_parsed_nested :
    (parseProgram nestedBrackets).toOption.isSome = true ∧
      needsContinuation? nestedBrackets = some false := by
  have parsed : (parseProgram nestedBrackets).toOption.isSome = true := by decide +kernel
  obtain ⟨tree, found⟩ := Option.isSome_iff_exists.1 parsed
  exact ⟨parsed, (needsContinuation_parsed (eq_ok_of_toOption found)).1⟩

end Console

end Uncurry
