import Uncurry.Proofs.Document.Parsed
import Uncurry.Proofs.Progress.Programs

/-!
# How parsing a program ends

A program is parsed to its end, each of its tokens being taken once and the one at the end never, or
an error is found at one of its tokens. No repetition goes on without taking tokens, and no node is
closed before a token was taken.
-/
namespace Uncurry

open Uncurry.Parser

variable {context : ParseContext} {c c' : Cursor} {tree : SyntaxTree} {halt : Halt}
variable {body : List Token} {final : Token}

/-- Where parsing starts. -/
theorem Cursor.ofTokens_append (ends : final.kind = .endOfInput) :
    Cursor.ofTokens (body ++ [final]) = ⟨[], body.filter (·.kind != .comment), final⟩ := by
  simp [Cursor.ofTokens, List.filter_append, ends]

/-- Tokens end in the one at the end, which is the only one of its kind. -/
theorem tokenize_ended {comments : CommentPolicy} {source : Text} {tokens : List Token}
    (read : tokenize comments source = .ok tokens) :
    ∃ body final, tokens = body ++ [final] ∧ final.kind = .endOfInput ∧
      (∀ token ∈ body, token.kind ≠ .endOfInput) ∧
      (comments = .skip → ∀ token ∈ body, token.kind ≠ .comment) := by
  obtain ⟨items, _, _, reads, _, rfl⟩ := Token.exists_reads read
  obtain ⟨stop, newline, _, same⟩ := Item.tokens_eq comments .initial .origin items
  refine ⟨_, _, same, rfl, Item.code_ne_endOfInput reads.isRead, ?_⟩
  rintro rfl
  exact Item.code_kind reads

/-- What a parser passes that leaves no token can be rendered in another way. -/
theorem Parser.Tracks.rendered {n k : Nat} {t : Bool} {p : Parser SyntaxTree} {code : List Token}
    (tracks : Tracks n [] k t .outermost ⟨[], code, final⟩ Tree.Same p p)
    (ends : final.kind = .endOfInput) (parsed : p .outermost ⟨[], code, final⟩ = .ok (tree, c))
    (rest : c.rest = []) :
    c.final = final ∧ Passage.tokens c.passed.reverse = code ∧
      Passage.Lawful c.passed.reverse final ∧
      ∀ events' final', Passage.RendersAll c.passed.reverse events' → final.Alike final' →
        ∃ tree' c', p .outermost ⟨[], Passage.tokens events', final'⟩ = .ok (tree', c') ∧
          tree.Same tree' ∧ Cursor.Aligned [] c c' := by
  obtain ⟨events, beside⟩ := tracks.ok ends parsed
  have passed : c.passed.reverse = events := by simp [beside.moves.passed]
  have same : c.final = final := beside.moves.final
  have lawful : Passage.Lawful events final := by
    have stops := beside.moves.lawful
    rwa [Cursor.current, rest, List.headD_nil, same] at stops
  have all : code = Passage.tokens events := by simpa [rest] using beside.moves.rest
  rw [passed]
  refine ⟨same, all.symm, lawful, fun events' final' renders last => ?_⟩
  have aligned : Cursor.Aligned (events ++ []) ⟨[], code, final⟩
      ⟨[], Passage.tokens events', final'⟩ := by
    rw [List.append_nil]
    exact {
      rest := all
      lawful := lawful
      renders := ⟨events', renders, rfl⟩
      passed := .nil
      final := last
      ends := ends }
  exact beside.follows [] _ (fun _ => Passage.opens_nil) aligned

/-- Where nothing is left to be passed no token is. -/
theorem Cursor.Aligned.rest_eq_nil {d : Cursor} (h : Cursor.Aligned [] c d) : d.rest = [] := by
  obtain ⟨future', none, left⟩ := h.renders
  cases none
  exact left

namespace Grammar

/-- A program that is accepted was passed up to its end. -/
theorem program_passes (final : c.final.kind = .endOfInput)
    (live : ∀ token ∈ c.rest, token.kind ≠ .endOfInput)
    (parsed : program context c = .ok (tree, c')) :
    c'.rest = [] ∧ ∃ events, Beside [] 0 true context c Tree.Same program tree c' events := by
  obtain ⟨events, beside⟩ :=
    ((program_tracks (n := 0)).weaken (Nat.le_refl 0) (Nat.zero_le _)).ok final parsed
  refine ⟨Cursor.rest_eq_nil (fun token member => live token ?_) ?_, events, beside⟩
  · rw [beside.moves.rest]
    exact List.mem_append_right _ member
  · obtain ⟨_, _, _, ends⟩ := program_laid parsed
    exact ends final

/-- All tokens of a program that is accepted are passed. The program is accepted as well if it is
rendered in another way. -/
theorem program_rendered {code : List Token} (ends : final.kind = .endOfInput)
    (live : ∀ token ∈ code, token.kind ≠ .endOfInput)
    (parsed : program .outermost ⟨[], code, final⟩ = .ok (tree, c)) :
    c.final = final ∧ Passage.tokens c.passed.reverse = code ∧
      Passage.Lawful c.passed.reverse final ∧
      ∀ events' final', Passage.RendersAll c.passed.reverse events' → final.Alike final' →
        ∃ tree' c', program .outermost ⟨[], Passage.tokens events', final'⟩ = .ok (tree', c') ∧
          tree.Same tree' ∧ Passage.RendersAll c.passed c'.passed ∧ c'.rest = [] := by
  obtain ⟨same, all, lawful, rendered⟩ :=
    (program_tracks (n := 0)).rendered ends parsed (program_passes ends live parsed).1
  refine ⟨same, all, lawful, fun events' final' renders last => ?_⟩
  obtain ⟨tree', c', parsed', tree_same, aligned⟩ := rendered events' final' renders last
  exact ⟨tree', c', parsed', tree_same, aligned.passed, aligned.rest_eq_nil⟩

/-- A program that is not accepted has an error at one of its tokens, up to which it was passed. -/
theorem program_stops (final : c.final.kind = .endOfInput)
    (stopped : program context c = .error halt) :
    ∃ error, halt.cause = .error error ∧ (error.token ∈ c.all ∨ error.token = c.final) ∧
      ∃ events, c.Moves events halt.cursor := by
  have allowed := (program_tracks (n := c.rest.length + 1)).error final stopped
  obtain ⟨cause, cursor⟩ := halt
  cases cause with
  | error error => exact ⟨error, rfl, allowed⟩
  | nothingTaken =>
    have ends : c.current.kind = .endOfInput := by
      by_contra live
      exact absurd allowed.1 (by simp [live])
    have empty : program context c = .ok (.node .program [] ⟨.origin, c.current.start⟩, c) := by
      rw [program, bind_eq_ok (collect_nil (decide_eq_true ends)), here_bind]
      rfl
    rw [empty] at stopped
    cases stopped
  | exhausted => exact (Nat.not_succ_le_self _ allowed).elim

/-- Parsing tokens that end in their only one of the end has a tree for them, with all of them taken
in turn but comments and the one at the end, or an error at one of them. -/
theorem program_outcome (body : List Token) (final : Token) (ends : final.kind = .endOfInput)
    (only : ∀ token ∈ body, token.kind ≠ .endOfInput) :
    (∃ tree c, program .outermost (Cursor.ofTokens (body ++ [final])) = .ok (tree, c) ∧
        program.run (body ++ [final]) = .ok tree ∧
        c.taken = body.filter (·.kind != .comment) ∧ c.rest = []) ∨
      ∃ error c, program .outermost (Cursor.ofTokens (body ++ [final])) =
          .error ⟨.error error, c⟩ ∧
        program.run (body ++ [final]) = .error error ∧ error.token ∈ body ++ [final] ∧
        c.taken <+: body.filter (·.kind != .comment) := by
  have starts : Cursor.ofTokens (body ++ [final]) = _ := Cursor.ofTokens_append ends
  cases outcome : program .outermost (Cursor.ofTokens (body ++ [final])) with
  | ok result =>
    obtain ⟨tree, c⟩ := result
    have run : program.run (body ++ [final]) = .ok tree := run_ok.2 ⟨c, outcome⟩
    refine .inl ⟨tree, c, rfl, run, ?_⟩
    rw [starts] at outcome
    obtain ⟨rest, events, beside⟩ := program_passes ends
      (fun token member => only token (List.mem_filter.1 member).1) outcome
    have all := beside.moves.rest
    rw [rest, List.append_nil] at all
    exact ⟨by rw [beside.moves.taken_eq]; exact all.symm, rest⟩
  | error halt =>
    have run : program.run (body ++ [final]) = .error halt.error := run_error.2 ⟨halt, outcome, rfl⟩
    rw [starts] at outcome
    obtain ⟨error, found, place, events, moves⟩ := program_stops ends outcome
    obtain ⟨cause, c⟩ := halt
    obtain rfl : cause = .error error := found
    refine .inr ⟨error, c, rfl, run, ?_, ?_⟩
    · refine List.mem_append.2 (place.imp (fun member => ?_) fun same => by simp [same])
      exact (List.mem_filter.1 member).1
    · rw [moves.taken_eq]
      exact ⟨c.rest, moves.rest.symm⟩

/-- The tokens of an `if` that breaks off behind a comment and a parenthesis. -/
def brokenOff : List Token :=
  [⟨.kwIf, Text.ofString "if", ⟨⟨0, 1, 1⟩, ⟨2, 1, 3⟩⟩, false⟩,
   ⟨.comment, Text.ofString "/**/", ⟨⟨2, 1, 3⟩, ⟨6, 1, 7⟩⟩, false⟩,
   ⟨.leftParen, Text.ofString "(", ⟨⟨6, 1, 7⟩, ⟨7, 1, 8⟩⟩, false⟩]

theorem program_outcome_brokenOff :
    let final : Token := ⟨.endOfInput, [], ⟨⟨7, 1, 8⟩, ⟨7, 1, 8⟩⟩, false⟩
    final.kind = .endOfInput ∧ (∀ token ∈ brokenOff, token.kind ≠ .endOfInput) ∧
      ∃ error c, program .outermost (Cursor.ofTokens (brokenOff ++ [final])) =
          .error ⟨.error error, c⟩ ∧
        program.run (brokenOff ++ [final]) = .error error ∧ error.token ∈ brokenOff ++ [final] ∧
        c.taken <+: brokenOff.filter (·.kind != .comment) := by
  intro final
  have only : ∀ token ∈ brokenOff, token.kind ≠ .endOfInput := by decide
  have rejected : (program.run (brokenOff ++ [final])).toOption.isNone = true := by decide +kernel
  refine ⟨rfl, only, ?_⟩
  rcases program_outcome brokenOff final rfl only with ⟨tree, _, _, run, _⟩ | outcome
  · simp [run, Except.toOption] at rejected
  · exact outcome

end Grammar

end Uncurry
