import Uncurry.Proofs.Progress.Outcomes

/-!
# Semicolons that are left out can be written

Where a semicolon is left out of a program that is accepted, one may be written: the program is
accepted as well, no semicolon is left out of it any more, and its tree is the same.
-/
namespace Uncurry

open Uncurry.Parser

/-- What stands in a sequence for something that is passed, if every semicolon that is left out is
written. -/
inductive Passage.Written : Passage → Token → Prop
  | token (token : Token) : Written (.token token) token
  | semicolon {semicolon : Token} : semicolon.kind = .semicolon → Written .automatic semicolon

namespace Passage

variable {events more : List Passage} {code : List Token} {next : Token}

theorem rendersAll_of_written (h : List.Forall₂ Written events code) :
    RendersAll events (code.map .token) := by
  rw [RendersAll, List.forall₂_map_right_iff]
  refine h.imp fun event token written => ?_
  cases written with
  | token => exact .token (.refl token)
  | semicolon kind => exact .written kind

theorem length_tokens_le (events : List Passage) : (tokens events).length ≤ events.length :=
  List.length_filterMap_le _ _

/-- Among as many tokens as there are in all, no semicolon was left out. -/
theorem automatic_notMem (h : events.length ≤ (tokens events).length) : .automatic ∉ events := by
  induction events with
  | nil => simp
  | cons event events ih =>
    cases event with
    | token token => simpa using ih (by simpa using h)
    | automatic =>
      have bound := length_tokens_le events
      simp only [tokens_automatic, List.length_cons] at h
      omega

/-- A semicolon is left out only where it may be. -/
theorem Lawful.endsStatement (h : Lawful (events ++ .automatic :: more) next) :
    ((tokens more).headD next).endsStatement = true := by
  induction events with
  | nil => exact h.1
  | cons event events ih =>
    cases event with
    | token token => exact ih h
    | automatic => exact ih h.2

end Passage

namespace Grammar

/-- Semicolons that are left out are left out only before a closing brace, at the end and after a
line terminator. With all of them written a program is accepted as before, with the same tree up to
places, and all its semicolons are taken. -/
theorem program_explicit {comments : CommentPolicy} {source : Text} {tokens : List Token}
    {tree : SyntaxTree} (read : tokenize comments source = .ok tokens)
    (accepted : program.run tokens = .ok tree) :
    ∃ c, program .outermost (Cursor.ofTokens tokens) = .ok (tree, c) ∧
      (∀ front back, c.passed.reverse = front ++ .automatic :: back →
        ((Passage.tokens back).headD c.final).endsStatement = true) ∧
      ∀ body, List.Forall₂ Passage.Written c.passed.reverse (body.filter (·.kind != .comment)) →
        ∃ tree' c', program .outermost (Cursor.ofTokens (body ++ [c.final])) = .ok (tree', c') ∧
          program.run (body ++ [c.final]) = .ok tree' ∧ tree.Same tree' ∧
          c'.taken = body.filter (·.kind != .comment) ∧ .automatic ∉ c'.passed := by
  obtain ⟨c, parsed⟩ := run_ok.1 accepted
  obtain ⟨code, final, rfl, ends, only, _⟩ := tokenize_ended read
  refine ⟨c, parsed, ?_⟩
  rw [Cursor.ofTokens_append ends] at parsed
  obtain ⟨same, _, lawful, rendered⟩ := program_rendered ends
    (fun token member => only token (List.mem_filter.1 member).1) parsed
  rw [same]
  refine ⟨fun front back split => (split ▸ lawful).endsStatement, fun body written => ?_⟩
  obtain ⟨tree', c', parsed', tree_same, renders, rest⟩ :=
    rendered _ final (Passage.rendersAll_of_written written) (.refl final)
  rw [Passage.tokens_map_token] at parsed'
  obtain ⟨events', moves'⟩ : ∃ events', Cursor.Moves ⟨[], body.filter (·.kind != .comment), final⟩
      events' c' := by
    obtain ⟨events', beside'⟩ := (program_tracks (n := 0)).ok ends parsed'
    exact ⟨events', beside'.moves⟩
  have taken : Passage.tokens events' = body.filter (·.kind != .comment) := by
    simpa [rest] using moves'.rest.symm
  have count : c'.passed.length = (body.filter (·.kind != .comment)).length := by
    rw [← renders.length_eq, ← List.length_reverse, written.length_eq]
  have starts : Cursor.ofTokens (body ++ [final]) = _ := Cursor.ofTokens_append ends
  refine ⟨tree', c', by rw [starts, parsed'], run_ok.2 ⟨c', by rw [starts, parsed']⟩, tree_same,
    moves'.taken_eq.trans taken, Passage.automatic_notMem ?_⟩
  rw [count, ← taken, moves'.passed, List.append_nil, Passage.tokens_reverse, List.length_reverse]

/-- A program that leaves out semicolons before a line, before a brace and at its end. -/
def unterminated : Text := Text.ofString "f()\nfunction g() \x7b return\x7d\nvar a = b"

/-- The kinds of its tokens with these semicolons. -/
def terminatedKinds : List TokenKind :=
  [.identifier, .leftParen, .rightParen, .semicolon, .kwFunction, .identifier, .leftParen,
   .rightParen, .leftBrace, .kwReturn, .semicolon, .rightBrace, .kwVar, .identifier, .assign,
   .identifier, .semicolon, .endOfInput]

theorem program_explicit_unterminated :
    ∃ tokens tree tree' body, tokenize .skip unterminated = .ok tokens ∧
      program.run tokens = .ok tree ∧ body.map Token.kind = terminatedKinds ∧
      program.run body = .ok tree' ∧ tree.Same tree' := by
  have passed : ((tokenize .skip unterminated).toOption.bind fun tokens =>
      (program .outermost (Cursor.ofTokens tokens)).toOption.map fun result =>
        (result.2.passed.reverse.map fun event => event.token?.elim .semicolon Token.kind) ++
          [result.2.final.kind]) = some terminatedKinds := by
    decide +kernel
  obtain ⟨tokens, found, kinds⟩ := Option.bind_eq_some_iff.1 passed
  obtain ⟨⟨tree, c⟩, parsed, kinds⟩ := Option.map_eq_some_iff.1 kinds
  have read := eq_ok_of_toOption found
  have run : program.run tokens = .ok tree := run_ok.2 ⟨c, eq_ok_of_toOption parsed⟩
  obtain ⟨c₁, parsed₁, _, explicit⟩ := program_explicit read run
  rw [eq_ok_of_toOption parsed] at parsed₁
  cases parsed₁
  let semicolon : Token := ⟨.semicolon, Text.ofString ";", ⟨.origin, .origin⟩, false⟩
  let body := c.passed.reverse.map fun event => event.token?.getD semicolon
  have same : (body ++ [c.final]).map Token.kind = terminatedKinds := by
    rw [← kinds, List.map_append, List.map_map]
    refine congrArg (· ++ _) (List.map_congr_left fun event _ => ?_)
    cases event <;> rfl
  have plain : body.filter (·.kind != .comment) = body := by
    refine List.filter_eq_self.2 fun token member => ?_
    have inside := List.mem_map_of_mem (f := Token.kind) (List.mem_append_left [c.final] member)
    exact (by decide : ∀ kind ∈ terminatedKinds, (kind != .comment) = true) _ (same ▸ inside)
  have written : List.Forall₂ Passage.Written c.passed.reverse body := by
    rw [List.forall₂_map_right_iff, List.forall₂_same]
    intro event _
    cases event with
    | token token => exact .token token
    | automatic => exact .semicolon rfl
  obtain ⟨tree', _, _, run', tree_same, _⟩ := explicit body (plain.symm ▸ written)
  exact ⟨tokens, tree, tree', body ++ [c.final], read, run, same, run', tree_same⟩

end Grammar

end Uncurry
