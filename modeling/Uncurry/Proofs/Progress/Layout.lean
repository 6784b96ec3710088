import Uncurry.Proofs.Lexical.Respacing
import Uncurry.Proofs.Progress.Outcomes

/-!
# The layout of a program does not matter

A source whose tokens are written anew with separators between them is accepted if and only if the
source itself is, and it has the same tree then.
-/
namespace Uncurry

open Uncurry.Parser

/-- Tokens with the same content are the same but for their places. -/
theorem Token.alike_of_content {token other : Token} (h : other.content = token.content) :
    token.Alike other := by
  simp only [content, Prod.mk.injEq] at h
  exact ⟨h.1, h.2.1, h.2.2⟩

theorem Token.allAlike_of_content {tokens others : List Token}
    (h : others.map content = tokens.map content) : List.Forall₂ Alike tokens others := by
  have equal : List.Forall₂ (· = ·) (tokens.map content) (others.map content) :=
    h ▸ List.forall₂_refl _
  rw [List.forall₂_map_left_iff, List.forall₂_map_right_iff] at equal
  exact equal.imp fun _ _ same => alike_of_content same.symm

/-- What is passed among some tokens can be passed among the same tokens at other places. -/
theorem Passage.exists_renders {events : List Passage} {code : List Token}
    (h : List.Forall₂ Token.Alike (tokens events) code) :
    ∃ events', RendersAll events events' ∧ tokens events' = code := by
  induction events generalizing code with
  | nil =>
    cases h
    exact ⟨[], .nil, rfl⟩
  | cons event events ih =>
    cases event with
    | token token =>
      cases h with
      | @cons _ other _ _ alike later =>
        obtain ⟨events', renders, same⟩ := ih later
        exact ⟨.token other :: events', .cons (.token alike) renders, by rw [tokens_token, same]⟩
    | automatic =>
      obtain ⟨events', renders, same⟩ := ih h
      exact ⟨.automatic :: events', .cons .omitted renders, same⟩

/-- What a parser that leaves no token makes of some tokens, it makes of the same tokens at other
places, up to places. -/
theorem Parser.Tracks.run_alike {n k : Nat} {t : Bool} {p : Parser SyntaxTree}
    {body tokens' : List Token} {final : Token} {tree : SyntaxTree} {c : Cursor}
    (tracks : Tracks n [] k t .outermost (Cursor.ofTokens (body ++ [final])) Tree.Same p p)
    (ends : final.kind = .endOfInput)
    (parsed : p .outermost (Cursor.ofTokens (body ++ [final])) = .ok (tree, c)) (rest : c.rest = [])
    (same : tokens'.map Token.content = (body ++ [final]).map Token.content) :
    ∃ tree' c', p .outermost (Cursor.ofTokens tokens') = .ok (tree', c') ∧ tree.Same tree' ∧
      c'.current.kind = .endOfInput := by
  obtain ⟨body', last, rfl, bodies, lasts⟩ : ∃ body' last, tokens' = body' ++ last ∧
      body'.map Token.content = body.map Token.content ∧ last.map Token.content = [final.content] :=
    List.map_eq_append_iff.1 (by simpa using same)
  obtain ⟨final', rfl, last⟩ : ∃ final', last = [final'] ∧ final'.content = final.content := by
    simpa [List.map_eq_singleton_iff] using lasts
  have alike := Token.alike_of_content last
  have code : List.Forall₂ Token.Alike (body.filter (·.kind != .comment))
      (body'.filter (·.kind != .comment)) :=
    List.rel_filter (fun token other h => by simp [h.kind]) (Token.allAlike_of_content bodies)
  rw [Cursor.ofTokens_append ends] at parsed tracks
  obtain ⟨stays, all, _, rendered⟩ := tracks.rendered ends parsed rest
  obtain ⟨events', renders, written⟩ := Passage.exists_renders (all ▸ code)
  obtain ⟨tree', c', parsed', tree_same, aligned⟩ := rendered events' final' renders alike
  refine ⟨tree', c', ?_, tree_same, ?_⟩
  · rw [Cursor.ofTokens_append (alike.kind.trans ends), ← written, parsed']
  · rw [Cursor.current, aligned.rest_eq_nil, List.headD_nil, aligned.final.kind, stays, ends]

namespace Grammar

/-- The tree of a program is up to places that of its tokens, wherever these stand. -/
theorem program_alike {comments : CommentPolicy} {source : Text} {tokens tokens' : List Token}
    {tree : SyntaxTree} (read : tokenize comments source = .ok tokens)
    (same : tokens'.map Token.content = tokens.map Token.content)
    (accepted : program.run tokens = .ok tree) :
    ∃ tree', program.run tokens' = .ok tree' ∧ tree.Same tree' := by
  obtain ⟨body, final, rfl, ends, only, _⟩ := tokenize_ended read
  obtain ⟨c, parsed⟩ := run_ok.1 accepted
  have rest : c.rest = [] := by
    rw [Cursor.ofTokens_append ends] at parsed
    exact (program_passes ends (fun token member => only token (List.mem_filter.1 member).1)
      parsed).1
  obtain ⟨tree', c', parsed', tree_same, _⟩ := (program_tracks (n := 0)).run_alike ends parsed rest
    same
  exact ⟨tree', run_ok.2 ⟨c', parsed'⟩, tree_same⟩

end Grammar

/-- Sources whose tokens are the same but for their places have the same trees but for places. -/
theorem parseProgram_alike {source source' : Text} {tokens tokens' : List Token} {tree : SyntaxTree}
    (read : tokenize .skip source = .ok tokens) (read' : tokenize .skip source' = .ok tokens')
    (same : tokens'.map Token.content = tokens.map Token.content)
    (parsed : parseProgram source = .ok tree) :
    ∃ tree', parseProgram source' = .ok tree' ∧ tree.Same tree' := by
  obtain ⟨_, again, run⟩ := parseWith_ok.1 parsed
  obtain rfl := Except.ok.inj (read.symm.trans again)
  obtain ⟨tree', run', tree_same⟩ := Grammar.program_alike read same run
  exact ⟨tree', parseWith_ok.2 ⟨tokens', read', run'⟩, tree_same⟩

/-- The tokens of a source are written anew, each behind a line feed if it was behind a line
terminator, and if not behind a space, unless it is the first one. What is written has the same
tokens but for their places, it is accepted if and only if the source is, and its tree is that of
the source but for places. -/
theorem respaced_same {source : Text} {tokens : List Token}
    (read : tokenize .skip source = .ok tokens) :
    ∃ tokens', tokenize .skip (Token.respaced source false tokens) = .ok tokens' ∧
      tokens'.map Token.content = tokens.map Token.content ∧
      (∀ tree, parseProgram source = .ok tree →
        ∃ tree', parseProgram (Token.respaced source false tokens) = .ok tree' ∧ tree.Same tree') ∧
      ∀ tree', parseProgram (Token.respaced source false tokens) = .ok tree' →
        ∃ tree, parseProgram source = .ok tree ∧ tree.Same tree' := by
  obtain ⟨tokens', read', same⟩ := tokenize_respaced read
  refine ⟨tokens', read', same, fun tree => parseProgram_alike read read' same, fun tree' parsed => ?_⟩
  obtain ⟨tree, parsed', tree_same⟩ := parseProgram_alike read' read same.symm parsed
  exact ⟨tree, parsed', tree_same.symm⟩

/-- A program with comments and line terminators around its tokens. -/
def spread : Text := Text.ofString "\n/* */a /* b\n*/+ //c\n`d$\x7be\x7d`/f<!-- g"

/-- Its tokens with separators between them. -/
def spreadTokens : Text := Text.ofString "\na\n+\n`d$\x7b e \x7d` / f "

theorem respaced_same_spread :
    ∃ tokens tokens' tree tree', tokenize .skip spread = .ok tokens ∧
      Token.respaced spread false tokens = spreadTokens ∧
      tokenize .skip spreadTokens = .ok tokens' ∧
      tokens'.map Token.content = tokens.map Token.content ∧
      parseProgram spread = .ok tree ∧ parseProgram spreadTokens = .ok tree' ∧
      tree.Same tree' := by
  have written : (tokenize .skip spread).toOption.map (Token.respaced spread false) =
      some spreadTokens := by
    decide +kernel
  have accepted : (parseProgram spread).toOption.isSome = true := by decide +kernel
  obtain ⟨tokens, found, text⟩ := Option.map_eq_some_iff.1 written
  obtain ⟨tree, parsed⟩ := Option.isSome_iff_exists.1 accepted
  have read := eq_ok_of_toOption found
  obtain ⟨tokens', read', same, parses, _⟩ := respaced_same read
  rw [text] at read' parses
  obtain ⟨tree', parsed', tree_same⟩ := parses tree (eq_ok_of_toOption parsed)
  exact ⟨tokens, tokens', tree, tree', read, text, read', same, eq_ok_of_toOption parsed, parsed',
    tree_same⟩

/-- The tokens of a source written anew with nothing in front of the first one. -/
def Token.joined (source : Text) : List Token → Text
  | [] => []
  | token :: later => token.writtenIn source ++ respaced source true later

/-- A line terminator before the first token is not known any more if nothing is written there. -/
theorem joined_loses_newline :
    ∃ tokens tokens', tokenize .skip (Text.ofString "\nx") = .ok tokens ∧
      Token.joined (Text.ofString "\nx") tokens = Text.ofString "x " ∧
      tokenize .skip (Text.ofString "x ") = .ok tokens' ∧
      tokens'.map Token.content ≠ tokens.map Token.content := by
  have joined : (tokenize .skip (Text.ofString "\nx")).toOption.map (fun tokens =>
      (Token.joined (Text.ofString "\nx") tokens, tokens.map Token.content)) =
      some (Text.ofString "x ",
        [(.identifier, Text.ofString "x", true), (.endOfInput, [], false)]) := by
    decide +kernel
  have contents : (tokenize .skip (Text.ofString "x ")).toOption.map (·.map Token.content) =
      some [(.identifier, Text.ofString "x", false), (.endOfInput, [], false)] := by
    decide +kernel
  obtain ⟨tokens, found, known⟩ := Option.map_eq_some_iff.1 joined
  obtain ⟨tokens', found', known'⟩ := Option.map_eq_some_iff.1 contents
  obtain ⟨text, known⟩ := Prod.mk.inj known
  refine ⟨tokens, tokens', eq_ok_of_toOption found, text, eq_ok_of_toOption found', ?_⟩
  rw [known, known']
  decide

end Uncurry
