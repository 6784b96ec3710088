import Uncurry.Console.Entry
import Uncurry.Proofs.Lexical.Sifting
import Uncurry.Proofs.Progress.Layout

/-!
# Programs without invisible characters

The invisible characters of a text are taken out before it is run. Some of them separate tokens or
end lines, so that the program changes where nothing else does this. `normalize_same` says when it
does not, and `not_normalize_same` that it may.
-/
namespace Uncurry.Console

def isVisible (c : CodePoint) : Bool := !isInvisible c

/-- No character that comments are told by is invisible. -/
theorem isVisible_marks : ∀ d ∈ Lexeme.commentMarks, isVisible d = true := by decide

/-- Let no invisible character stand in a token of a text, comments apart. Without them the text has
the same tokens, at the places that are left, if and only if each of its tokens and comments ends
before what is left behind it. The tokens are flagged in the same way then if and only if a line
terminator is left for each that was flagged, and if so the text without invisible characters is
accepted if and only if the text itself is, with the same tree but for places. -/
theorem normalize_same {text : Text} {read : List Token} (accepted : tokenize .keep text = .ok read)
    (clean : ∀ token ∈ read, token.kind ≠ .comment →
      ∀ c ∈ token.writtenIn text, isVisible c = true) :
    ((∃ read', tokenize .keep (normalize text) = .ok read' ∧
        List.Forall₂ (Token.SiftedTo isVisible text) read read') ↔
      ∀ token ∈ read, token.endsSifted isVisible text = true) ∧
    ((∀ token ∈ read, token.endsSifted isVisible text = true) →
      ∃ code, tokenize .skip (normalize text) = .ok code ∧
        code.map Token.face = (read.filter (·.kind != .comment)).map Token.face ∧
        (code.map Token.content = (read.filter (·.kind != .comment)).map Token.content ↔
          Token.linesLeft isVisible text 0 (read.filter (·.kind != .comment)) = true) ∧
        (Token.linesLeft isVisible text 0 (read.filter (·.kind != .comment)) = true →
          (∀ tree, parseProgram text = .ok tree →
            ∃ tree', parseProgram (normalize text) = .ok tree' ∧ tree.Same tree') ∧
          ∀ tree', parseProgram (normalize text) = .ok tree' →
            ∃ tree, parseProgram text = .ok tree ∧ tree.Same tree')) := by
  have sifted := Token.tokenize_sifted isVisible_marks accepted clean
  refine ⟨sifted, fun ends => ?_⟩
  obtain ⟨read', accepted', own⟩ := sifted.2 ends
  obtain ⟨faces, contents⟩ := Token.code_sifted accepted accepted' own
  have code := tokenize_code accepted
  have code' : tokenize .skip (normalize text) = _ := tokenize_code accepted'
  refine ⟨_, code', faces, contents, fun left => ?_⟩
  have same := contents.2 left
  refine ⟨fun tree => parseProgram_alike code code' same, fun tree' parsed => ?_⟩
  obtain ⟨tree, parsed', tree_same⟩ := parseProgram_alike code' code same.symm parsed
  exact ⟨tree, parsed', tree_same.symm⟩

/-- A pasted text with invisible characters at its start, beside spaces, at the ends of lines, in
comments and around punctuators. -/
def pasted : Text :=
  Text.ofString "\uFEFFvar\u00A0 x = 1;\r\n// a\u200Bb\r\nx\u00A0++\r\n/*\u200C*/ ;f\u00A0(x)"

theorem normalize_same_pasted : ∃ read code tree tree',
    tokenize .keep pasted = .ok read ∧
      (∀ token ∈ read, token.kind ≠ .comment →
        ∀ c ∈ token.writtenIn pasted, isVisible c = true) ∧
      (∀ token ∈ read, token.endsSifted isVisible pasted = true) ∧
      normalize pasted = Text.ofString "var x = 1;\n// ab\nx++\n/**/ ;f(x)" ∧
      tokenize .skip (normalize pasted) = .ok code ∧
      code.map Token.content = (read.filter (·.kind != .comment)).map Token.content ∧
      parseProgram pasted = .ok tree ∧ parseProgram (normalize pasted) = .ok tree' ∧
      tree.Same tree' := by
  have evaluated : (tokenize .keep pasted).toOption.any (fun read =>
      (read.all fun token => (token.kind = .comment || (token.writtenIn pasted).all isVisible) &&
        token.endsSifted isVisible pasted) &&
      Token.linesLeft isVisible pasted 0 (read.filter (·.kind != .comment))) = true := by
    decide +kernel
  have parses : (parseProgram pasted).toOption.isSome = true := by decide +kernel
  obtain ⟨read, found, holds⟩ := (Option.any_eq_true _ _).1 evaluated
  simp only [Bool.and_eq_true, Bool.or_eq_true, List.all_eq_true, decide_eq_true_eq] at holds
  have accepted := eq_ok_of_toOption found
  have clean : ∀ token ∈ read, token.kind ≠ .comment →
      ∀ c ∈ token.writtenIn pasted, isVisible c = true :=
    fun token member plain => (holds.1 token member).1.resolve_left plain
  have ends : ∀ token ∈ read, token.endsSifted isVisible pasted = true :=
    fun token member => (holds.1 token member).2
  obtain ⟨code, accepted', _, same, trees⟩ := (normalize_same accepted clean).2 ends
  obtain ⟨tree, parsed⟩ := Option.isSome_iff_exists.1 parses
  obtain ⟨tree', parsed', tree_same⟩ := (trees holds.2).1 tree (eq_ok_of_toOption parsed)
  exact ⟨read, code, tree, tree', accepted, clean, ends, by decide +kernel, accepted',
    same.2 holds.2, eq_ok_of_toOption parsed, parsed', tree_same⟩

/-- The invisible space in this text is all that separates two words. -/
def spacedUnseen : Text := Text.ofString "var\u00A0x = 1;"

theorem not_normalize_same : ¬∀ text read, tokenize .skip text = .ok read →
    (∀ token ∈ read, ∀ c ∈ token.writtenIn text, isInvisible c = false) →
      ∃ read', tokenize .skip (normalize text) = .ok read' ∧
        read'.map Token.face = read.map Token.face := by
  intro same
  have clean : (tokenize .skip spacedUnseen).toOption.any (fun read => read.length = 6 &&
      read.all fun token => (token.writtenIn spacedUnseen).all isVisible) = true := by
    decide +kernel
  have merged : (tokenize .skip (normalize spacedUnseen)).toOption.map List.length = some 5 := by
    decide +kernel
  obtain ⟨read, found, holds⟩ := (Option.any_eq_true _ _).1 clean
  obtain ⟨read', found', length'⟩ := Option.map_eq_some_iff.1 merged
  simp only [Bool.and_eq_true, List.all_eq_true, decide_eq_true_eq] at holds
  obtain ⟨length, clean⟩ := holds
  obtain ⟨_, again, faces⟩ := same spacedUnseen read (eq_ok_of_toOption found)
    fun token member c inside => by simpa [isVisible] using clean token member c inside
  obtain rfl := Except.ok.inj ((eq_ok_of_toOption found').symm.trans again)
  have equal := congrArg List.length faces
  rw [List.length_map, List.length_map, length, length'] at equal
  cases equal

end Uncurry.Console
