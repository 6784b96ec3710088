import Uncurry.Proofs.Curry.Naming

/-!
# Transforming a program twice

The output of a transformation need not be a program. Behind `export \x7b…\x7d` on a line of its
own the word `from` continues the export, and a call of a function of this name, once it is
uncurried, starts with that word.
-/
namespace Uncurry.Curry

/-- A program with a curried function named `from` that is applied behind an export. -/
def exporting : Text := Text.ofString "var from = F1(g);\nexport \x7ba\x7d\nA1(from, x);"

/-- What `exporting` becomes. -/
def exportingOutput : Text :=
  stubs ++ Text.ofString "\nvar from = F1(g);\nexport \x7ba\x7d\nfrom.f(x);"

theorem exporting_tokens : ((tokenize .skip exporting).toOption.all fun tokens =>
    tokens.all fun token => (token.kind != .identifier || token.text = token.writtenIn exporting) &&
      !token.isWord "let") = true := by
  decide +kernel

theorem exporting_edited : (parseProgram exporting).toOption.any (fun program =>
    let table := arities exporting program
    (refusal? (sites table program)).isNone &&
      Patch.edited (edits exporting table program) 0 exporting = exportingOutput) = true := by
  decide +kernel

theorem exportingOutput_refused : (parseProgram exportingOutput).toOption.isNone = true := by
  decide +kernel

/-- The program `exporting`, which has no escapes and does not use the word `let`, is transformed,
but what it becomes is no program. -/
theorem transform_twice_exporting : ∃ result failure, exporting.Unescaped ∧
    (∀ tokens, tokenize .skip exporting = .ok tokens → ∀ token ∈ tokens,
      token.isWord "let" = false) ∧
    (transform exporting).1 = .ok result ∧ result.output = exportingOutput ∧
    (transform result.output).1 = .error (.source failure) := by
  have known (tokens : List Token) (read : tokenize .skip exporting = .ok tokens) :
      ∀ token ∈ tokens, (token.kind = .identifier → token.text = token.writtenIn exporting) ∧
        token.isWord "let" = false := by
    have all := exporting_tokens
    rw [read] at all
    intro token member
    have here := List.all_eq_true.1 all token member
    simp only [Bool.and_eq_true, Bool.not_eq_true'] at here
    exact ⟨fun kind => by simpa [kind] using here.1, here.2⟩
  obtain ⟨program, accepted, run⟩ := (Option.any_eq_true _ _).1 exporting_edited
  simp only [Bool.and_eq_true, Option.isNone_iff_eq_none, decide_eq_true_eq] at run
  obtain ⟨refused, output⟩ := run
  have ok := transform_eq (eq_ok_of_toOption accepted)
  rw [refused] at ok
  obtain ⟨failure, fails⟩ : ∃ failure, parseProgram exportingOutput = .error failure := by
    have none := exportingOutput_refused
    cases parsed : parseProgram exportingOutput with
    | error failure => exact ⟨failure, rfl⟩
    | ok program =>
      rw [parsed] at none
      cases none
  refine ⟨_, failure, fun tokens read token member => (known tokens read token member).1,
    fun tokens read token member => (known tokens read token member).2, ok, output, ?_⟩
  show (transform (Patch.edited _ 0 exporting)).1 = _
  rw [output, transform, Document.parse, fails]
  rfl

end Uncurry.Curry
