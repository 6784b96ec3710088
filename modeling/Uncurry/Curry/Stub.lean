import Uncurry.Curry.Pass

/-!
# Environment stubs

Statements that tell a partial evaluator what a browser provides, put before the first declaration
of a program. A program that has them already gets them once more.
-/
namespace Uncurry.Curry

/-- What a partial evaluator has to know of the global object. -/
def stubs : Text := Text.joinLines
  [Text.ofString "__assumeDataProperty(global, \"requestAnimationFrame\", __abstractOrUndefined(\"function\"));",
   Text.ofString "__assumeDataProperty(global, \"cancelAnimationFrame\", __abstractOrUndefined(\"function\"));",
   Text.ofString "__assumeDataProperty(global, \"document\", __abstract(\x7b",
   Text.ofString "    hidden: __abstractOrUndefined(\"boolean\"),",
   Text.ofString "    mozHidden: __abstractOrUndefined(\"boolean\"),",
   Text.ofString "    msHidden: __abstractOrUndefined(\"boolean\"),",
   Text.ofString "    webkitHidden: __abstractOrUndefined(\"boolean\"),",
   Text.ofString "\x7d));"]

/-- The labels of declarations. -/
def declarationLabels : List Label :=
  [.varDecl, .functionDecl, .classDecl, .importDecl, .exportNamed, .exportDefault, .exportAll]

/-- The first declaration of a document that stands in a list of statements. -/
def firstDeclaration? (document : Document) : Option NodePath :=
  (document.find declarationLabels).find? fun path =>
    path.parent.any fun parent => parent.label.isStatementList

/-- Inserts the stubs before the first declaration, and says whether there is one. -/
def injectStubs : Pass Bool := do
  match firstDeclaration? (← Pass.document) with
  | some path =>
    let _ ← Pass.insertBefore path stubs
    return true
  | none =>
    Pass.log .debug .transforms
      (Text.ofString "no declaration found; environment stubs not injected")
    return false

end Uncurry.Curry
