import Uncurry.Curry.Call
import Uncurry.Curry.Stub

/-!
# The whole transformation of a program
-/
namespace Uncurry.Curry

/-- A transformed program, and what was done to it. -/
structure Transformed where
  output : Text
  table : ArityTable
  stubsInjected : Bool
  uncurried : Nat

/-- All passes in order. -/
def allPasses : Pass Transformed := do
  collectArities
  let _ ← propagateAliases
  let stubsInjected ← injectStubs
  let uncurried ← uncurryCalls
  let output ← Pass.ofExcept ((← Pass.document).toSource.mapError .edit)
  return ⟨output, ← Pass.table, stubsInjected, uncurried⟩

/-- Transforms a program, and answers what was logged on the way, be it in vain. -/
def transform (source : Text) : Except Failure Transformed × List LogRecord :=
  match Document.parse source with
  | .error failure => (.error (.source failure), [])
  | .ok document =>
    let (result, workspace) := allPasses.run (Workspace.ofDocument document)
    (result, workspace.log)

/-- The text of a transformed program. -/
def transformText (source : Text) : Except Failure Text := (transform source).1.map (·.output)

namespace Transformed

/-- One line on what was done. -/
def summary (transformed : Transformed) : Text :=
  let conflicts := transformed.table.conflicts.length
  let parts :=
    [Text.ofNat transformed.table.size ++ Text.ofString " curried function(s)",
     Text.ofNat transformed.uncurried ++ Text.ofString " call(s) rewritten",
     Text.ofString
      (if transformed.stubsInjected then "stubs injected" else "no declaration, stubs skipped")] ++
    (if conflicts = 0 then [] else [Text.ofNat conflicts ++ Text.ofString " arity conflict(s)"])
  (Text.ofString ", ").intercalate parts

end Transformed

end Uncurry.Curry
