import Uncurry.Curry.ArityTable
import Uncurry.Text.Line

/-!
# The arity table on the console
-/
namespace Uncurry.Console

/-- What is shown of the table of the last program, if there is one. -/
def tableText : Option ArityTable → Text
  | none => Text.ofString "No snippet transformed yet."
  | some table =>
    if table.entries.isEmpty then Text.ofString "Arity table is empty."
    else Text.joinLines table.listing

end Uncurry.Console
