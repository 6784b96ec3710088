import Uncurry.Curry.Arity

/-!
# Uncurrying saturated calls

`A2(f, a, b)` applies a curried function to two arguments. Where `f` is known to take two, the
function inside can be called at once: `f.f(a, b)`.
-/
namespace Uncurry.Curry

/-- The curried function that a call applies to all its arguments at once. -/
def saturated? {α : Type} (table : ArityTable) (call : Tree α) : Option Text := do
  let applied ← applicationArity? (← (call.child 0).identifier?)
  let values := (call.child 1).children
  let name ← (values.getD 0 .missing).identifier?
  let arity ← table.get? name
  if 1 < values.length ∧ arity = values.length - 1 ∧ arity = applied then return name else none

/-- The member of a curried function that takes all arguments at once. -/
def direct (name : Text) : Text := name ++ Text.ofString ".f"

/-- Uncurries a call if it is saturated, and says whether it is. -/
def uncurryCall (path : NodePath) : Pass Bool := do
  let place : Place := ⟨path.node.mark.id, []⟩
  match saturated? (← Pass.table) ((← Pass.document).treeAt place) with
  | some name =>
    Pass.replaceCallee place (direct name)
    Pass.removeArgument place 0
    return true
  | none => return false

/-- Uncurries all saturated calls and counts them. -/
def uncurryCalls : Pass Nat := do
  let uncurried ← Pass.count uncurryCall ((← Pass.document).find [.call])
  Pass.logCount "rewrote " uncurried " call(s)"
  return uncurried

end Uncurry.Curry
