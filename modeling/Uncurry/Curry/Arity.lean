import Uncurry.Curry.Pass

/-!
# Finding the arities of curried functions

A name is bound to a curried function of n arguments where its initial value is a call of `F<n>`;
an alias, whose initial value is another name, takes the arity that name has so far.
-/
namespace Uncurry.Curry

/-- The digit of a name that consists of a letter and an ASCII digit. -/
def digitAfter? (letter : CodePoint) : Text → Option Nat
  | [c, d] => if c = letter && d.isDigit then some (d.val - 48) else none
  | _ => none

/-- The number of arguments that a name makes a function of: `F0` to `F9`. -/
def constructorArity? (name : Text) : Option Nat := digitAfter? 'F' name

/-- The number of arguments that a name applies a function to: `A0` to `A9`. -/
def applicationArity? (name : Text) : Option Nat := digitAfter? 'A' name

theorem digitAfter?_le {letter : CodePoint} {name : Text} {digit : Nat}
    (h : digitAfter? letter name = some digit) : digit ≤ 9 := by
  unfold digitAfter? at h
  split at h
  · split at h
    next hd =>
      simp only [CodePoint.isDigit, Bool.and_eq_true, decide_eq_true_eq] at hd
      simp only [Option.some.injEq] at h
      omega
    next => simp at h
  · simp at h

/-- The name and the arity that a declarator binds to a call of a constructor. -/
def curriedBinding? {α : Type} (declarator : Tree α) : Option (Text × Nat) := do
  let name ← (declarator.child 0).identifier?
  let initial := declarator.child 1
  if initial.hasLabel .call then
    return (name, ← constructorArity? (← (initial.child 0).identifier?))
  else none

/-- The name that a declarator binds to another name, and that name. -/
def aliasBinding? {α : Type} (declarator : Tree α) : Option (Text × Text) := do
  return (← (declarator.child 0).identifier?, ← (declarator.child 1).identifier?)

/-- The declarators of a document, in order. -/
def declarators (document : Document) : List DocumentTree :=
  (document.find [.varDeclarator]).map fun path => document.node path.node.mark.id

/-- Records the arity of each name that is bound to a call of a constructor. -/
def collectArities : Pass Unit := do
  ((declarators (← Pass.document)).filterMap curriedBinding?).forM fun binding =>
    Pass.record binding.1 binding.2
  Pass.logCount "collected " (← Pass.table).size " curried function(s)"

/-- Records the arity of an alias if the name that it stands for has one by now, and says whether it
has. -/
def recordAlias (name target : Text) : Pass Bool := do
  match (← Pass.table).get? target with
  | some arity =>
    Pass.record name arity
    return true
  | none => return false

/-- Records the arities of aliases, in one pass in the order of the document, and counts them. -/
def propagateAliases : Pass Nat := do
  let copied ← Pass.count (fun binding => recordAlias binding.1 binding.2)
    ((declarators (← Pass.document)).filterMap aliasBinding?)
  Pass.logCount "propagated " copied " alias(es)"
  return copied

end Uncurry.Curry
