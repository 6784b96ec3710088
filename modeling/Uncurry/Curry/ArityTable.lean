import Uncurry.Text.Blank

/-!
# Arity tables

A table says of how many arguments a curried function makes a value. A name that is recorded again
keeps its place and takes the new arity; where that differs from the old one, the change is noted as
a conflict. No name ever leaves.
-/
namespace Uncurry

/-- A change of the arity of a name. -/
structure ArityConflict where
  name : Text
  old : Int
  new : Int
  deriving DecidableEq

structure ArityTable where
  entries : List (Text × Int)
  conflicts : List ArityConflict
  deriving DecidableEq

namespace ArityTable

def empty : ArityTable := ⟨[], []⟩

/-- The arity of a name. -/
def get? (table : ArityTable) (name : Text) : Option Int :=
  (table.entries.find? fun entry => entry.1 = name).map (·.2)

def size (table : ArityTable) : Nat := table.entries.length

/-- The conflict that the recording of an arity brings about. -/
def conflict? (table : ArityTable) (name : Text) (arity : Int) : Option ArityConflict :=
  match table.get? name with
  | some old => if old = arity then none else some ⟨name, old, arity⟩
  | none => none

/-- Entries with the arity of a name put in its place, or behind all others if it has none. -/
def put (name : Text) (arity : Int) : List (Text × Int) → List (Text × Int)
  | [] => [(name, arity)]
  | entry :: later =>
    if entry.1 = name then (name, arity) :: later else entry :: put name arity later

/-- Records the arity of a name. -/
def record (table : ArityTable) (name : Text) (arity : Int) : ArityTable where
  entries := put name arity table.entries
  conflicts := table.conflicts ++ (table.conflict? name arity).toList

@[simp] theorem get?_record_self (table : ArityTable) (name : Text) (arity : Int) :
    (table.record name arity).get? name = some arity := by
  simp only [get?, record]
  induction table.entries with
  | nil => simp [put]
  | cons entry later ih =>
    by_cases h : entry.1 = name <;> simp [put, h, ih]

theorem get?_record_of_ne (table : ArityTable) {name other : Text} (arity : Int)
    (h : other ≠ name) : (table.record name arity).get? other = table.get? other := by
  simp only [get?, record]
  induction table.entries with
  | nil => simp [put, h.symm]
  | cons entry later ih =>
    by_cases hn : entry.1 = name
    · simp [put, hn, h.symm]
    · by_cases ho : entry.1 = other <;> simp_all [put]

/-- The warning about a conflict. -/
def warning (conflict : ArityConflict) : Text :=
  Text.ofString "'" ++ conflict.name ++ Text.ofString "' rebound from arity " ++
    Text.ofInt conflict.old ++ Text.ofString " to arity " ++ Text.ofInt conflict.new ++
    Text.ofString "; using " ++ Text.ofInt conflict.new

/-- The lines of a table: the arities in a column behind the names, then the conflicts. -/
def listing (table : ArityTable) : List Text :=
  let width := (table.entries.map (·.1.length)).foldl max 0
  let row (entry : Text × Int) : Text :=
    Text.padEnd width entry.1 ++ Text.ofString "  " ++ Text.ofInt entry.2
  let note (conflict : ArityConflict) : Text :=
    Text.ofString "! " ++ conflict.name ++ Text.ofString ": arity " ++ Text.ofInt conflict.old ++
      Text.ofString " -> " ++ Text.ofInt conflict.new
  table.entries.map row ++ table.conflicts.map note

end ArityTable

end Uncurry
