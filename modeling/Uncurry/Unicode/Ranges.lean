/-!
# Sets of code points as ranges

A property of characters is a list of closed ranges of code points.
-/
namespace Uncurry.Unicode

/-- A set of code points, as the first and the last one of each run. -/
abbrev Ranges := List (Nat × Nat)

/-- Whether a code point lies in one of the ranges. -/
def Ranges.contains (ranges : Ranges) (code : Nat) : Bool :=
  ranges.any fun range => range.1 ≤ code && code ≤ range.2

theorem Ranges.contains_iff {ranges : Ranges} {code : Nat} :
    ranges.contains code = true ↔ ∃ range ∈ ranges, range.1 ≤ code ∧ code ≤ range.2 := by
  simp [Ranges.contains]

end Uncurry.Unicode
