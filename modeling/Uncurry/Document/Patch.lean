import Uncurry.Document.Error

/-!
# Patches

A patch puts a text in the place of a range of the source; with an empty range it is an insertion.
-/
namespace Uncurry

structure Patch where
  range : Range
  text : Text
  deriving DecidableEq

/-- Whether two ranges share a character, or one lies inside the other as an empty one. -/
def Range.overlaps (a b : Range) : Bool := a.start < b.stop && b.start < a.stop

theorem Range.overlaps_comm (a b : Range) : a.overlaps b = b.overlaps a := by
  simp [overlaps, Bool.and_comm]

namespace Patch

/-- Patches in the order of the text; of those with one range the earlier recorded comes first. -/
def before (a b : Patch) : Bool :=
  a.range.start < b.range.start ||
    (a.range.start = b.range.start && a.range.stop ≤ b.range.stop)

/-- What becomes of the source from some offset on. The patches are in order and start no earlier;
`rest` is the source from that offset. -/
def splice (offset : Nat) (rest : Text) : List Patch → Except EditError Text
  | [] => .ok rest
  | patch :: later =>
    if patch.range.start < offset then .error (.overlapAt patch.range.start)
    else
      let kept := rest.take (patch.range.start - offset)
      (splice patch.range.stop (rest.drop (patch.range.stop - offset)) later).map fun text =>
        kept ++ patch.text ++ text

/-- The source with all patches applied. -/
def apply (source : Text) (patches : List Patch) : Except EditError Text :=
  splice 0 source (patches.mergeSort before)

/-- The patches with one more, which must overlap none of them. -/
def add (patches : List Patch) (patch : Patch) : Except EditError (List Patch) :=
  match patches.find? fun existing => existing.range.overlaps patch.range with
  | some existing => .error (.overlap patch.range existing.range)
  | none => .ok (patches ++ [patch])

end Patch

end Uncurry
