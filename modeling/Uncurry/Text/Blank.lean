import Uncurry.Text.CodePoint
import Uncurry.Unicode.Blank

/-!
# Blank characters and trimming
-/
namespace Uncurry

def CodePoint.isBlank (c : CodePoint) : Bool := Unicode.blank.contains c.val

namespace Text

def trimStart (t : Text) : Text := t.dropWhile CodePoint.isBlank

/-- Drops what `strip` holds of at the end of a text. -/
def dropEndWhile (strip : CodePoint → Bool) (t : Text) : Text := (t.reverse.dropWhile strip).reverse

def trimEnd (t : Text) : Text := t.dropEndWhile CodePoint.isBlank

def trim (t : Text) : Text := t.trimStart.trimEnd

/-- Whether a text is empty or all blank. -/
def isBlank (t : Text) : Bool := t.all CodePoint.isBlank

/-- The characters before the first blank one, and what follows the blanks after them. -/
def splitWord (t : Text) : Text × Text :=
  (t.takeWhile (!·.isBlank), trimStart (t.dropWhile (!·.isBlank)))

/-- Fills a text up with spaces on its right to a width. -/
def padEnd (width : Nat) (t : Text) : Text := t ++ List.replicate (width - t.length) (CodePoint.ofChar ' ')

@[simp] theorem length_padEnd (width : Nat) (t : Text) :
    (padEnd width t).length = max width t.length := by
  simp [padEnd]; omega

end Text

end Uncurry
