import Uncurry.Unicode.Ranges

/-!
# Blank characters

The code points that Unicode 14 calls white space, and the four information separators U+001C to
U+001F beside them.
-/
namespace Uncurry.Unicode

/-- Code points that print as blank space or end a line. -/
def blank : Ranges :=
  [(0x9, 0xD), (0x1C, 0x20), (0x85, 0x85), (0xA0, 0xA0), (0x1680, 0x1680), (0x2000, 0x200A),
   (0x2028, 0x2029), (0x202F, 0x202F), (0x205F, 0x205F), (0x3000, 0x3000)]

end Uncurry.Unicode
