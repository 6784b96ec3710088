/-!
# Code points and texts

A text is a list of Unicode code points. A surrogate counts as one too, since an escape in a
program can denote it, so texts are wider than strings; `ofString` embeds the strings.
-/
namespace Uncurry

/-- A Unicode code point, possibly a surrogate. -/
structure CodePoint where
  val : Nat
  val_lt : val < 0x110000
  deriving DecidableEq

/-- A sequence of code points. Offsets and lengths count code points. -/
abbrev Text := List CodePoint

namespace CodePoint

@[ext] theorem ext {c d : CodePoint} (h : c.val = d.val) : c = d := by
  cases c; cases d; simp_all

def ofChar (c : Char) : CodePoint :=
  ⟨c.val.toNat, by have := c.valid; simp only [UInt32.isValidChar, Nat.isValidChar] at this; omega⟩

instance : Coe Char CodePoint := ⟨ofChar⟩

instance : Inhabited CodePoint := ⟨ofChar ' '⟩

theorem ofChar_injective {c d : Char} (h : ofChar c = ofChar d) : c = d := by
  apply Char.ext
  apply UInt32.toNat_inj.mp
  exact congrArg val h

/-- The code point of a number, if it is one. -/
def ofNat? (n : Nat) : Option CodePoint :=
  if h : n < 0x110000 then some ⟨n, h⟩ else none

def isSurrogate (c : CodePoint) : Bool := 0xD800 ≤ c.val && c.val < 0xE000

/-- The character of a code point that is no surrogate. -/
def toChar? (c : CodePoint) : Option Char :=
  if h : c.val.isValidChar then some (Char.ofNatAux c.val h) else none

@[simp] theorem toChar?_ofChar (c : Char) : (ofChar c).toChar? = some c := by
  have h : (ofChar c).val.isValidChar := c.valid
  unfold toChar?
  rw [dif_pos h]
  rfl

def isAscii (c : CodePoint) : Bool := c.val < 128

/-- Digits are the ten ASCII digits. -/
def isDigit (c : CodePoint) : Bool := 48 ≤ c.val && c.val ≤ 57

/-- The value of an ASCII hexadecimal digit. -/
def hexDigit? (c : CodePoint) : Option Nat :=
  if 48 ≤ c.val ∧ c.val ≤ 57 then some (c.val - 48)
  else if 65 ≤ c.val ∧ c.val ≤ 70 then some (c.val - 55)
  else if 97 ≤ c.val ∧ c.val ≤ 102 then some (c.val - 87)
  else none

/-- ASCII capital letters become small, all else stays. -/
def toLower (c : CodePoint) : CodePoint :=
  if h : 65 ≤ c.val ∧ c.val ≤ 90 then ⟨c.val + 32, by omega⟩ else c

/-- The capital letter of a letter whose capital is in ASCII: of the ASCII letters, and of the
dotless i and the long s. -/
def toUpper (c : CodePoint) : CodePoint :=
  if h : 97 ≤ c.val ∧ c.val ≤ 122 then ⟨c.val - 32, by omega⟩
  else if c.val = 0x131 then 'I'
  else if c.val = 0x17F then 'S'
  else c

end CodePoint

namespace Text

def ofString (s : String) : Text := s.toList.map CodePoint.ofChar

instance : Coe String Text := ⟨ofString⟩

/-- The string of a text without surrogates. -/
def toString? (t : Text) : Option String :=
  (t.mapM CodePoint.toChar?).map String.ofList

@[simp] theorem toString?_ofString (s : String) : (ofString s).toString? = some s := by
  have chars (l : List Char) : (l.map CodePoint.ofChar).mapM CodePoint.toChar? = some l := by
    induction l with
    | nil => rfl
    | cons c l ih => simp [ih]
  simp [toString?, ofString, chars]

/-- The decimal digits of a number. -/
def ofNat (n : Nat) : Text := ofString n.repr

/-- The decimal digits of an integer, after a minus sign if it is negative. -/
def ofInt : Int → Text
  | .ofNat n => ofNat n
  | .negSucc n => CodePoint.ofChar '-' :: ofNat (n + 1)

end Text

end Uncurry
