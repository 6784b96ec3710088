import Mathlib.Data.List.TakeWhile
import Uncurry.Proofs.Lexical.Coverage

/-!
# Identifiers and their escapes

An identifier is a row of characters, each written as itself or as an escape. Only the first form is
asked whether it may stand in an identifier: an escape is read as a liberal integer and denotes
whichever code point has that number.
-/
namespace Uncurry

namespace Text

/-- A stretch of a text is plain if there is no backslash in it. -/
def Plain (t : Text) : Prop := CodePoint.ofChar '\\' ∉ t

instance : DecidablePred Plain := fun t => inferInstanceAs (Decidable (_ ∉ t))

theorem plain_nil : Plain [] := List.not_mem_nil

theorem plain_cons {c : CodePoint} {t : Text} (other : c ≠ '\\') (h : Plain t) :
    Plain (c :: t) := by
  rw [Plain, List.mem_cons, not_or]
  exact ⟨fun same => other same.symm, h⟩

theorem Plain.append {t t' : Text} (h : Plain t) (h' : Plain t') : Plain (t ++ t') := by
  rw [Plain, List.mem_append, not_or]
  exact ⟨h, h'⟩

theorem Plain.take_add {t : Text} {k m : Nat} (h : Plain (t.take k))
    (h' : Plain ((t.drop k).take m)) : Plain (t.take (k + m)) := by
  rw [List.take_add]
  exact h.append h'

/-- The number that some hexadecimal digits denote. -/
def hexValue (t : Text) : Nat := t.foldl (fun value c => 16 * value + c.hexDigit?.getD 0) 0

namespace HexInteger

variable {t rest : Text} {c : CodePoint} {n : Nat} {value : Int}

theorem digits_of_hex (afterDigit : Bool) (hex : ∀ c ∈ t, c.hexDigit?.isSome = true)
    (nonempty : t ≠ [] ∨ afterDigit = true) : digits n afterDigit t =
      some (t.foldl (fun value c => 16 * value + c.hexDigit?.getD 0) n) := by
  induction t generalizing n afterDigit with
  | nil => simp [digits, nonempty.resolve_left (absurd rfl)]
  | cons c t ih =>
    obtain ⟨own, later⟩ := List.forall_mem_cons.1 hex
    obtain ⟨digit, found⟩ := Option.isSome_iff_exists.1 own
    rw [digits, found, List.foldl_cons, found]
    exact ih true later (.inr rfl)

/-- A hexadecimal digit is an ASCII character that is no padding, no sign and no letter of a
prefix. -/
theorem hexDigit_plain (hex : c.hexDigit?.isSome = true) : c.isAscii = true ∧ isPadding c = false ∧
    c ≠ '-' ∧ c ≠ '+' ∧ c ≠ 'x' ∧ c ≠ 'X' := by
  have bounds : 48 ≤ c.val ∧ c.val ≤ 57 ∨ 65 ≤ c.val ∧ c.val ≤ 70 ∨ 97 ≤ c.val ∧ c.val ≤ 102 := by
    unfold CodePoint.hexDigit? at hex
    split at hex
    · omega
    split at hex
    · omega
    split at hex
    · omega
    · cases hex
  have other {d : Char} (distinct : c.val ≠ d.val.toNat) : c ≠ CodePoint.ofChar d :=
    fun same => distinct (congrArg CodePoint.val same)
  have space : c ≠ ' ' := other (by rw [show (' ' : Char).val.toNat = 32 from rfl]; omega)
  refine ⟨?_, ?_, ?_, ?_, ?_, ?_⟩
  · simp only [CodePoint.isAscii, decide_eq_true_eq]
    omega
  · simp only [isPadding, space, decide_false, Bool.or_false, Bool.and_eq_false_iff,
      decide_eq_false_iff_not]
    omega
  · exact other (by rw [show ('-' : Char).val.toNat = 45 from rfl]; omega)
  · exact other (by rw [show ('+' : Char).val.toNat = 43 from rfl]; omega)
  · exact other (by rw [show ('x' : Char).val.toNat = 120 from rfl]; omega)
  · exact other (by rw [show ('X' : Char).val.toNat = 88 from rfl]; omega)

theorem strip_of_plain {strip : CodePoint → Bool} (plain : ∀ c ∈ t, strip c = false) :
    dropEndWhile strip (t.dropWhile strip) = t := by
  have front {t : Text} (plain : ∀ c ∈ t, strip c = false) : t.dropWhile strip = t := by
    cases t with
    | nil => rfl
    | cons c t => simp [plain c List.mem_cons_self]
  rw [front plain, dropEndWhile, front (by simpa using plain), List.reverse_reverse]

/-- Hexadecimal digits denote the number that they are the digits of. -/
theorem read_of_hex (nonempty : t ≠ []) (hex : ∀ c ∈ t, c.hexDigit?.isSome = true) :
    read t = some (hexValue t : Int) := by
  have ascii : toAscii? t = some t :=
    if_pos (List.all_eq_true.2 fun c member => (hexDigit_plain (hex c member)).1)
  have stripped : dropEndWhile isPadding (t.dropWhile isPadding) = t :=
    strip_of_plain fun c member => (hexDigit_plain (hex c member)).2.1
  have unprefixed : magnitude t = some (hexValue t) := by
    refine Eq.trans ?_ (digits_of_hex false hex (.inl nonempty))
    unfold magnitude
    split
    · rename_i a b rest
      obtain ⟨_, _, _, _, x, X⟩ := hexDigit_plain (hex b (by simp))
      simp [x, X]
    · rfl
  rw [read, ascii]
  change signed (dropEndWhile isPadding (t.dropWhile isPadding)) = _
  rw [stripped]
  cases t with
  | nil => contradiction
  | cons c rest =>
    obtain ⟨_, _, minus, plus, _⟩ := hexDigit_plain (hex c List.mem_cons_self)
    rw [signed, if_neg minus, if_neg plus, unprefixed]
    rfl

theorem digits_plain {afterDigit : Bool} {m : Nat} (h : digits n afterDigit t = some m) :
    Plain t := by
  induction t generalizing n afterDigit with
  | nil => exact plain_nil
  | cons c t ih =>
    rw [digits] at h
    split at h
    · rename_i digit found
      refine plain_cons ?_ (ih h)
      rintro rfl
      cases found
    · split at h
      · rename_i underscore
        refine plain_cons ?_ (ih h)
        rintro rfl
        revert underscore
        cases afterDigit <;> decide
      · cases h

theorem magnitude_plain (h : magnitude t = some n) : Plain t := by
  unfold magnitude at h
  split at h
  · rename_i a b rest
    split at h
    · rename_i base
      simp only [Bool.and_eq_true, Bool.or_eq_true, decide_eq_true_eq] at base
      have other : a ≠ '\\' ∧ b ≠ '\\' := by
        rw [base.1]
        rcases base.2 with rfl | rfl <;> decide
      refine plain_cons other.1 (plain_cons other.2 ?_)
      split at h
      · rename_i c later
        split at h
        · rename_i underscore
          refine plain_cons ?_ (digits_plain h)
          rintro rfl
          revert underscore
          decide
        · exact digits_plain h
      · cases h
    · exact digits_plain h
  · exact digits_plain h

theorem signed_plain (h : signed t = some value) : Plain t := by
  cases t with
  | nil => exact plain_nil
  | cons c rest =>
    rw [signed] at h
    split at h
    · rename_i minus
      cases found : magnitude rest with
      | none => simp [found] at h
      | some n => exact plain_cons (by rw [minus]; decide) (magnitude_plain found)
    split at h
    · rename_i plus
      obtain ⟨_, found, _⟩ := Option.map_eq_some_iff.1 h
      exact plain_cons (by rw [plus]; decide) (magnitude_plain found)
    · obtain ⟨_, found, _⟩ := Option.map_eq_some_iff.1 h
      exact magnitude_plain found

theorem mem_strip {strip : CodePoint → Bool} (other : strip c = false) (member : c ∈ t) :
    c ∈ dropEndWhile strip (t.dropWhile strip) := by
  have front {t : Text} (member : c ∈ t) : c ∈ t.dropWhile strip := by
    rw [← List.takeWhile_append_dropWhile (p := strip) (l := t), List.mem_append] at member
    refine member.resolve_left fun skipped => ?_
    rw [List.mem_takeWhile_imp skipped] at other
    cases other
  rw [dropEndWhile, List.mem_reverse]
  exact front (List.mem_reverse.2 (front member))

theorem mem_toAscii {ascii : Text} (h : toAscii? t = some ascii) (own : asciiForm? c = some c)
    (member : c ∈ t) : c ∈ ascii := by
  rw [toAscii?] at h
  split at h
  · exact Option.some.inj h ▸ member
  · rename_i all
    clear all
    induction t generalizing ascii with
    | nil => cases member
    | cons d t ih =>
      rw [List.mapM_cons] at h
      obtain ⟨form, first, h⟩ := Option.bind_eq_some_iff.1 h
      obtain ⟨later, rest, h⟩ := Option.bind_eq_some_iff.1 h
      cases h
      rcases List.mem_cons.1 member with rfl | member
      · rw [own] at first
        cases first
        exact List.mem_cons_self
      · exact List.mem_cons_of_mem _ (ih member rest)

theorem read_plain (h : read t = some value) : Plain t := by
  intro member
  obtain ⟨ascii, found, h⟩ := Option.bind_eq_some_iff.1 h
  exact signed_plain h (mem_strip (by decide) (mem_toAscii found (by decide) member))

end HexInteger

end Text

/-- A stretch that does not reach to the end of a text ends before a character that is not in it. -/
theorem Text.exists_of_takeWhile_lt {p : CodePoint → Bool} {t : Text}
    (short : (t.takeWhile p).length < t.length) :
    ∃ c rest, t = t.takeWhile p ++ c :: rest ∧ p c = false := by
  have split := List.takeWhile_append_dropWhile (p := p) (l := t)
  cases found : t.dropWhile p with
  | nil =>
    rw [found, List.append_nil] at split
    rw [split] at short
    exact absurd short (Nat.lt_irrefl _)
  | cons c rest =>
    have last := List.head_dropWhile_not p (l := t) (by simp [found])
    refine ⟨c, rest, by rw [← found, split], ?_⟩
    simpa [found] using last

namespace Lexeme

variable {t rest : Text} {c : CodePoint} {n : Nat}

/-- An escape: `\u` with the digits behind it, which may stand in braces. Where the text ends before
the closing brace there is none. -/
inductive Escape
  | fixed (digits : Text)
  | braced (digits : Text) (closed : Bool)
  deriving DecidableEq

namespace Escape

def digits : Escape → Text
  | fixed digits => digits
  | braced digits _ => digits

def written : Escape → Text
  | fixed digits => Text.ofString "\\u" ++ digits
  | braced digits closed =>
    Text.ofString "\\u\x7b" ++ (digits ++ if closed then [CodePoint.ofChar '}'] else [])

/-- Whether an escape has four digits or a closing brace. -/
def isWhole : Escape → Bool
  | fixed digits => digits.length = 4
  | braced _ closed => closed

/-- An escape is one of the two forms of the grammar: it has exactly four hexadecimal digits, or any
number of them but none in braces. -/
def WellFormed (escape : Escape) : Prop :=
  escape.isWhole = true ∧ escape.digits ≠ [] ∧
    ∀ c ∈ escape.digits, c.hexDigit?.isSome = true

/-- An escape stands in front of a text: its digits are the next four characters, or all of them up
to a brace, and fewer only if the text has no more. -/
structure Before (escape : Escape) (t : Text) : Prop where
  whole : escape.isWhole = true ∨ t = []
  fixed : ∀ digits, escape = .fixed digits →
    digits.length ≤ 4 ∧ digits.head? ≠ some (CodePoint.ofChar '{')
  braced : ∀ digits closed, escape = .braced digits closed → CodePoint.ofChar '}' ∉ digits

/-- An escape is what a text has behind a backslash, as far as some number of characters. -/
structure TakenFrom (escape : Escape) (t : Text) (n : Nat) : Prop where
  text : CodePoint.ofChar '\\' :: t = escape.written ++ t.drop n
  length : escape.written.length = n + 1
  before : escape.Before (t.drop n)

/-- A well-formed escape denotes the number that it has the digits of. -/
theorem WellFormed.read {escape : Escape} (h : escape.WellFormed) :
    Text.HexInteger.read escape.digits = some (escape.digits.hexValue : Int) :=
  Text.HexInteger.read_of_hex h.2.1 h.2.2

/-- An escape that is read has no other backslash than its first character. -/
theorem written_plain {escape : Escape} {value : Int} {i : Nat}
    (h : Text.HexInteger.read escape.digits = some value) :
    escape.written[i]? = some (CodePoint.ofChar '\\') → i = 0 := by
  intro found
  obtain _ | i := i
  · rfl
  have plain := Text.HexInteger.read_plain h
  have member : CodePoint.ofChar '\\' ∈ escape.written.tail :=
    List.mem_of_getElem? (List.getElem?_tail ▸ found)
  refine absurd member ?_
  rw [Text.Plain] at plain
  cases escape with
  | fixed => simpa [written, Escape.digits, Text.ofString, CodePoint.ofChar] using plain
  | braced _ closed =>
    cases closed <;> simpa [written, Escape.digits, Text.ofString, CodePoint.ofChar] using plain

end Escape

theorem escapeDigits?_braced {inner digits : Text}
    (h : escapeDigits? (CodePoint.ofChar 'u' :: CodePoint.ofChar '{' :: inner) =
      some (digits, n)) :
    ∃ escape : Escape, escape.digits = digits ∧
      escape.TakenFrom (CodePoint.ofChar 'u' :: CodePoint.ofChar '{' :: inner) n := by
  have braced : escapeDigits? (CodePoint.ofChar 'u' :: CodePoint.ofChar '{' :: inner) =
      some (inner.takeWhile (· != CodePoint.ofChar '}'),
        2 + (inner.takeWhile (· != CodePoint.ofChar '}')).length +
          if (inner.takeWhile (· != CodePoint.ofChar '}')).length < inner.length then 1
          else 0) := rfl
  rw [braced] at h
  obtain ⟨rfl, rfl⟩ := Prod.mk.inj (Option.some.inj h)
  have plain : CodePoint.ofChar '}' ∉ inner.takeWhile (· != CodePoint.ofChar '}') :=
    fun member => by simpa using List.mem_takeWhile_imp member
  by_cases short : (inner.takeWhile (· != CodePoint.ofChar '}')).length < inner.length
  · obtain ⟨d, later, split, last⟩ := Text.exists_of_takeWhile_lt short
    obtain rfl : d = CodePoint.ofChar '}' := by simpa using last
    rw [if_pos short]
    generalize inner.takeWhile (· != CodePoint.ofChar '}') = digits at *
    subst split
    refine ⟨.braced digits true, rfl, ?_, ?_, .inl rfl, by simp, fun digits' closed same => ?_⟩
    · simp [Escape.written, Text.ofString, Nat.add_comm 2]
    · simp [Escape.written, Text.ofString]
      omega
    · cases same
      exact plain
  · have all : inner.takeWhile (· != CodePoint.ofChar '}') = inner :=
      (List.takeWhile_prefix _).eq_of_length_le (Nat.le_of_not_lt short)
    rw [if_neg short]
    rw [all] at plain ⊢
    refine ⟨.braced inner false, rfl, ?_, ?_, .inr ?_, by simp, fun digits' closed same => ?_⟩
    · simp [Escape.written, Text.ofString, Nat.add_comm 2]
    · simp [Escape.written, Text.ofString]
      omega
    · simp [Nat.add_comm 2]
    · cases same
      exact plain

theorem escapeDigits?_fixed {digits : Text} (brace : rest.head? ≠ some (CodePoint.ofChar '{'))
    (h : escapeDigits? (CodePoint.ofChar 'u' :: rest) = some (digits, n)) :
    ∃ escape : Escape, escape.digits = digits ∧
      escape.TakenFrom (CodePoint.ofChar 'u' :: rest) n := by
  simp only [escapeDigits?, if_true, brace, if_false, Option.some.injEq, Prod.mk.injEq] at h
  obtain ⟨rfl, rfl⟩ := h
  refine ⟨.fixed (rest.take 4), rfl, ?_, ?_, ?_, fun digits same => ?_, by simp⟩
  · rcases Nat.le_total 4 rest.length with enough | short
    · simp [Escape.written, Text.ofString, Nat.add_comm 1, Nat.min_eq_left enough]
    · simp [Escape.written, Text.ofString, Nat.add_comm 1, List.take_of_length_le short]
  · simp [Escape.written, Text.ofString]
    omega
  · by_cases enough : 4 ≤ rest.length
    · exact .inl (by simp [Escape.isWhole, enough])
    · refine .inr (List.drop_eq_nil_of_le ?_)
      simp
      omega
  · cases same
    refine ⟨List.length_take_le 4 rest, ?_⟩
    rwa [List.head?_take, if_neg (by decide)]

/-- The digits that are found behind a backslash are those of an escape that stands there. -/
theorem escapeDigits?_written {digits : Text} (h : escapeDigits? t = some (digits, n)) :
    ∃ escape : Escape, escape.digits = digits ∧ escape.TakenFrom t n := by
  cases t with
  | nil => cases h
  | cons c rest =>
    by_cases letter : c = 'u'
    · subst letter
      by_cases brace : rest.head? = some (CodePoint.ofChar '{')
      · obtain ⟨inner, rfl⟩ := List.head?_eq_some_iff.1 brace
        exact escapeDigits?_braced h
      · exact escapeDigits?_fixed brace h
    · simp [escapeDigits?, letter] at h

theorem ofNat?_eq_some {n : Nat} (h : CodePoint.ofNat? n = some c) : c.val = n := by
  rw [CodePoint.ofNat?] at h
  split at h
  · cases h
    rfl
  · cases h

/-- An escape that is read denotes the code point of its number. -/
theorem escape_written (h : escape t = .ok (c, n)) : ∃ escape : Escape,
    Text.HexInteger.read escape.digits = some (c.val : Int) ∧ escape.TakenFrom t n := by
  rw [Lexeme.escape] at h
  split at h
  · cases h
  rename_i digits length found
  split at h
  · cases h
  rename_i value read
  split at h
  · cases h
  split at h
  · cases h
  rename_i natural
  split at h
  · cases h
  rename_i d code
  cases h
  obtain ⟨escape, rfl, taken⟩ := escapeDigits?_written found
  refine ⟨escape, ?_, taken⟩
  rw [read, ofNat?_eq_some code, Int.toNat_of_nonneg (Int.not_lt.1 natural)]

/-- A number is beyond all bounds if no 32-bit integer holds it. -/
def Unbounded (value : Int) : Prop := value < -2147483648 ∨ 2147483647 < value

/-- Only an escape whose number is beyond all bounds fails without a place. -/
theorem escape_overflow (h : escape t = .error .escapeOverflow) :
    ∃ (escape : Escape) (behind : Text) (value : Int),
      CodePoint.ofChar '\\' :: t = escape.written ++ behind ∧
      Text.HexInteger.read escape.digits = some value ∧ Unbounded value := by
  rw [Lexeme.escape] at h
  split at h
  · cases h
  rename_i digits length found
  split at h
  · cases h
  rename_i value read
  split at h
  · rename_i beyond
    obtain ⟨escape, rfl, taken⟩ := escapeDigits?_written found
    exact ⟨escape, _, value, taken.text, read, by simpa [Unbounded] using beyond⟩
  repeat' split at h
  all_goals cases h

/-- A character of a name as it is written: as itself, or as an escape. -/
inductive NamePiece
  | plain (c : CodePoint)
  | escaped (escape : Escape) (c : CodePoint)

namespace NamePiece

def written : NamePiece → Text
  | plain c => [c]
  | escaped escape _ => escape.written

def char : NamePiece → CodePoint
  | plain c => c
  | escaped _ c => c

/-- A character is read in front of a text: it may stand in an identifier, or it is the code point
of an escape, whichever that may be. -/
def Read (t : Text) : NamePiece → Prop
  | plain c => c.isIdentifierPart = true
  | escaped escape c =>
    Text.HexInteger.read escape.digits = some (c.val : Int) ∧ escape.Before t

/-- All characters are read in front of those behind them and some text. -/
def AllRead : List NamePiece → Text → Prop
  | [], _ => True
  | piece :: pieces, t => piece.Read (pieces.flatMap written ++ t) ∧ AllRead pieces t

end NamePiece

/-- A name is a row of characters that are read one after the other. -/
theorem name_pieces {found : Name} (h : name t = .ok found) : ∃ pieces : List NamePiece,
    t = pieces.flatMap NamePiece.written ++ t.drop found.length ∧
      (pieces.flatMap NamePiece.written).length = found.length ∧
      found.spelling = pieces.map NamePiece.char ∧
      NamePiece.AllRead pieces (t.drop found.length) := by
  fun_induction name t generalizing found
  case case1 =>
    cases h
    exact ⟨[], rfl, rfl, rfl, trivial⟩
  case case4 rest d length escaped later read ih =>
    cases h
    obtain ⟨pieces, split, whole, spelling, all⟩ := ih read
    obtain ⟨escape, number, front, taken, before⟩ := escape_written escaped
    have behind : (CodePoint.ofChar '\\' :: rest).drop (later.length + length + 1) =
        (rest.drop length).drop later.length := by
      rw [List.drop_succ_cons, List.drop_drop, Nat.add_comm]
    rw [behind]
    refine ⟨.escaped escape d :: pieces, ?_, ?_, congrArg (d :: ·) spelling, ⟨number, ?_⟩, all⟩
    · rw [front, List.flatMap_cons, List.append_assoc, ← split]
      rfl
    · rw [List.flatMap_cons, List.length_append, whole]
      change escape.written.length + later.length = later.length + length + 1
      omega
    · rwa [← split]
  case case6 c rest bare part later read ih =>
    cases h
    obtain ⟨pieces, split, whole, spelling, all⟩ := ih read
    refine ⟨.plain c :: pieces, congrArg (c :: ·) split, ?_, congrArg (c :: ·) spelling, part, all⟩
    rw [List.flatMap_cons, List.length_append, whole]
    exact Nat.add_comm 1 _
  case case7 c rest bare part =>
    cases h
    exact ⟨[], rfl, rfl, rfl, trivial⟩
  all_goals contradiction

end Lexeme

end Uncurry
