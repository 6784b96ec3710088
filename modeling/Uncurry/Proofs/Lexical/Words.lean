import Uncurry.Proofs.Lexical.Items

/-!
# Words that are written as they are spelled

An identifier without escapes is read as itself in front of every text that does not continue it.
-/
namespace Uncurry

/-- Whether a word in front of the text would go on with its first character. -/
def Text.continuesWord (t : Text) : Bool :=
  t.head?.any fun (c : CodePoint) => c.isIdentifierPart || c = '\\'

/-- A text that an identifier can be written as without escapes. -/
structure Text.IsName (t : Text) : Prop where
  starts : t.startsWord = true
  parts : ∀ c ∈ t, c.isIdentifierPart = true
  unreserved : (⟨t, t.length, false⟩ : Lexeme.Name).kind = .identifier

theorem Text.IsName.length_pos {t : Text} (h : t.IsName) : 0 < t.length := by
  cases t with
  | nil => cases h.starts
  | cons => exact Nat.succ_pos _

theorem Unicode.Ranges.contains_disjoint {ranges others : Ranges} {code : Nat}
    (disjoint : ∀ range ∈ ranges, ∀ other ∈ others, range.2 < other.1 ∨ other.2 < range.1)
    (h : ranges.contains code = true) : others.contains code = false := by
  obtain ⟨range, member, inside⟩ := contains_iff.1 h
  refine Bool.eq_false_iff.2 fun h' => ?_
  obtain ⟨other, member', inside'⟩ := contains_iff.1 h'
  have := disjoint range member other member'
  omega

namespace CodePoint

variable {c : CodePoint}

theorem ne_ofChar_of_isIdentifierStart {d : Char} (h : c.isIdentifierStart = true)
    (plain : (ofChar d).isIdentifierStart = false) : c ≠ ofChar d := by
  rintro rfl
  rw [plain] at h
  cases h

theorem isBlank_eq_false_of_isIdentifierStart (h : c.isIdentifierStart = true) :
    c.isBlank = false := by
  refine Bool.eq_false_iff.2 fun blank => ?_
  rw [isIdentifierStart] at h
  split at h
  · rename_i ascii
    obtain ⟨range, member, inside⟩ := Unicode.Ranges.contains_iff.1 blank
    have low : c.val ≤ 32 := by
      have := (by decide : ∀ range ∈ Unicode.blank, range.2 ≤ 32 ∨ 128 ≤ range.1) range member
      simp only [isAscii, decide_eq_true_eq] at ascii
      omega
    simp only [isAsciiLetter, Bool.or_eq_true, Bool.and_eq_true, decide_eq_true_eq] at h
    obtain (letter | rfl) | rfl := h
    · omega
    · revert low
      decide
    · revert low
      decide
  · rw [Unicode.Ranges.contains_disjoint (by decide +kernel) blank] at h
    cases h

theorem val_ne_of_isIdentifierStart (h : c.isIdentifierStart = true) : c.val ≠ 0xFEFF := by
  intro mark
  obtain rfl : c = ⟨0xFEFF, by decide⟩ := CodePoint.ext mark
  revert h
  decide +kernel

theorem ne_backslash_of_isIdentifierPart (h : c.isIdentifierPart = true) : c ≠ '\\' := by
  rintro rfl
  revert h
  decide +kernel

end CodePoint

namespace Lexeme

variable {context : LexContext} {first : Bool} {c : CodePoint} {rest w t text : Text}
  {lexeme : Lexeme} {n : Nat}

/-- A word is read where its first character stands. -/
theorem scan_word (start : c.isIdentifierStart = true) : scan context first c rest =
    match name (c :: rest) with
    | .ok name => .ok (.word name.kind name.spelling, name.length - 1)
    | .error fault => .error fault := by
  have other {d : Char} (plain : (CodePoint.ofChar d).isIdentifierStart = false) :
      c ≠ CodePoint.ofChar d := CodePoint.ne_ofChar_of_isIdentifierStart start plain
  have line : c.isLineTerminator = false := Bool.eq_false_iff.2 fun line => by
    rw [CodePoint.isIdentifierStart_of_isLineTerminator line] at start
    cases start
  cases found : name (c :: rest) <;>
    simp only [scan, other (d := '#') (by decide), other (d := '/') (by decide),
      other (d := '<') (by decide), other (d := '"') (by decide), other (d := '\'') (by decide),
      other (d := '`') (by decide), other (d := '.') (by decide), line,
      CodePoint.isBlank_eq_false_of_isIdentifierStart start,
      CodePoint.val_ne_of_isIdentifierStart start, isDigit_of_isIdentifierStart start, start,
      decide_false, Bool.and_false, Bool.false_and, Bool.or_false, Bool.true_or,
      Bool.false_eq_true, if_false, if_true, found]

/-- Identifier characters are read as a name up to where they end. -/
theorem name_eq (parts : ∀ c ∈ w, c.isIdentifierPart = true) (ends : t.continuesWord = false) :
    name (w ++ t) = .ok ⟨w, w.length, false⟩ := by
  induction w with
  | nil =>
    cases t with
    | nil => rw [List.nil_append, name]; rfl
    | cons c t =>
      simp only [Text.continuesWord, List.head?_cons, Option.any_some, Bool.or_eq_false_iff,
        decide_eq_false_iff_not] at ends
      rw [List.nil_append, name, if_neg ends.2, if_neg (by simp [ends.1])]
      rfl
  | cons c w ih =>
    obtain ⟨part, parts⟩ := List.forall_mem_cons.1 parts
    rw [List.cons_append, name, if_neg (CodePoint.ne_backslash_of_isIdentifierPart part), if_pos part,
      ih parts]
    rfl

theorem escape_pos {d : CodePoint} (h : escape t = .ok (d, n)) : 0 < n := by
  rw [escape] at h
  split at h
  · cases h
  rename_i digits length found
  have positive : 0 < length := by
    cases t with
    | nil => cases found
    | cons c rest =>
      simp only [escapeDigits?] at found
      repeat' split at found
      all_goals first
        | contradiction
        | (cases found; omega)
  repeat' split at h
  all_goals first
    | contradiction
    | (cases h; exact positive)

/-- A name is spelled by no more characters than it takes, and by as many only without escapes. -/
theorem name_spelled {found : Name} (h : name t = .ok found) :
    Text.continuesWord (t.drop found.length) = false ∧ found.spelling.length ≤ found.length ∧
      (found.spelling.length = found.length → found.escaped = false ∧
        found.spelling = t.take found.length ∧
        ∀ c ∈ found.spelling, c.isIdentifierPart = true) := by
  fun_induction name t generalizing found
  case case4 rest d length escaped later read ih =>
    cases h
    obtain ⟨ends, short, _⟩ := ih read
    refine ⟨?_, by simp only [List.length_cons]; omega, ?_⟩
    · rw [List.drop_succ_cons, Nat.add_comm later.length, ← List.drop_drop]
      exact ends
    · intro same
      have := escape_pos escaped
      simp only [List.length_cons] at same
      omega
  case case6 c rest bare part later read ih =>
    cases h
    obtain ⟨ends, short, plain⟩ := ih read
    refine ⟨ends, Nat.succ_le_succ short, fun same => ?_⟩
    obtain ⟨unescaped, spelling, parts⟩ := plain (Nat.succ.inj same)
    exact ⟨unescaped, by rw [List.take_succ_cons, ← spelling],
      List.forall_mem_cons.2 ⟨part, parts⟩⟩
  case case7 c rest bare part =>
    cases h
    exact ⟨by simp [Text.continuesWord, bare, part], Nat.le_refl _, fun _ => ⟨rfl, rfl, by simp⟩⟩
  case case1 =>
    cases h
    exact ⟨rfl, Nat.le_refl _, fun _ => ⟨rfl, rfl, by simp⟩⟩
  all_goals contradiction

/-- A name that starts with an escape has one. -/
theorem name_escaped {found : Name} (h : name (CodePoint.ofChar '\\' :: rest) = .ok found) :
    found.escaped = true := by
  rw [name, if_pos rfl] at h
  repeat' split at h
  all_goals first
    | contradiction
    | (cases h; rfl)

/-- Only a word is read as one. -/
theorem scan_eq_word {kind : TokenKind} (h : scan context first c rest = .ok (.word kind text, n)) :
    (c.isIdentifierStart = true ∨ c = '\\') ∧ ∃ found, name (c :: rest) = .ok found ∧
      found.kind = kind ∧ found.spelling = text ∧ found.length - 1 = n := by
  cases scanned_of_scan h with
  | word front found => exact ⟨front, _, found, rfl, rfl, rfl⟩

/-- A name is read as itself in front of every text that does not continue it. -/
theorem scan_name (plain : Text.IsName (c :: w)) (ends : t.continuesWord = false) :
    scan context first c (w ++ t) = .ok (.word .identifier (c :: w), w.length) := by
  have start : c.isIdentifierStart = true := by simpa [Text.startsWord] using plain.starts
  have read : name (c :: (w ++ t)) = .ok ⟨c :: w, (c :: w).length, false⟩ :=
    name_eq plain.parts ends
  rw [scan_word start, read]
  exact congrArg (fun kind => Except.ok (Lexeme.word kind (c :: w), w.length)) plain.unreserved

/-- An identifier that is spelled as it is written is a name, and nothing behind continues it. -/
theorem isName_of_scan
    (h : scan context first c (w ++ t) = .ok (.word .identifier (c :: w), w.length)) :
    Text.IsName (c :: w) ∧ t.continuesWord = false := by
  obtain ⟨front, found, read, kind, spelling, length⟩ := scan_eq_word h
  have positive := name_pos front read
  have length : found.length = (c :: w).length := by
    rw [List.length_cons]
    omega
  obtain ⟨ends, _, plain⟩ := name_spelled read
  obtain ⟨unescaped, _, parts⟩ := plain (by rw [spelling, length])
  have whole : found = ⟨c :: w, (c :: w).length, false⟩ := by
    rw [← unescaped, ← length, ← spelling]
  have start : c.isIdentifierStart = true := front.resolve_right
    (CodePoint.ne_backslash_of_isIdentifierPart (parts c (by simp [spelling])))
  refine ⟨⟨by simp [Text.startsWord, start], spelling ▸ parts, whole ▸ kind⟩, ?_⟩
  rw [length, ← List.cons_append, List.drop_left] at ends
  exact ends

end Lexeme

/-- A name as it is read. -/
def Item.ofName (w : Text) : Item := ⟨.word .identifier w, w⟩

theorem Reads.name {context context' : LexContext} {first : Bool} {w tail : Text}
    {items : List Item} (plain : w.IsName)
    (ends : Text.continuesWord (Item.textOf items ++ tail) = false)
    (later : Reads (context.behind (.ofName w)) false items tail context') :
    Reads context first (.ofName w :: items) tail context' := by
  cases w with
  | nil => cases plain.starts
  | cons c w => exact .cons (Lexeme.scan_name plain ends) later

end Uncurry
