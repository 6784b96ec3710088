import Uncurry.Proofs.Lexical.Agreement

/-!
# What the first characters decide

Each kind of lexeme is known by the characters at its front. What is read there is said for one kind
after the other, where what comes earlier in the order of the reader is ruled out by the characters.
-/
namespace Uncurry

open CodePoint

/-- Whether a comment stands at the front of a text. -/
def Text.opensComment (t : Text) : Bool :=
  ["//", "/*", "<!--"].any fun opening => (Text.ofString opening).isPrefixOf t

theorem Text.isPrefixOf_pair (d e c : CodePoint) (t : Text) :
    [d, e].isPrefixOf (c :: t) = (c = d && t.head? = some e) := by
  cases t <;> simp [beq_eq_decide, eq_comm (b := c), List.isPrefixOf, eq_comm (b := e)]

theorem Text.opensComment_cons (c : CodePoint) (t : Text) : opensComment (c :: t) =
    (c = '/' && t.head? = some (ofChar '/') || c = '/' && t.head? = some (ofChar '*') ||
      c = '<' && (Text.ofString "!--").isPrefixOf t) := by
  have markup : Text.ofString "<!--" = ofChar '<' :: Text.ofString "!--" := by decide
  have line : Text.ofString "//" = [ofChar '/', ofChar '/'] := by decide
  have block : Text.ofString "/*" = [ofChar '/', ofChar '*'] := by decide
  simp only [opensComment, List.any_cons, List.any_nil, Bool.or_false, markup, line, block,
    isPrefixOf_pair, List.isPrefixOf_cons_cons (a := ofChar '<'), beq_eq_decide, Bool.or_assoc,
    eq_comm (b := c)]

namespace Lexeme

open Text

variable {context : LexContext} {first : Bool} {c : CodePoint} {t rest : Text} {kind : TokenKind}
  {n : Nat}

theorem scan_quote (quote : c = '"' ∨ c = '\'') : scan context first c rest =
    orFault .string .unterminatedString (stringLength? c rest) := by
  have plain : c.isLineTerminator = false ∧ (c.isBlank || c.val = 0xFEFF) = false := by
    obtain rfl | rfl := quote <;> decide
  have other {d : Char} (h : '"' ≠ d ∧ '\'' ≠ d) : (c = ofChar d) = False := by
    refine eq_false fun same => ?_
    rcases quote with own | own
    · exact h.1 (ofChar_injective (own.symm.trans same))
    · exact h.2 (ofChar_injective (own.symm.trans same))
  have quote : (c = '"' || c = '\'') = true := by simpa using quote
  simp only [scan, other (d := '#') (by decide), other (d := '/') (by decide),
    other (d := '<') (by decide), plain, quote, decide_false, Bool.and_false, Bool.false_and,
    Bool.false_eq_true, if_false, if_true]

theorem isDigit_plain (digit : c.isDigit = true) :
    c.isLineTerminator = false ∧ (c.isBlank || c.val = 0xFEFF) = false := by
  simp only [isDigit, Bool.and_eq_true, decide_eq_true_eq] at digit
  have plain := (by decide : ∀ v < 58, 48 ≤ v → Unicode.blank.contains v = false) c.val (by omega)
    digit.1
  refine ⟨Bool.eq_false_iff.2 fun line => ?_, ?_⟩
  · have cases : c.val = 10 ∨ c.val = 13 ∨ c.val = 0x2028 ∨ c.val = 0x2029 := by
      simpa [isLineTerminator, CodePoint.ext_iff, ofChar, or_assoc] using line
    omega
  · simp only [CodePoint.isBlank, plain, Bool.false_or, decide_eq_false_iff_not]
    omega

theorem scan_digit (front : c.isDigit = true ∨ c = '.' ∧ rest.head?.any isDigit = true) :
    scan context first c rest = match number (c :: rest) with
      | .ok (kind, length) => .ok (.token kind, length - 1)
      | .error cause => .error (.malformed cause 0) := by
  have plain : c.isLineTerminator = false ∧ (c.isBlank || c.val = 0xFEFF) = false := by
    rcases front with digit | ⟨rfl, _⟩
    · exact isDigit_plain digit
    · decide
  have other {d : Char} (h : (ofChar d).isDigit = false ∧ '.' ≠ d) : (c = ofChar d) = False := by
    refine eq_false ?_
    rintro rfl
    rcases front with digit | ⟨same, _⟩
    · exact Bool.false_ne_true (h.1.symm.trans digit)
    · exact h.2 (ofChar_injective same).symm
  have front : (c.isDigit || (c = '.' && rest.head?.any isDigit)) = true := by simpa using front
  cases found : number (c :: rest) <;>
    simp only [scan, other (d := '#') (by decide), other (d := '/') (by decide),
      other (d := '<') (by decide), other (d := '"') (by decide), other (d := '\'') (by decide),
      other (d := '`') (by decide), plain, front, found, decide_false, Bool.and_false,
      Bool.false_and, Bool.or_false, Bool.false_eq_true, if_false, if_true]

theorem scan_escaped : scan context first '\\' rest =
    match name (ofChar '\\' :: rest) with
    | .ok name => .ok (.word name.kind name.spelling, name.length - 1)
    | .error fault => .error fault := by
  have line : (ofChar '\\').isLineTerminator = false := by decide
  have blank : ((ofChar '\\').isBlank || (ofChar '\\').val = 0xFEFF) = false := by decide
  have digit : (ofChar '\\').isDigit = false := by decide
  have other {d : Char} (h : '\\' ≠ d) : (ofChar '\\' = ofChar d) = False :=
    eq_false fun same => h (ofChar_injective same)
  cases found : name (ofChar '\\' :: rest) <;>
    simp only [scan, line, blank, digit, other (d := '/') (by decide), other (d := '#') (by decide),
      other (d := '<') (by decide), other (d := '"') (by decide), other (d := '\'') (by decide),
      other (d := '`') (by decide), other (d := '.') (by decide), decide_true, decide_false,
      Bool.and_false, Bool.false_and, Bool.or_self, Bool.or_true, Bool.false_eq_true, if_false,
      if_true, found]

/-- A name is read where it may start, wherever it stands. -/
theorem scan_wordStart (front : c.isIdentifierStart = true ∨ c = '\\') : scan context first c rest =
    match name (c :: rest) with
    | .ok name => .ok (.word name.kind name.spelling, name.length - 1)
    | .error fault => .error fault := by
  rcases front with start | rfl
  · exact scan_word start
  · exact scan_escaped

theorem scan_privateName (word : rest.head?.any isIdentifierStart = true) :
    scan context first '#' rest = .ok (.token .privateName, partsLength rest) := by
  have line : (ofChar '#').isLineTerminator = false := by decide
  have blank : ((ofChar '#').isBlank || (ofChar '#').val = 0xFEFF) = false := by decide
  have digit : (ofChar '#').isDigit = false := by decide
  have start : (ofChar '#').isIdentifierStart = false := by decide
  have other {d : Char} (h : '#' ≠ d) : (ofChar '#' = ofChar d) = False :=
    eq_false fun same => h (ofChar_injective same)
  have bang : (rest.head? = some (ofChar '!')) = False := by
    refine eq_false fun front => ?_
    rw [front] at word
    revert word
    decide
  simp only [scan, line, blank, digit, start, other (d := '/') (by decide),
    other (d := '<') (by decide), other (d := '"') (by decide), other (d := '\'') (by decide),
    other (d := '`') (by decide), other (d := '.') (by decide), other (d := '\\') (by decide),
    bang, word, decide_true, decide_false, Bool.and_false, Bool.false_and, Bool.or_self,
    Bool.false_eq_true, if_false, if_true]

/-- At the start of a program a number sign opens a comment if an exclamation mark follows. -/
theorem scan_hashbang : scan context true '#' rest = .ok (.comment, n) ↔
    rest.head? = some (ofChar '!') ∧ lineCommentLength rest = n := by
  have line : (ofChar '#').isLineTerminator = false := by decide
  have blank : ((ofChar '#').isBlank || (ofChar '#').val = 0xFEFF) = false := by decide
  have digit : (ofChar '#').isDigit = false := by decide
  have start : (ofChar '#').isIdentifierStart = false := by decide
  have other {d : Char} (h : '#' ≠ d) : (ofChar '#' = ofChar d) = False :=
    eq_false fun same => h (ofChar_injective same)
  by_cases bang : rest.head? = some (ofChar '!')
  · simp [scan, bang]
  · simp only [scan, line, blank, digit, start, other (d := '/') (by decide),
      other (d := '<') (by decide), other (d := '"') (by decide), other (d := '\'') (by decide),
      other (d := '`') (by decide), other (d := '.') (by decide), other (d := '\\') (by decide),
      bang, decide_true, decide_false, Bool.and_false, Bool.false_and, Bool.or_self,
      Bool.false_eq_true, if_false, if_true, false_and, iff_false]
    split <;> simp

/-- No punctuator starts with a character that something else starts with in any case. -/
theorem punctuators_front : ∀ entry ∈ TokenKind.punctuators,
    (Text.ofString entry.1).head?.any (fun c => !c.isLineTerminator &&
      !(c.isBlank || c.val = 0xFEFF) && !c.isDigit && !c.isIdentifierStart &&
      !(Text.ofString "#\"'`\\").contains c) = true := by
  decide +kernel

/-- A punctuator is read where the characters in front of it have no other meaning. -/
theorem scan_punctuator (found : punctuator? (c :: rest) = some (kind, n))
    (comment : opensComment (c :: rest) = false)
    (point : ¬(c = '.' ∧ rest.head?.any isDigit = true))
    (slash : ¬(c = '/' ∧ context.regexMayStart = true))
    (brace : ¬(c = '}' ∧ context.closesSubstitution = true)) :
    scan context first c rest = .ok (.token kind, n - 1) := by
  obtain ⟨entry, member, -, opens, -⟩ := punctuator?_mem found
  have front := punctuators_front entry member
  obtain ⟨d, later, same⟩ := List.exists_cons_of_ne_nil
    (List.length_pos_iff.1 (punctuators_nonempty entry member))
  rw [same, List.isPrefixOf_cons_cons, Bool.and_eq_true, beq_iff_eq] at opens
  obtain ⟨rfl, -⟩ := opens
  rw [same] at front
  simp only [List.head?_cons, Option.any_some, Bool.and_eq_true, Bool.not_eq_true'] at front
  obtain ⟨⟨⟨⟨line, blank⟩, digit⟩, start⟩, marks⟩ := front
  have other {e : Char} (mark : (Text.ofString "#\"'`\\").contains (ofChar e) = true) :
      (d = ofChar e) = False := by
    refine eq_false ?_
    rintro rfl
    exact Bool.false_ne_true (marks.symm.trans mark)
  simp only [opensComment_cons, Bool.or_eq_false_iff] at comment
  obtain ⟨⟨line', block⟩, markup⟩ := comment
  have point : (d = '.' && rest.head?.any isDigit) = false := by simpa using point
  have slash : (d = '/' && context.regexMayStart) = false := by simpa using slash
  have brace : (d = '}' && context.closesSubstitution) = false := by simpa using brace
  simp only [scan, other (e := '#') (by decide), other (e := '"') (by decide),
    other (e := '\'') (by decide), other (e := '`') (by decide), other (e := '\\') (by decide),
    line, blank, digit, start, line', block, markup, point, slash, brace, found, decide_false,
    Bool.and_false, Bool.false_and, Bool.or_self, Bool.false_eq_true, if_false]

theorem scan_regex (line : t.head? ≠ some (ofChar '/')) (block : t.head? ≠ some (ofChar '*'))
    (starts : context.regexMayStart = true) :
    scan context first '/' t = orFault .regex .unterminatedRegex (regexLength? t) := by
  have other {d : Char} (h : '/' ≠ d) : (ofChar '/' = ofChar d) = False :=
    eq_false fun same => h (ofChar_injective same)
  have terminator : (ofChar '/').isLineTerminator = false := by decide
  have blank : ((ofChar '/').isBlank || (ofChar '/').val = 0xFEFF) = false := by decide
  have word : (ofChar '/').isIdentifierStart = false := by decide
  have digit : (ofChar '/').isDigit = false := by decide
  simp only [scan, other (d := '#') (by decide), other (d := '<') (by decide),
    other (d := '"') (by decide), other (d := '\'') (by decide), other (d := '`') (by decide),
    other (d := '.') (by decide), other (d := '\\') (by decide), terminator, blank, word, digit,
    line, block, starts, decide_false, decide_true, Bool.and_false, Bool.false_and, Bool.and_true,
    Bool.or_false, Bool.false_eq_true, if_false, if_true]

theorem scan_template : scan context first '`' t = chunk true t := by
  have other {d : Char} (h : '`' ≠ d) : (ofChar '`' = ofChar d) = False :=
    eq_false fun same => h (ofChar_injective same)
  have terminator : (ofChar '`').isLineTerminator = false := by decide
  have blank : ((ofChar '`').isBlank || (ofChar '`').val = 0xFEFF) = false := by decide
  simp only [scan, other (d := '#') (by decide), other (d := '<') (by decide),
    other (d := '"') (by decide), other (d := '\'') (by decide), other (d := '/') (by decide),
    terminator, blank, decide_false, Bool.and_false, Bool.false_and, Bool.or_false,
    Bool.false_eq_true, if_false, if_true]

theorem scan_chunk (closes : context.closesSubstitution = true) :
    scan context first '\x7d' t = chunk false t := by
  have other {d : Char} (h : '\x7d' ≠ d) : (ofChar '\x7d' = ofChar d) = False :=
    eq_false fun same => h (ofChar_injective same)
  have terminator : (ofChar '\x7d').isLineTerminator = false := by decide
  have blank : ((ofChar '\x7d').isBlank || (ofChar '\x7d').val = 0xFEFF) = false := by decide
  have word : (ofChar '\x7d').isIdentifierStart = false := by decide
  have digit : (ofChar '\x7d').isDigit = false := by decide
  simp only [scan, other (d := '#') (by decide), other (d := '<') (by decide),
    other (d := '"') (by decide), other (d := '\'') (by decide), other (d := '/') (by decide),
    other (d := '`') (by decide), other (d := '.') (by decide), other (d := '\\') (by decide),
    terminator, blank, word, digit, closes, decide_false, decide_true, Bool.and_false,
    Bool.false_and, Bool.and_true, Bool.or_false, Bool.false_eq_true, if_false, if_true]

theorem regexBodyLength?_pos {inClass : Bool} (h : regexBodyLength? inClass t = some n) :
    0 < n := by
  rw [regexBodyLength?.eq_def] at h
  repeat' split at h
  all_goals first
    | contradiction
    | cases h; decide
    | obtain ⟨m, _, rfl⟩ := Option.map_eq_some_iff.1 h; exact Nat.succ_pos _

/-- A regular expression is no comment, and it is as long as its body and all characters of an
identifier behind it. -/
theorem scan_eq_regex (h : scan context first c rest = .ok (.token .regex, n)) :
    c = '/' ∧ rest.head? ≠ some (ofChar '/') ∧ ∃ i,
      regexBodyLength? false rest = some (i + 1) ∧ n = i + 1 + partsLength (rest.drop (i + 1)) := by
  have scanned := h
  generalize same : Lexeme.token .regex = lexeme at scanned
  cases scanned_of_scan scanned with
  | regex slash starts found =>
    obtain ⟨body, ends, rfl⟩ := Option.map_eq_some_iff.1 found
    obtain ⟨i, rfl⟩ := Nat.exists_eq_succ_of_ne_zero (Nat.ne_of_gt (regexBodyLength?_pos ends))
    refine ⟨slash, fun next => ?_, i, ends, rfl⟩
    rw [slash, scan_lineComment (head?_eq_iff_starts.1 next)] at h
    cases h
  | number _ found => rcases number_kind found with rfl | rfl <;> cases same
  | template => cases ‹ChunkEnd› <;> cases same
  | chunk => cases ‹ChunkEnd› <;> cases same
  | punctuator _ _ found =>
    cases same
    exact absurd (by decide) (punctuator?_literal found)
  | _ => cases same

end Lexeme

end Uncurry
