import Mathlib.Tactic.Tauto
import Uncurry.Proofs.Lexical.Failures
import Uncurry.Proofs.Lexical.Lines

/-!
# Regular expression literals

Where a regular expression ends is said of its characters alone: at the first slash that is neither
escaped nor in a class, unless the line ends before. `regexBodyLength?_iff` says that the reader
stops there, and `regexes_delimited` what follows for the tokens of a source and for the error that
a regular expression without an end is. A line terminator that is escaped does not end the line.
-/
namespace Uncurry

open CodePoint

namespace Text

/-- Whether the character at an index is escaped: a backslash stands right before it that is not
escaped itself. -/
def escapedAt (t : Text) : Nat → Bool
  | 0 => false
  | i + 1 => t[i]? = some (ofChar '\\') && !t.escapedAt i

/-- A character stands at an index and is not escaped. -/
def Bare (t : Text) (i : Nat) (c : CodePoint) : Prop := t[i]? = some c ∧ t.escapedAt i = false

/-- An index is behind a bracket that opens a class and before all that could close it. -/
def InClass (t : Text) (i : Nat) : Prop :=
  ∃ j < i, t.Bare j (ofChar '[') ∧ ∀ k < i, j < k → ¬t.Bare k (ofChar ']')

/-- The slash at an index is neither escaped nor in a class. -/
def Closes (t : Text) (i : Nat) : Prop := t.Bare i (ofChar '/') ∧ ¬t.InClass i

/-- A line terminator stands at an index and is not escaped. -/
def BreaksLine (t : Text) (i : Nat) : Prop := ∃ c, t.Bare i c ∧ c.isLineTerminator = true

/-- The body of a regular expression, which the text starts with, ends at an index. -/
def EndsBody (t : Text) (i : Nat) : Prop := t.Closes i ∧ ∀ j < i, ¬t.Closes j ∧ ¬t.BreaksLine j

/-- An index is in a class, given whether one is open in front of the text. -/
def InClassFrom (inClass : Bool) (t : Text) (i : Nat) : Prop :=
  (inClass = true ∧ ∀ k < i, ¬t.Bare k (ofChar ']')) ∨ t.InClass i

variable {c d : CodePoint} {t : Text} {i : Nat} {inClass : Bool}

theorem escapedAt_cons (other : c ≠ '\\') (t : Text) (i : Nat) :
    escapedAt (c :: t) (i + 1) = t.escapedAt i := by
  induction i with
  | zero => simp [escapedAt, other]
  | succ i ih => simp only [escapedAt, List.getElem?_cons_succ] at ih ⊢; rw [ih]

theorem escapedAt_escape (d : CodePoint) (t : Text) (i : Nat) :
    escapedAt (ofChar '\\' :: d :: t) (i + 2) = t.escapedAt i := by
  induction i with
  | zero => simp [escapedAt]
  | succ i ih => simp only [escapedAt, List.getElem?_cons_succ] at ih ⊢; rw [ih]

theorem bare_nil : ¬Bare [] i d := fun bare => by simp [Bare] at bare

theorem bare_zero : Bare (c :: t) 0 d ↔ c = d := by simp [Bare, escapedAt]

theorem bare_cons (other : c ≠ '\\') : Bare (c :: t) (i + 1) d ↔ t.Bare i d := by
  rw [Bare, escapedAt_cons other, List.getElem?_cons_succ, Bare]

/-- What an escape takes along is not bare. -/
theorem not_bare_escape : ¬Bare (ofChar '\\' :: t) 1 d := by simp [Bare, escapedAt]

theorem bare_escape (e : CodePoint) :
    Bare (ofChar '\\' :: e :: t) (i + 2) d ↔ t.Bare i d := by
  rw [Bare, escapedAt_escape, List.getElem?_cons_succ, List.getElem?_cons_succ, Bare]

theorem inClassFrom_false : InClassFrom false t i ↔ t.InClass i := by simp [InClassFrom]

theorem inClassFrom_zero : InClassFrom inClass t 0 ↔ inClass = true := by
  simp [InClassFrom, InClass]

/-- A class is open behind a character if it is the opening bracket, or if a class was open before
and it is not the closing one. -/
theorem inClassFrom_cons (other : c ≠ '\\') : InClassFrom inClass (c :: t) (i + 1) ↔
    InClassFrom (c = '[' || (inClass && c != ']')) t i := by
  simp only [InClassFrom, InClass, Nat.forall_lt_succ_left, Nat.exists_lt_succ_left, bare_zero,
    bare_cons other, Nat.succ_pos, Nat.add_lt_add_iff_right, Nat.not_lt_zero, true_implies,
    false_implies, true_and, Bool.or_eq_true, Bool.and_eq_true, decide_eq_true_eq, bne_iff_ne, ne_eq]
  tauto

/-- An escape neither opens nor closes a class. -/
theorem inClassFrom_escape : InClassFrom inClass (ofChar '\\' :: c :: t) (i + 2) ↔
    InClassFrom inClass t i := by
  have opening : ofChar '\\' ≠ ofChar '[' := by decide
  have closing : ofChar '\\' ≠ ofChar ']' := by decide
  simp only [InClassFrom, InClass, Nat.forall_lt_succ_left, Nat.exists_lt_succ_left, bare_zero,
    not_bare_escape, bare_escape, opening, closing, Nat.add_lt_add_iff_right, Nat.not_lt_zero,
    Nat.zero_add, false_and, false_or, true_and, not_false_eq_true, implies_true]

/-- The body of a regular expression ends at an index, given whether a class is open in front of the
text. -/
structure EndsBodyFrom (inClass : Bool) (t : Text) (i : Nat) : Prop where
  bare : t.Bare i (ofChar '/')
  outside : ¬t.InClassFrom inClass i
  first : ∀ j < i, t.Bare j (ofChar '/') → t.InClassFrom inClass j
  line : ∀ j < i, ∀ d, t.Bare j d → d.isLineTerminator = false

theorem endsBodyFrom_false : EndsBodyFrom false t i ↔ t.EndsBody i := by
  constructor
  · rintro ⟨bare, outside, first, line⟩
    refine ⟨⟨bare, fun inside => outside (inClassFrom_false.2 inside)⟩, fun j before =>
      ⟨fun closes => closes.2 (inClassFrom_false.1 (first j before closes.1)), ?_⟩⟩
    rintro ⟨d, own, ends⟩
    rw [line j before d own] at ends
    cases ends
  · rintro ⟨⟨bare, outside⟩, others⟩
    refine ⟨bare, fun inside => outside (inClassFrom_false.1 inside), fun j before own => ?_,
      fun j before d own => Bool.eq_false_iff.2 fun ends => (others j before).2 ⟨d, own, ends⟩⟩
    exact inClassFrom_false.2 (not_not.1 fun outside => (others j before).1 ⟨own, outside⟩)

theorem endsBodyFrom_zero : EndsBodyFrom inClass (c :: t) 0 ↔ c = '/' ∧ inClass = false := by
  rw [← Bool.not_eq_true]
  exact ⟨fun h => ⟨bare_zero.1 h.bare, fun inside => h.outside (inClassFrom_zero.2 inside)⟩,
    fun h => ⟨bare_zero.2 h.1, fun inside => h.2 (inClassFrom_zero.1 inside), nofun, nofun⟩⟩

theorem endsBodyFrom_cons (other : c ≠ '\\') : EndsBodyFrom inClass (c :: t) (i + 1) ↔
    (c = '/' → inClass = true) ∧ c.isLineTerminator = false ∧
      EndsBodyFrom (c = '[' || (inClass && c != ']')) t i := by
  constructor
  · rintro ⟨bare, outside, first, line⟩
    refine ⟨fun slash => inClassFrom_zero.1 (first 0 (Nat.succ_pos i) (bare_zero.2 slash)),
      line 0 (Nat.succ_pos i) c (bare_zero.2 rfl), (bare_cons other).1 bare,
      fun inside => outside ((inClassFrom_cons other).2 inside), fun j before own => ?_,
      fun j before d own => line (j + 1) (Nat.succ_lt_succ before) d ((bare_cons other).2 own)⟩
    exact (inClassFrom_cons other).1
      (first (j + 1) (Nat.succ_lt_succ before) ((bare_cons other).2 own))
  · rintro ⟨slash, ends, bare, outside, first, line⟩
    refine ⟨(bare_cons other).2 bare, fun inside => outside ((inClassFrom_cons other).1 inside),
      fun j before own => ?_, fun j before d own => ?_⟩
    · cases j with
      | zero => exact inClassFrom_zero.2 (slash (bare_zero.1 own))
      | succ j =>
        exact (inClassFrom_cons other).2
          (first j (Nat.lt_of_succ_lt_succ before) ((bare_cons other).1 own))
    · cases j with
      | zero => exact bare_zero.1 own ▸ ends
      | succ j => exact line j (Nat.lt_of_succ_lt_succ before) d ((bare_cons other).1 own)

theorem endsBodyFrom_escape : EndsBodyFrom inClass (ofChar '\\' :: c :: t) i ↔
    ∃ j, i = j + 2 ∧ EndsBodyFrom inClass t j := by
  constructor
  · rintro ⟨bare, outside, first, line⟩
    match i with
    | 0 => exact absurd (bare_zero.1 bare) (by decide)
    | 1 => exact absurd bare not_bare_escape
    | i + 2 =>
      exact ⟨i, rfl, (bare_escape c).1 bare, fun inside => outside (inClassFrom_escape.2 inside),
        fun j before own => inClassFrom_escape.1
          (first (j + 2) (Nat.add_lt_add_right before 2) ((bare_escape c).2 own)),
        fun j before d own =>
          line (j + 2) (Nat.add_lt_add_right before 2) d ((bare_escape c).2 own)⟩
  · rintro ⟨i, rfl, bare, outside, first, line⟩
    refine ⟨(bare_escape c).2 bare, fun inside => outside (inClassFrom_escape.1 inside),
      fun j before own => ?_, fun j before d own => ?_⟩
    · match j with
      | 0 => exact absurd (bare_zero.1 own) (by decide)
      | 1 => exact absurd own not_bare_escape
      | j + 2 =>
        exact inClassFrom_escape.2
          (first j (Nat.lt_of_add_lt_add_right before) ((bare_escape c).1 own))
    · match j with
      | 0 => exact bare_zero.1 own ▸ (by decide)
      | 1 => exact absurd own not_bare_escape
      | j + 2 => exact line j (Nat.lt_of_add_lt_add_right before) d ((bare_escape c).1 own)

end Text

namespace Lexeme

open Text

variable {inClass : Bool} {t : Text} {i : Nat}

/-- A length that is never zero is some steps more than another just if it is so less one. -/
theorem map_add_eq_some {length : Option Nat} (positive : ∀ n, length = some n → 0 < n)
    (k i : Nat) : length.map (· + k) = some (i + 1) ↔ ∃ j, i = j + k ∧ length = some (j + 1) := by
  constructor
  · intro found
    obtain ⟨n, rfl, same⟩ := Option.map_eq_some_iff.1 found
    have := positive n rfl
    exact ⟨n - 1, by omega, by congr 1; omega⟩
  · rintro ⟨j, rfl, rfl⟩
    rw [Option.map_some, Nat.add_right_comm]

/-- The reader of a regular expression stops behind the slash that ends its body. -/
theorem regexBodyLength?_iff :
    regexBodyLength? inClass t = some (i + 1) ↔ EndsBodyFrom inClass t i := by
  fun_induction regexBodyLength? inClass t generalizing i with
  | case1 inClass => exact iff_of_false (Option.some_ne_none _).symm fun h => bare_nil h.bare
  | case2 inClass c rest line =>
    refine iff_of_false (Option.some_ne_none _).symm fun h => ?_
    have plain : (ofChar '/').isLineTerminator = false := by decide
    cases i with
    | zero =>
      rw [(endsBodyFrom_zero.1 h).1, plain] at line
      cases line
    | succ i =>
      rw [h.line 0 (Nat.succ_pos i) c (bare_zero.2 rfl)] at line
      cases line
  | case3 inClass =>
    refine iff_of_false (Option.some_ne_none _).symm fun h => ?_
    have own := h.bare
    cases i with
    | zero => exact absurd (bare_zero.1 own) (by decide)
    | succ i => simp [Bare] at own
  | case4 inClass d later _ ih =>
    rw [endsBodyFrom_escape, map_add_eq_some fun _ => regexBodyLength?_pos]
    simp only [ih]
  | case5 inClass c rest line bare slash =>
    obtain ⟨rfl, rfl⟩ : c = '/' ∧ inClass = false := by simpa using slash
    cases i with
    | zero => exact ⟨fun _ => endsBodyFrom_zero.2 ⟨rfl, rfl⟩, fun _ => rfl⟩
    | succ i =>
      refine ⟨fun h => by simp at h, fun h => ?_⟩
      cases ((endsBodyFrom_cons (by decide)).1 h).1 rfl
  | case6 inClass c rest line bare slash ih =>
    rw [map_add_eq_some fun _ => regexBodyLength?_pos]
    cases i with
    | zero => exact iff_of_false (by simp) fun h => by simp [endsBodyFrom_zero.1 h] at slash
    | succ i =>
      have inside : c = '/' → inClass = true := by
        rintro rfl
        simpa using slash
      have plain : c.isLineTerminator = false := by simpa using line
      simp only [endsBodyFrom_cons bare, ih, plain, true_and, Nat.add_right_cancel_iff,
        exists_eq_left']
      exact (and_iff_right inside).symm

/-- Nothing is the first of its sort with no bar before it just if there is a bar before each. -/
theorem forall_not_first_iff {stops bars : Nat → Prop} :
    (∀ i, ¬(stops i ∧ ∀ j < i, ¬stops j ∧ ¬bars j)) ↔ ∀ i, stops i → ∃ j < i, bars j := by
  constructor
  · intro none i
    induction i using Nat.strongRecOn with
    | ind i ih =>
      intro own
      by_contra free
      refine none i ⟨own, fun j before => ⟨fun sooner => ?_, fun bar => free ⟨j, before, bar⟩⟩⟩
      obtain ⟨k, inside, bar⟩ := ih j before sooner
      exact free ⟨k, Nat.lt_trans inside before, bar⟩
  · rintro behind i ⟨own, others⟩
    obtain ⟨j, before, bar⟩ := behind i own
    exact (others j before).2 bar

theorem eq_none_iff_of_pos {length : Option Nat} (positive : ∀ n, length = some n → 0 < n) :
    length = none ↔ ∀ i, ¬length = some (i + 1) := by
  cases length with
  | none => simp
  | some n =>
    obtain ⟨i, rfl⟩ := Nat.exists_eq_succ_of_ne_zero (Nat.ne_of_gt (positive n rfl))
    simp

/-- A regular expression has an end unless every slash that could be it stands behind the end of the
line. -/
theorem regexBodyLength?_eq_none_iff : regexBodyLength? false t = none ↔
    ∀ i, t.Closes i → ∃ j < i, t.BreaksLine j := by
  simp only [eq_none_iff_of_pos fun _ => regexBodyLength?_pos, regexBodyLength?_iff,
    endsBodyFrom_false]
  exact forall_not_first_iff

/-- No identifier goes on with a line terminator. -/
theorem isIdentifierPart_of_isLineTerminator {c : CodePoint} (line : c.isLineTerminator = true) :
    c.isIdentifierPart = false := by
  have cases : c = '\n' ∨ c = '\r' ∨ c = ⟨0x2028, by decide⟩ ∨ c = ⟨0x2029, by decide⟩ := by
    simpa [CodePoint.isLineTerminator, CodePoint.ext_iff, or_assoc] using line
  obtain rfl | rfl | rfl | rfl := cases <;> decide +kernel

end Lexeme

variable {comments : CommentPolicy} {context : LexContext} {first : Bool} {c : CodePoint}
  {rest : Text} {n : Nat}

namespace Lexeme

/-- A regular expression without an end is the only fault of its sort, and is one at its slash. -/
theorem scan_unterminatedRegex :
    scan context first c rest = .error (.malformed .unterminatedRegex n) ↔
      n = 0 ∧ c = '/' ∧ rest.head? ≠ some (ofChar '/') ∧ rest.head? ≠ some (ofChar '*') ∧
        context.regexMayStart = true ∧ regexBodyLength? false rest = none := by
  constructor
  · intro h
    cases faulty_of_scan h with
    | regex slash line block starts lacking => exact ⟨rfl, slash, line, block, starts, lacking⟩
    | number fault => exact absurd fault (by decide)
  · rintro ⟨rfl, rfl, line, block, starts, lacking⟩
    rw [scan_regex line block starts, regexLength?, lacking]
    rfl

end Lexeme

/-- The token of a literal is no word. -/
theorem Item.IsRead.literal {item : Item} {token : Token} {span : Span} (read : item.IsRead)
    (h : item.token? comments context span = some token) (kind : token.kind ∈ Lexeme.literalKinds) :
    item.lexeme = .token token.kind := by
  have plain : .identifier ∉ Lexeme.literalKinds ∧ .comment ∉ Lexeme.literalKinds := by decide
  obtain ⟨lexeme, written⟩ := item
  obtain ⟨_, _, c, rest, t, _, scanned⟩ := read
  cases lexeme with
  | word own text =>
    cases h
    obtain ⟨_, found, _, rfl, _⟩ := Lexeme.scan_eq_word scanned
    rcases Lexeme.name_kind found with other | ⟨_, entry, member, same, _⟩
    · rw [other] at kind
      exact absurd kind plain.1
    · rw [same] at kind
      exact absurd kind (Lexeme.reservedWords_literal entry member)
  | token own => cases h; rfl
  | comment =>
    cases comments <;> cases h
    exact absurd kind plain.2
  | blank => cases h
  | newline => cases h

/-- A text is a slash, a body, a slash and flags. The slash behind the body is the first in it that
is neither escaped nor in a class, and all line terminators are escaped ones in the body. -/
structure Text.IsRegex (t body flags : Text) : Prop where
  written : t = ofChar '/' :: (body ++ ofChar '/' :: flags)
  nonempty : body ≠ []
  closes : (body ++ ofChar '/' :: flags).Closes body.length
  first : ∀ j < body.length, ¬(body ++ ofChar '/' :: flags).Closes j
  parts : ∀ c ∈ flags, c.isIdentifierPart = true
  escaped : ∀ j c, (body ++ ofChar '/' :: flags)[j]? = some c → c.isLineTerminator = true →
    j < body.length ∧ (body ++ ofChar '/' :: flags).escapedAt j = true

/-- The lexeme of a regular expression is one, and no flag follows it. -/
theorem Lexeme.scan_isRegex {w t : Text}
    (h : scan context first c (w ++ t) = .ok (.token .regex, w.length)) :
    ∃ body flags, Text.IsRegex (c :: w) body flags ∧ t.head?.any isIdentifierPart = false := by
  obtain ⟨rfl, bare, i, found, length⟩ := scan_eq_regex h
  have inside : i + 1 ≤ w.length := by omega
  have same : Text.Same (i + 1) (w ++ t) w := List.take_append_of_le_length inside
  have ends := Text.endsBodyFrom_false.1 (regexBodyLength?_iff.1 (regexBodyLength?_same found same))
  obtain ⟨body, slash, flags, rfl, rfl⟩ : ∃ body slash flags,
      w = body ++ slash :: flags ∧ body.length = i :=
    ⟨w.take i, w[i], w.drop (i + 1), by simp, List.length_take_of_le (by omega)⟩
  obtain rfl : slash = ofChar '/' := by simpa using ends.1.1.1
  have behind : (body ++ ofChar '/' :: flags ++ t).drop (body.length + 1) = flags ++ t := by
    rw [List.append_assoc, ← List.drop_drop, List.drop_left]
    rfl
  have run : partsLength (flags ++ t) = flags.length := by
    rw [behind, List.length_append, List.length_cons] at length
    omega
  obtain ⟨parts, stops⟩ := partsLength_run run
  refine ⟨body, flags, ⟨rfl, ?_, ends.1, fun j before => (ends.2 j before).1, parts, ?_⟩, stops⟩
  · rintro rfl
    exact bare rfl
  · intro j d own line
    have plain : (ofChar '/').isLineTerminator = false := by decide
    rcases Nat.lt_trichotomy j body.length with before | rfl | behind
    · exact ⟨before, Bool.not_eq_false _ ▸ fun bare => (ends.2 j before).2 ⟨d, ⟨own, bare⟩, line⟩⟩
    · obtain rfl : ofChar '/' = d := by simpa using own
      rw [plain] at line
      cases line
    · rw [List.getElem?_append_right (Nat.le_of_lt behind),
        List.getElem?_cons, if_neg (by omega)] at own
      have part := parts d (List.mem_of_getElem? own)
      rw [isIdentifierPart_of_isLineTerminator line] at part
      cases part

/-- A source is read so far up to the slash at an offset, and what is read allows it to start a
regular expression, of which the rest is given. -/
def Text.StartsRegex (source : Text) (offset : Nat) (rest : Text) : Prop :=
  ∃ items context, source = Item.textOf items ++ ofChar '/' :: rest ∧
    offset = (Item.textOf items).length ∧ Reads .initial true items (ofChar '/' :: rest) context ∧
    context.regexMayStart = true ∧ rest.head? ≠ some (ofChar '/') ∧ rest.head? ≠ some (ofChar '*')

/-- A token of a regular expression is what is written in the source, and no flag follows it. -/
theorem isRegex_of_tokenize {source : Text} {read : List Token} {token : Token}
    (accepted : tokenize comments source = .ok read) (member : token ∈ read)
    (kind : token.kind = .regex) :
    ∃ body flags, token.text.IsRegex body flags ∧ token.text = token.writtenIn source ∧
      source[token.stop.offset]?.any isIdentifierPart = false := by
  obtain ⟨c, written, lexeme, own, opening, text, scanned, found⟩ :=
    Token.exists_scan accepted member (by simp [kind])
  have read : Item.IsRead ⟨lexeme, c :: written⟩ := ⟨_, _, c, written, _, rfl, scanned⟩
  obtain rfl : lexeme = .token .regex :=
    kind ▸ read.literal found (by rw [kind]; decide)
  obtain ⟨body, flags, regex, ends⟩ := Lexeme.scan_isRegex scanned
  have same : token.text = c :: written := (congrArg Token.text (Option.some.inj found)).symm
  refine ⟨body, flags, same ▸ regex, same.trans text.symm, ?_⟩
  rwa [List.head?_drop] at ends

/-- The error of a regular expression without an end is where one starts that no slash ends in its
line. -/
theorem unterminatedRegex_iff {source : Text} {line column : Nat} :
    tokenize comments source = .error (.malformed ⟨.unterminatedRegex, line, column⟩) ↔
      ∃ offset rest, source.StartsRegex offset rest ∧
        (∀ i, rest.Closes i → ∃ j < i, rest.BreaksLine j) ∧
        line = source.lineAt offset ∧ column = source.columnAt offset := by
  rw [tokenize_error_iff]
  constructor
  · rintro ⟨items, tail, context, n, rfl, reads, stops, place⟩
    cases stops with
    | fault scanned =>
      obtain ⟨rfl, rfl, line, block, starts, lacking⟩ := Lexeme.scan_unterminatedRegex.1 scanned
      exact ⟨(Item.textOf items).length, _, ⟨items, context, rfl, rfl, reads, starts, line, block⟩,
        Lexeme.regexBodyLength?_eq_none_iff.1 lacking, place⟩
  · rintro ⟨offset, rest, ⟨items, context, rfl, rfl, reads, starts, line, block⟩, lacking, place⟩
    refine ⟨items, _, context, 0, rfl, reads, .fault ?_, place⟩
    exact Lexeme.scan_unterminatedRegex.2
      ⟨rfl, rfl, line, block, starts, Lexeme.regexBodyLength?_eq_none_iff.2 lacking⟩

/-- A regular expression among the tokens of a source is one from its first slash to its last flag.
A source fails for want of the end of one exactly where one may start and every slash that could end
it stands behind a line terminator that is not escaped; the error is at the first slash. -/
theorem regexes_delimited (comments : CommentPolicy) (source : Text) :
    (∀ read, tokenize comments source = .ok read → ∀ token ∈ read, token.kind = .regex →
      ∃ body flags, token.text.IsRegex body flags ∧ token.text = token.writtenIn source ∧
        source[token.stop.offset]?.any isIdentifierPart = false) ∧
    ∀ line column,
      tokenize comments source = .error (.malformed ⟨.unterminatedRegex, line, column⟩) ↔
        ∃ offset rest, source.StartsRegex offset rest ∧
          (∀ i, rest.Closes i → ∃ j < i, rest.BreaksLine j) ∧
          line = source.lineAt offset ∧ column = source.columnAt offset :=
  ⟨fun _ accepted _ member kind => isRegex_of_tokenize accepted member kind,
    fun _ _ => unterminatedRegex_iff⟩

/-- A source with a slash in a class, an escaped bracket, an escaped slash and a slash that
divides. -/
def classedRegex : Text := Text.ofString "a = /[/\\]]\\//g.b / c"

/-- A source that ends in a class of a regular expression. -/
def openRegex : Text := Text.ofString "a =\n  /b[/"

theorem regexes_delimited_classed :
    (∃ read, tokenize .keep classedRegex = .ok read ∧ ∃ token ∈ read, token.kind = .regex ∧
      ∃ body flags, token.text.IsRegex body flags ∧ token.text = token.writtenIn classedRegex ∧
        classedRegex[token.stop.offset]?.any isIdentifierPart = false) ∧
    tokenize .skip openRegex = .error (.malformed ⟨.unterminatedRegex, 2, 3⟩) ∧
      ∃ offset rest, openRegex.StartsRegex offset rest ∧
        (∀ i, rest.Closes i → ∃ j < i, rest.BreaksLine j) ∧
        2 = openRegex.lineAt offset ∧ 3 = openRegex.columnAt offset := by
  have evaluated : (tokenize .keep classedRegex).toOption.any (fun read =>
      read.any fun token => token.kind = .regex) = true := by
    decide +kernel
  obtain ⟨read, found, regex⟩ := (Option.any_eq_true _ _).1 evaluated
  obtain ⟨token, member, kind⟩ := List.any_eq_true.1 regex
  have accepted := eq_ok_of_toOption found
  have failed : tokenize .skip openRegex = .error (.malformed ⟨.unterminatedRegex, 2, 3⟩) := by
    decide +kernel
  exact ⟨⟨read, accepted, token, member, of_decide_eq_true kind,
      (regexes_delimited .keep classedRegex).1 read accepted token member (of_decide_eq_true kind)⟩,
    failed, ((regexes_delimited .skip openRegex).2 2 3).1 failed⟩

/-- A source in which a backslash takes a line feed along. -/
def continuedRegex : Text := Text.ofString "x = /a\\\nb/"

/-- A regular expression may go on in the next line behind a backslash. -/
theorem regex_of_two_lines : ∃ read, tokenize .skip continuedRegex = .ok read ∧
    ∃ token ∈ read, token.kind = .regex ∧ ∃ c ∈ token.text, c.isLineTerminator = true := by
  have evaluated : (tokenize .skip continuedRegex).toOption.any (fun read => read.any fun token =>
      token.kind = .regex && token.text.any isLineTerminator) = true := by
    decide +kernel
  obtain ⟨read, found, regex⟩ := (Option.any_eq_true _ _).1 evaluated
  obtain ⟨token, member, holds⟩ := List.any_eq_true.1 regex
  obtain ⟨kind, line⟩ := (Bool.and_eq_true ..).mp holds
  exact ⟨read, eq_ok_of_toOption found, token, member, of_decide_eq_true kind,
    List.any_eq_true.1 line⟩

end Uncurry
