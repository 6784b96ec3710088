import Uncurry.Proofs.Lexical.Regexes
import Uncurry.Proofs.Lexical.Templates

/-!
# Strings and templates

Where a string or a chunk of a template ends is said of its characters alone. Reading from left to
right, a backslash takes the next character along, and in a string both characters of a carriage
return and line feed; a string ends at the first quote of its own that is not taken along, and a
chunk at the first backtick or `$` before a brace that is not escaped. `stringLength?_iff` and
`chunkLength?_iff` say that the readers stop there, and `quotations_delimited` what follows for the
tokens of a source, for all places where one is scanned, and for the errors that an end which is
missing leads to.
-/
namespace Uncurry

open CodePoint

namespace Text

/-- Whether a backslash takes the character at an index along: the character is escaped, or it is
the line feed behind a carriage return that is. -/
def takenAt (t : Text) : Nat → Bool
  | 0 => false
  | i + 1 => t.escapedAt (i + 1) ||
      (t[i]? = some (ofChar '\r') && t[i + 1]? = some (ofChar '\n') && t.escapedAt i)

/-- A character stands at an index, and no backslash takes it along. -/
def Untaken (t : Text) (i : Nat) (c : CodePoint) : Prop := t[i]? = some c ∧ t.takenAt i = false

/-- A line feed or a carriage return stands at an index, and no backslash takes it along. -/
def BreaksString (t : Text) (i : Nat) : Prop :=
  t.Untaken i (ofChar '\n') ∨ t.Untaken i (ofChar '\r')

/-- The body of a string, which the text starts with, ends at an index: the first quote that no
backslash takes along stands there, and the line does not end before. -/
def EndsString (quote : CodePoint) (t : Text) (i : Nat) : Prop :=
  t.Untaken i quote ∧ ∀ j < i, ¬t.Untaken j quote ∧ ¬t.BreaksString j

variable {c d quote : CodePoint} {t : Text} {i : Nat}

theorem takenAt_cons (other : c ≠ '\\') (t : Text) (i : Nat) :
    takenAt (c :: t) (i + 1) = t.takenAt i := by
  rw [takenAt, escapedAt_cons other]
  cases i with
  | zero => simp [takenAt, escapedAt]
  | succ i => simp only [takenAt, escapedAt_cons other, List.getElem?_cons_succ]

theorem untaken_nil : ¬Untaken [] i d := fun untaken => by simp [Untaken] at untaken

theorem untaken_zero : Untaken (c :: t) 0 d ↔ c = d := by simp [Untaken, takenAt]

theorem untaken_cons (other : c ≠ '\\') : Untaken (c :: t) (i + 1) d ↔ t.Untaken i d := by
  rw [Untaken, takenAt_cons other, List.getElem?_cons_succ, Untaken]

theorem not_untaken_escape : ¬Untaken (ofChar '\\' :: t) 1 d := by
  simp [Untaken, takenAt, escapedAt]

/-- A backslash takes one character along, unless this is a carriage return and line feed. -/
theorem untaken_escape (single : ¬(c = '\r' ∧ t.head? = some (ofChar '\n'))) :
    Untaken (ofChar '\\' :: c :: t) (i + 2) d ↔ t.Untaken i d := by
  have taken : takenAt (ofChar '\\' :: c :: t) (i + 2) = t.takenAt i := by
    rw [takenAt, escapedAt_escape]
    cases i with
    | zero => simpa [takenAt, escapedAt, List.head?_eq_getElem?] using single
    | succ i => simp only [takenAt, escapedAt_escape, List.getElem?_cons_succ]
  rw [Untaken, taken, List.getElem?_cons_succ, List.getElem?_cons_succ, Untaken]

theorem not_untaken_feed :
    ¬Untaken (ofChar '\\' :: ofChar '\r' :: ofChar '\n' :: t) 2 d := by
  simp [Untaken, takenAt, escapedAt]

/-- A backslash takes a carriage return and line feed along together. -/
theorem untaken_feed : Untaken (ofChar '\\' :: ofChar '\r' :: ofChar '\n' :: t) (i + 3) d ↔
    t.Untaken i d := by
  have plain : ofChar '\n' ≠ ofChar '\\' := by decide
  have taken : takenAt (ofChar '\\' :: ofChar '\r' :: ofChar '\n' :: t) (i + 3) = t.takenAt i := by
    rw [takenAt, escapedAt_escape, escapedAt_cons plain]
    cases i with
    | zero => simp [takenAt, escapedAt, (by decide : ofChar '\n' ≠ ofChar '\r')]
    | succ i =>
      simp only [takenAt, escapedAt_escape, escapedAt_cons plain, List.getElem?_cons_succ]
  simp only [Untaken, taken, List.getElem?_cons_succ]

theorem endsString_quote : EndsString quote (quote :: t) i ↔ i = 0 := by
  refine ⟨fun ends => ?_, ?_⟩
  · by_contra later
    exact (ends.2 0 (Nat.pos_of_ne_zero later)).1 (untaken_zero.2 rfl)
  · rintro rfl
    exact ⟨untaken_zero.2 rfl, nofun⟩

/-- A string does not end behind a line feed or a carriage return that is not taken along. -/
theorem not_endsString_break (other : c ≠ quote) (line : c = '\n' ∨ c = '\r') :
    ¬EndsString quote (c :: t) i := by
  intro ends
  cases i with
  | zero => exact other (untaken_zero.1 ends.1)
  | succ i => exact (ends.2 0 (Nat.succ_pos i)).2 (line.imp untaken_zero.2 untaken_zero.2)

theorem endsString_cons (other : c ≠ quote) (line : ¬(c = '\n' ∨ c = '\r')) (bare : c ≠ '\\') :
    EndsString quote (c :: t) i ↔ ∃ j, i = j + 1 ∧ EndsString quote t j := by
  cases i with
  | zero => exact iff_of_false (fun ends => other (untaken_zero.1 ends.1)) (by simp)
  | succ i =>
    simp only [EndsString, BreaksString, Nat.forall_lt_succ_left, untaken_zero, untaken_cons bare,
      other, line, not_false_eq_true, true_and, Nat.add_right_cancel_iff, exists_eq_left']

theorem endsString_escape (bare : ofChar '\\' ≠ quote)
    (single : ¬(c = '\r' ∧ t.head? = some (ofChar '\n'))) :
    EndsString quote (ofChar '\\' :: c :: t) i ↔ ∃ j, i = j + 2 ∧ EndsString quote t j := by
  have plain : ofChar '\\' ≠ ofChar '\n' ∧ ofChar '\\' ≠ ofChar '\r' := by decide
  match i with
  | 0 => exact iff_of_false (fun ends => bare (untaken_zero.1 ends.1)) (by simp)
  | 1 => exact iff_of_false (fun ends => not_untaken_escape ends.1) (by simp)
  | i + 2 =>
    simp only [EndsString, BreaksString, Nat.forall_lt_succ_left, untaken_zero, Nat.zero_add,
      not_untaken_escape, untaken_escape single, bare, plain, not_false_eq_true, or_self, true_and,
      Nat.add_right_cancel_iff, exists_eq_left']

theorem endsString_feed (bare : ofChar '\\' ≠ quote) :
    EndsString quote (ofChar '\\' :: ofChar '\r' :: ofChar '\n' :: t) i ↔
      ∃ j, i = j + 3 ∧ EndsString quote t j := by
  have plain : ofChar '\\' ≠ ofChar '\n' ∧ ofChar '\\' ≠ ofChar '\r' := by decide
  match i with
  | 0 => exact iff_of_false (fun ends => bare (untaken_zero.1 ends.1)) (by simp)
  | 1 => exact iff_of_false (fun ends => not_untaken_escape ends.1) (by simp)
  | 2 => exact iff_of_false (fun ends => not_untaken_feed ends.1) (by simp)
  | i + 3 =>
    simp only [EndsString, BreaksString, Nat.forall_lt_succ_left, untaken_zero, Nat.reduceAdd,
      not_untaken_escape, not_untaken_feed, untaken_feed, bare, plain, not_false_eq_true, or_self,
      true_and, Nat.add_right_cancel_iff, exists_eq_left']

end Text

/-- What a chunk ends with. -/
def Lexeme.ChunkEnd.written : ChunkEnd → Text
  | .backtick => ['`']
  | .substitution => ['$', '\x7b']

namespace Text

open Lexeme

/-- What can end a chunk of a template stands at an index: a backtick or a `$` before a brace, and
no backslash right before it that is not escaped itself. -/
def StopsChunk (t : Text) (i : Nat) : ChunkEnd → Prop
  | .backtick => t.Bare i (ofChar '`')
  | .substitution => t.Bare i (ofChar '$') ∧ t[i + 1]? = some (ofChar '\x7b')

/-- A chunk of a template, whose rest the text starts with, ends at the first index where something
can end it. -/
def EndsChunk (t : Text) (i : Nat) (stop : ChunkEnd) : Prop :=
  t.StopsChunk i stop ∧ ∀ j < i, ∀ other, ¬t.StopsChunk j other

variable {c : CodePoint} {t : Text} {i : Nat} {stop : ChunkEnd}

theorem StopsChunk.bare (h : t.StopsChunk i stop) : ∃ c ≠ ofChar '\\', t.Bare i c := by
  cases stop with
  | backtick => exact ⟨_, by decide, h⟩
  | substitution => exact ⟨_, by decide, h.1⟩

theorem not_stopsChunk_nil : ¬StopsChunk [] i stop := fun stops =>
  have ⟨_, _, bare⟩ := stops.bare
  bare_nil bare

/-- A chunk is ended in one way only. -/
theorem StopsChunk.unique {other : ChunkEnd} (h : t.StopsChunk i stop)
    (h' : t.StopsChunk i other) : other = stop := by
  cases stop <;> cases other
  · rfl
  · exact absurd (h.1.symm.trans h'.1.1) (by decide)
  · exact absurd (h.1.1.symm.trans h'.1) (by decide)
  · rfl

theorem stopsChunk_cons (other : c ≠ '\\') :
    StopsChunk (c :: t) (i + 1) stop ↔ t.StopsChunk i stop := by
  cases stop <;> simp only [StopsChunk, bare_cons other, List.getElem?_cons_succ]

theorem stopsChunk_escape :
    StopsChunk (ofChar '\\' :: c :: t) (i + 2) stop ↔ t.StopsChunk i stop := by
  cases stop <;> simp only [StopsChunk, bare_escape, List.getElem?_cons_succ]

theorem endsChunk_of_stops {other : ChunkEnd} (h : t.StopsChunk 0 stop) :
    t.EndsChunk i other ↔ i = 0 ∧ other = stop := by
  constructor
  · intro ends
    obtain rfl : i = 0 := by
      by_contra later
      exact ends.2 0 (Nat.pos_of_ne_zero later) stop h
    exact ⟨rfl, h.unique ends.1⟩
  · rintro ⟨rfl, rfl⟩
    exact ⟨h, nofun⟩

theorem endsChunk_cons (bare : c ≠ '\\') (plain : ∀ stop, ¬StopsChunk (c :: t) 0 stop) :
    EndsChunk (c :: t) i stop ↔ ∃ j, i = j + 1 ∧ EndsChunk t j stop := by
  cases i with
  | zero => exact iff_of_false (fun ends => plain stop ends.1) (by simp)
  | succ i =>
    simp only [EndsChunk, Nat.forall_lt_succ_left, plain, stopsChunk_cons bare, not_false_eq_true,
      implies_true, true_and, Nat.add_right_cancel_iff, exists_eq_left']

theorem endsChunk_escape : EndsChunk (ofChar '\\' :: c :: t) i stop ↔
    ∃ j, i = j + 2 ∧ EndsChunk t j stop := by
  have first (other : ChunkEnd) : ¬StopsChunk (ofChar '\\' :: c :: t) 0 other := fun stops =>
    have ⟨_, distinct, bare⟩ := stops.bare
    distinct (bare_zero.1 bare).symm
  have second (other : ChunkEnd) : ¬StopsChunk (ofChar '\\' :: c :: t) 1 other := fun stops =>
    have ⟨_, _, bare⟩ := stops.bare
    not_bare_escape bare
  match i with
  | 0 => exact iff_of_false (fun ends => first stop ends.1) (by simp)
  | 1 => exact iff_of_false (fun ends => second stop ends.1) (by simp)
  | i + 2 =>
    simp only [EndsChunk, Nat.forall_lt_succ_left, Nat.zero_add, first, second, stopsChunk_escape,
      not_false_eq_true, implies_true, true_and, Nat.add_right_cancel_iff, exists_eq_left']

end Text

namespace Lexeme

open Text

variable {quote : CodePoint} {t : Text} {i : Nat}

/-- The reader of a string stops behind the quote that ends it. -/
theorem stringLength?_iff (other : ofChar '\\' ≠ quote) :
    stringLength? quote t = some (i + 1) ↔ EndsString quote t i := by
  fun_induction stringLength? quote t generalizing i with
  | case1 => exact iff_of_false (Option.some_ne_none _).symm fun ends => untaken_nil ends.1
  | case2 rest => simp [endsString_quote]
  | case3 c rest distinct line =>
    exact iff_of_false (Option.some_ne_none _).symm
      (not_endsString_break distinct (by simpa using line))
  | case4 =>
    refine iff_of_false (Option.some_ne_none _).symm fun ends => ?_
    cases i with
    | zero => exact other (untaken_zero.1 ends.1)
    | succ i => simp [EndsString, Untaken] at ends
  | case5 d =>
    rw [endsString_escape other (by simp)]
    refine iff_of_false (Option.some_ne_none _).symm ?_
    rintro ⟨_, _, ends⟩
    exact untaken_nil ends.1
  | case6 d e rest crlf _ _ ih =>
    obtain ⟨rfl, rfl⟩ : d = '\r' ∧ e = '\n' := by simpa using crlf
    rw [endsString_feed other, map_add_eq_some fun _ => stringLength?_pos]
    simp only [ih]
  | case7 d e rest single _ _ ih =>
    rw [endsString_escape other (by simpa using single), map_add_eq_some fun _ => stringLength?_pos]
    simp only [ih]
  | case8 c rest distinct line bare ih =>
    rw [endsString_cons distinct (by simpa using line) bare,
      map_add_eq_some fun _ => stringLength?_pos]
    simp only [ih]

/-- A string has no end if the line ends before every quote that could be it. -/
theorem stringLength?_eq_none_iff (other : ofChar '\\' ≠ quote) : stringLength? quote t = none ↔
    ∀ i, t.Untaken i quote → ∃ j < i, t.BreaksString j := by
  simp only [eq_none_iff_of_pos fun _ => stringLength?_pos, stringLength?_iff other]
  exact forall_not_first_iff

/-- Where a chunk ends some steps behind the end of another, it is longer by as many. -/
theorem map_add_eq_chunk {own later : Text} {stop : ChunkEnd} {k n : Nat}
    (shift : ∀ i, EndsChunk own i stop ↔ ∃ j, i = j + k ∧ EndsChunk later j stop)
    (ih : ∀ m, chunkLength? later = some (m, stop) ↔
      ∃ i, m = i + stop.written.length ∧ EndsChunk later i stop) :
    (chunkLength? later).map (fun chunk => (chunk.1 + k, chunk.2)) = some (n, stop) ↔
      ∃ i, n = i + stop.written.length ∧ EndsChunk own i stop := by
  constructor
  · intro found
    simp only [Option.map_eq_some_iff, Prod.exists, Prod.mk.injEq] at found
    obtain ⟨m, _, same, rfl, rfl⟩ := found
    obtain ⟨i, rfl, ends⟩ := (ih m).1 same
    exact ⟨i + k, Nat.add_right_comm .., (shift _).2 ⟨i, rfl, ends⟩⟩
  · rintro ⟨_, rfl, ends⟩
    obtain ⟨j, rfl, inner⟩ := (shift _).1 ends
    rw [(ih _).2 ⟨j, rfl, inner⟩, Option.map_some, Nat.add_right_comm]

/-- Where a chunk ends at once, it is as long as its end. -/
theorem length_of_stops {stop other : ChunkEnd} {n : Nat} (h : t.StopsChunk 0 stop) :
    some (stop.written.length, stop) = some (n, other) ↔
      ∃ i, n = i + other.written.length ∧ EndsChunk t i other := by
  simp only [endsChunk_of_stops h, Option.some.injEq, Prod.mk.injEq]
  constructor
  · rintro ⟨rfl, rfl⟩
    exact ⟨0, (Nat.zero_add _).symm, rfl, rfl⟩
  · rintro ⟨_, rfl, rfl, rfl⟩
    exact ⟨(Nat.zero_add _).symm, rfl⟩

/-- The reader of a chunk stops behind what ends it. -/
theorem chunkLength?_iff {n : Nat} {stop : ChunkEnd} : chunkLength? t = some (n, stop) ↔
    ∃ i, n = i + stop.written.length ∧ EndsChunk t i stop := by
  fun_induction chunkLength? t generalizing n with
  | case1 =>
    refine iff_of_false (Option.some_ne_none _).symm ?_
    rintro ⟨_, _, ends⟩
    exact not_stopsChunk_nil ends.1
  | case2 =>
    refine iff_of_false (Option.some_ne_none _).symm ?_
    rintro ⟨i, _, ends⟩
    obtain ⟨c, other, bare⟩ := ends.1.bare
    cases i with
    | zero => exact other (bare_zero.1 bare).symm
    | succ i => simp [Bare] at bare
  | case3 d later ih => exact map_add_eq_chunk (fun _ => endsChunk_escape) fun _ => ih
  | case4 rest =>
    have stops : StopsChunk (ofChar '`' :: rest) 0 .backtick := bare_zero.2 rfl
    exact length_of_stops stops
  | case5 c rest bare tick opens =>
    simp only [Bool.and_eq_true, decide_eq_true_eq] at opens
    have stops : StopsChunk (c :: rest) 0 .substitution :=
      ⟨bare_zero.2 opens.1, by simpa [List.head?_eq_getElem?] using opens.2⟩
    exact length_of_stops stops
  | case6 c rest bare tick plain ih =>
    refine map_add_eq_chunk (fun _ => endsChunk_cons bare ?_) fun _ => ih
    rintro (_ | _) stops
    · exact tick (bare_zero.1 stops)
    · exact plain (by simpa [List.head?_eq_getElem?] using ⟨bare_zero.1 stops.1, stops.2⟩)

/-- A chunk has no end if nothing that could be it stands anywhere. -/
theorem chunkLength?_eq_none_iff : chunkLength? t = none ↔ ∀ i stop, ¬t.StopsChunk i stop := by
  constructor
  · intro none i
    induction i using Nat.strongRecOn with
    | ind i ih =>
      intro stop own
      have found := chunkLength?_iff.2 ⟨i, rfl, own, ih⟩
      rw [none] at found
      cases found
  · intro free
    cases found : chunkLength? t with
    | none => rfl
    | some chunk =>
      obtain ⟨i, _, ends⟩ := chunkLength?_iff.1 found
      exact absurd ends.1 (free i chunk.2)

/-- The kinds of the tokens that templates are cut into. -/
def chunkKinds : List TokenKind := [.template, .templateHead, .templateMiddle, .templateTail]

theorem chunkKinds_literal : ∀ kind ∈ chunkKinds, kind ∈ literalKinds := by decide

/-- The kinds of chunks by what they start and end with. -/
inductive ChunkForm : CodePoint → ChunkEnd → TokenKind → Prop
  | template : ChunkForm '`' .backtick .template
  | head : ChunkForm '`' .substitution .templateHead
  | middle : ChunkForm '\x7d' .substitution .templateMiddle
  | tail : ChunkForm '\x7d' .backtick .templateTail

variable {context : LexContext} {first : Bool} {c : CodePoint} {rest : Text} {kind : TokenKind}
  {n : Nat}

theorem chunkForm_template (stop : ChunkEnd) : ChunkForm '`' stop (chunkKind true stop) := by
  cases stop <;> constructor

theorem chunkForm_chunk (stop : ChunkEnd) : ChunkForm '\x7d' stop (chunkKind false stop) := by
  cases stop <;> constructor

theorem scan_eq_string (h : scan context first c rest = .ok (.token .string, n)) :
    (c = '"' ∨ c = '\'') ∧ stringLength? c rest = some n := by
  generalize same : Lexeme.token .string = lexeme at h
  cases scanned_of_scan h with
  | string quote found => exact ⟨quote, found⟩
  | number _ found => rcases number_kind found with rfl | rfl <;> cases same
  | template => cases ‹ChunkEnd› <;> cases same
  | chunk => cases ‹ChunkEnd› <;> cases same
  | punctuator _ _ found =>
    cases same
    exact absurd (by decide) (punctuator?_literal found)
  | _ => cases same

/-- A chunk is scanned at a backtick, or at a brace that closes a substitution. -/
theorem scan_eq_chunk (h : scan context first c rest = .ok (.token kind, n))
    (chunk : kind ∈ chunkKinds) : (c = '`' ∨ c = '\x7d' ∧ context.closesSubstitution = true) ∧
      ∃ stop, ChunkForm c stop kind ∧ chunkLength? rest = some (n, stop) := by
  generalize same : Lexeme.token kind = lexeme at h
  cases scanned_of_scan h with
  | template tick found =>
    cases same
    subst tick
    exact ⟨.inl rfl, _, chunkForm_template _, found⟩
  | chunk brace closes found =>
    cases same
    subst brace
    exact ⟨.inr ⟨rfl, closes⟩, _, chunkForm_chunk _, found⟩
  | number _ found =>
    cases same
    rcases number_kind found with rfl | rfl <;> exact absurd chunk (by decide)
  | punctuator _ _ found =>
    cases same
    exact absurd (chunkKinds_literal kind chunk) (punctuator?_literal found)
  | string | regex | privateName => cases same; exact absurd chunk (by decide)
  | _ => cases same

/-- What has the form of a chunk is scanned as one of its kind. -/
theorem scan_chunk_ok {stop : ChunkEnd}
    (starts : c = '`' ∨ c = '\x7d' ∧ context.closesSubstitution = true)
    (found : chunkLength? rest = some (n, stop)) :
    ∃ kind, ChunkForm c stop kind ∧ scan context first c rest = .ok (.token kind, n) := by
  rcases starts with rfl | ⟨rfl, closes⟩
  · exact ⟨_, chunkForm_template stop, scan_template.trans (chunk_ok.2 ⟨stop, found, rfl⟩)⟩
  · exact ⟨_, chunkForm_chunk stop, (scan_chunk closes).trans (chunk_ok.2 ⟨stop, found, rfl⟩)⟩

/-- A string without an end is the only fault of its sort, and is one at its quote. -/
theorem scan_unterminatedString : scan context first c rest =
    .error (.malformed .unterminatedString n) ↔
      n = 0 ∧ (c = '"' ∨ c = '\'') ∧ stringLength? c rest = none := by
  constructor
  · intro h
    cases faulty_of_scan h with
    | string quote lacking => exact ⟨rfl, quote, lacking⟩
    | number fault => exact absurd fault (by decide)
  · rintro ⟨rfl, quote, lacking⟩
    rw [scan_quote quote, lacking]
    rfl

/-- A chunk without an end is the only fault of its sort, and is one at its first character. -/
theorem scan_unterminatedTemplate : scan context first c rest =
    .error (.malformed .unterminatedTemplate n) ↔
      n = 0 ∧ (c = '`' ∨ c = '\x7d' ∧ context.closesSubstitution = true) ∧
        chunkLength? rest = none := by
  constructor
  · intro h
    cases faulty_of_scan h with
    | template tick lacking => exact ⟨rfl, .inl tick, lacking⟩
    | chunk brace closes lacking => exact ⟨rfl, .inr ⟨brace, closes⟩, lacking⟩
    | number fault => exact absurd fault (by decide)
  · rintro ⟨rfl, rfl | ⟨rfl, closes⟩, lacking⟩
    · rw [scan_template, chunk, lacking]
    · rw [scan_chunk closes, chunk, lacking]

end Lexeme

namespace Text

/-- A source is read up to an offset as tokens of some kinds, and a text is left of it. -/
def ReadTo (source : Text) (offset : Nat) (read : List TokenKind) (rest : Text) : Prop :=
  ∃ items context, source = Item.textOf items ++ rest ∧ offset = (Item.textOf items).length ∧
    Reads .initial true items rest context ∧ read = items.filterMap (Item.kind? .skip)

/-- A string is scanned at an offset of a source: the source is read up to a quote there. -/
def StartsString (source : Text) (offset : Nat) (read : List TokenKind) (quote : CodePoint)
    (rest : Text) : Prop :=
  (quote = '"' ∨ quote = '\'') ∧ source.ReadTo offset read (quote :: rest)

/-- A chunk of a template is scanned at an offset of a source: the source is read up to a backtick
there, or up to a closing brace where a substitution is the innermost that is open. -/
def StartsChunk (source : Text) (offset : Nat) (read : List TokenKind) (start : CodePoint)
    (rest : Text) : Prop :=
  source.ReadTo offset read (start :: rest) ∧ (start = '`' ∨
    start = '\x7d' ∧ ∃ outer, Opening.behindAll [] read = some (.substitution :: outer))

/-- A source is read as a whole and leaves a substitution open. -/
def EndsOpen (source : Text) : Prop :=
  ∃ read unclosed, source.ReadTo source.length read [] ∧
    Opening.behindAll [] read = some unclosed ∧ .substitution ∈ unclosed

end Text

/-- A token is a string that is scanned where it starts, up to the quote that ends it. -/
def Token.IsString (source : Text) (token : Token) : Prop :=
  ∃ read quote body later,
    source.StartsString token.start.offset read quote (body ++ quote :: later) ∧
      (body ++ quote :: later).EndsString quote body.length ∧
      token.text = quote :: (body ++ [quote]) ∧
      token.stop.offset = token.start.offset + token.text.length

/-- A token is a chunk that is scanned where it starts, up to what ends it, and of the kind that
its start and its end make it. -/
def Token.IsChunk (source : Text) (token : Token) : Prop :=
  ∃ read start stop body later,
    source.StartsChunk token.start.offset read start (body ++ (stop.written ++ later)) ∧
      (body ++ (stop.written ++ later)).EndsChunk body.length stop ∧
      Lexeme.ChunkForm start stop token.kind ∧
      token.text = start :: (body ++ stop.written) ∧
      token.stop.offset = token.start.offset + token.text.length

variable {comments : CommentPolicy} {context context' : LexContext} {here : Location}
  {items : List Item} {source rest : Text} {token : Token} {tokens : List Token}

/-- A closing brace ends a substitution where that is the innermost that the tokens leave open. -/
theorem Reads.substitution_iff (reads : Reads .initial true items rest context) :
    context.closesSubstitution = true ↔ ∃ outer,
      Opening.behindAll [] (items.filterMap (Item.kind? .skip)) = some (.substitution :: outer) := by
  have openings : Opening.behindAll [] (items.filterMap (Item.kind? .skip)) =
      some context.openings := reads.behindAll_openings
  simp only [LexContext.closesSubstitution_iff, openings, Option.some.injEq, List.head?_eq_some_iff]

/-- Behind a token the source is read up to its end. -/
theorem Reads.readTo {c : CodePoint} {kind : TokenKind} {n : Nat}
    (reads : Reads .initial true items (c :: rest) context)
    (scanned : Lexeme.scan context items.isEmpty c rest = .ok (.token kind, n)) :
    (Item.textOf items ++ c :: rest).ReadTo ((Item.textOf items).length + (n + 1))
      (items.filterMap (Item.kind? .skip) ++ [kind]) (rest.drop n) := by
  have within := Lexeme.scan_le scanned
  have length : (rest.take n).length = n := List.length_take_of_le within
  refine ⟨items ++ [⟨.token kind, c :: rest.take n⟩], context.after kind (c :: rest.take n), ?_, ?_,
    ?_, ?_⟩
  · simp
  · simp [length]
  · refine Reads.append ?_ (.cons ?_ (.nil ..))
    · simpa using reads
    · simpa [length] using scanned
  · simp [Item.kind?, Item.face?]

/-- A token is that of an item, and stands where the items before it end. -/
theorem Item.exists_place (member : token ∈ code comments context here items) :
    ∃ front item back own, items = front ++ item :: back ∧
      item.token? comments own token.span = some token ∧
      token.start.offset = here.offset + (textOf front).length ∧
      token.stop.offset = token.start.offset + item.written.length := by
  induction items generalizing context here with
  | nil => cases member
  | cons item items ih =>
    rcases List.mem_append.1 member with found | later
    · have found := Option.mem_toList.1 found
      have span := token?_span found
      refine ⟨[], item, items, context, rfl, by rwa [span], ?_, ?_⟩
      · rw [Token.start, span]
        rfl
      · rw [Token.stop, Token.start, span, Location.advance_offset]
    · obtain ⟨front, own, back, context', rfl, found, start, stop⟩ := ih later
      refine ⟨item :: front, own, back, context', rfl, found, ?_, stop⟩
      rw [start, Location.advance_offset, textOf_cons, List.length_append, Nat.add_assoc]

/-- A literal of a source is scanned where its token starts. -/
theorem Token.exists_literal (accepted : tokenize comments source = .ok tokens)
    (member : token ∈ tokens) (literal : token.kind ∈ Lexeme.literalKinds) :
    ∃ read own first c written later,
      source.ReadTo token.start.offset read (c :: (written ++ later)) ∧
        (own.closesSubstitution = true ↔
          ∃ outer, Opening.behindAll [] read = some (.substitution :: outer)) ∧
        Lexeme.scan own first c (written ++ later) = .ok (.token token.kind, written.length) ∧
        token.text = c :: written ∧ token.stop.offset = token.start.offset + token.text.length := by
  obtain ⟨items, context, rfl, reads, _, rfl⟩ := Token.exists_reads accepted
  obtain ⟨stop, newline, _, same⟩ := Item.tokens_eq comments .initial .origin items
  have inside : token ∈ Item.code comments .initial .origin items := by
    rw [same] at member
    refine (List.mem_append.1 member).resolve_right fun last => ?_
    rw [List.mem_singleton.1 last] at literal
    exact absurd literal (by decide : TokenKind.endOfInput ∉ Lexeme.literalKinds)
  obtain ⟨front, item, back, own, rfl, found, start, stop⟩ := Item.exists_place inside
  have lexeme := (reads.isRead item (by simp)).literal found literal
  have text : token.text = item.written := by
    obtain ⟨_, written⟩ := item
    subst lexeme
    exact (congrArg Token.text (Option.some.inj found)).symm
  obtain ⟨before, behind⟩ := Reads.split reads
  obtain ⟨c, written, spelled, scanned, _⟩ := behind.of_cons
  rw [List.append_nil] at scanned before
  have split : Item.textOf (item :: back) = c :: (written ++ Item.textOf back) := by
    rw [Item.textOf_cons, spelled, List.cons_append]
  rw [split] at before
  refine ⟨_, _, _, c, written, Item.textOf back, ⟨front, _, ?_, ?_, before, rfl⟩,
    before.substitution_iff, lexeme ▸ scanned, text.trans spelled, by rw [text, stop]⟩
  · rw [Item.textOf_append, split]
  · rw [start]
    exact Nat.zero_add _

/-- What is taken off the front of a text and ends with a mark is the mark behind the rest. -/
theorem List.eq_take_append {α : Type} {written later mark : List α} {i : Nat}
    (ends : mark <+: (written ++ later).drop i) (length : written.length = i + mark.length) :
    written = written.take i ++ mark := by
  rw [List.drop_append_of_le_length (by omega)] at ends
  have whole : mark = written.drop i := by
    refine List.IsPrefix.eq_of_length
      (List.prefix_of_prefix_length_le ends (List.prefix_append ..) ?_) ?_
    all_goals rw [List.length_drop]; omega
  rw [whole, List.take_append_drop]

theorem Text.Untaken.stands {t : Text} {i : Nat} {c : CodePoint} (h : t.Untaken i c) :
    [c] <+: t.drop i := by
  rw [List.drop_eq_getElem?_toList_append, h.1]
  exact List.prefix_append ..

theorem Text.StopsChunk.stands {t : Text} {i : Nat} {stop : Lexeme.ChunkEnd}
    (h : t.StopsChunk i stop) : stop.written <+: t.drop i := by
  cases stop with
  | backtick =>
    rw [List.drop_eq_getElem?_toList_append, h.1]
    exact List.prefix_append ..
  | substitution =>
    rw [List.drop_eq_getElem?_toList_append, h.1.1, List.drop_eq_getElem?_toList_append, h.2]
    exact List.prefix_append ..

/-- No quote is a backslash. -/
theorem CodePoint.backslash_ne_quote {quote : CodePoint} (h : quote = '"' ∨ quote = '\'') :
    ofChar '\\' ≠ quote := by
  rcases h with rfl | rfl <;> decide

/-- The tokens of strings are strings. -/
theorem isString_of_tokenize (accepted : tokenize comments source = .ok tokens)
    (member : token ∈ tokens) (kind : token.kind = .string) : token.IsString source := by
  have literal : token.kind ∈ Lexeme.literalKinds := by rw [kind]; decide
  obtain ⟨read, own, first, quote, written, later, place, _, scanned, text, stop⟩ :=
    Token.exists_literal accepted member literal
  rw [kind] at scanned
  obtain ⟨quoted, found⟩ := Lexeme.scan_eq_string scanned
  obtain ⟨i, length⟩ :=
    Nat.exists_eq_succ_of_ne_zero (Nat.ne_of_gt (Lexeme.stringLength?_pos found))
  rw [length, Nat.succ_eq_add_one] at found
  have ends := (Lexeme.stringLength?_iff (backslash_ne_quote quoted)).1 found
  have split := List.eq_take_append ends.1.stands length
  have body : (written.take i).length = i := List.length_take_of_le (by omega)
  generalize written.take i = inside at split body
  subst body split
  rw [List.append_assoc] at place ends
  exact ⟨read, quote, inside, later, ⟨quoted, place⟩, ends, text, stop⟩

/-- The tokens of templates are chunks. -/
theorem isChunk_of_tokenize (accepted : tokenize comments source = .ok tokens)
    (member : token ∈ tokens) (kind : token.kind ∈ Lexeme.chunkKinds) : token.IsChunk source := by
  obtain ⟨read, own, _, c, written, later, place, closes, scanned, text, stop⟩ :=
    Token.exists_literal accepted member (Lexeme.chunkKinds_literal _ kind)
  obtain ⟨starts, mark, form, found⟩ := Lexeme.scan_eq_chunk scanned kind
  obtain ⟨i, length, ends⟩ := Lexeme.chunkLength?_iff.1 found
  have split := List.eq_take_append ends.1.stands length
  have body : (written.take i).length = i := List.length_take_of_le (by omega)
  generalize written.take i = inside at split body
  subst body split
  rw [List.append_assoc] at place ends
  rw [closes] at starts
  exact ⟨read, c, mark, inside, later, ⟨place, starts⟩, ends, form, text, stop⟩

variable {offset i line column : Nat} {read : List TokenKind} {quote start : CodePoint}
  {stop : Lexeme.ChunkEnd}

/-- A string that has an end is read up to it. -/
theorem Text.StartsString.readTo (h : source.StartsString offset read quote rest)
    (ends : rest.EndsString quote i) :
    source.ReadTo (offset + (i + 2)) (read ++ [.string]) (rest.drop (i + 1)) := by
  obtain ⟨quoted, items, context, rfl, rfl, reads, rfl⟩ := h
  refine reads.readTo ?_
  rw [Lexeme.scan_quote quoted]
  exact Lexeme.orFault_ok.2 ⟨rfl, (Lexeme.stringLength?_iff (backslash_ne_quote quoted)).2 ends⟩

/-- A chunk that has an end is read up to it, as a token of the kind that its start and its end make
it. -/
theorem Text.StartsChunk.readTo (h : source.StartsChunk offset read start rest)
    (ends : rest.EndsChunk i stop) : ∃ kind, Lexeme.ChunkForm start stop kind ∧
      source.ReadTo (offset + (i + stop.written.length + 1)) (read ++ [kind])
        (rest.drop (i + stop.written.length)) := by
  obtain ⟨⟨items, context, rfl, rfl, reads, rfl⟩, starts⟩ := h
  rw [← reads.substitution_iff] at starts
  obtain ⟨kind, form, scanned⟩ :=
    Lexeme.scan_chunk_ok starts (Lexeme.chunkLength?_iff.2 ⟨i, rfl, ends⟩)
  exact ⟨kind, form, reads.readTo scanned⟩

/-- The error of a string without an end is where one is scanned whose line ends before every quote
that could end it. -/
theorem unterminatedString_iff :
    tokenize comments source = .error (.malformed ⟨.unterminatedString, line, column⟩) ↔
      ∃ offset read quote rest, source.StartsString offset read quote rest ∧
        (∀ i, rest.Untaken i quote → ∃ j < i, rest.BreaksString j) ∧
        line = source.lineAt offset ∧ column = source.columnAt offset := by
  rw [tokenize_error_iff]
  constructor
  · rintro ⟨items, tail, context, n, rfl, reads, stops, place⟩
    cases stops with
    | fault scanned =>
      obtain ⟨rfl, quoted, lacking⟩ := Lexeme.scan_unterminatedString.1 scanned
      exact ⟨_, _, _, _, ⟨quoted, items, context, rfl, rfl, reads, rfl⟩,
        (Lexeme.stringLength?_eq_none_iff (backslash_ne_quote quoted)).1 lacking, place⟩
  · rintro ⟨_, _, quote, rest, ⟨quoted, items, context, rfl, rfl, reads, rfl⟩, lacking, place⟩
    refine ⟨items, _, context, 0, rfl, reads, .fault ?_, place⟩
    exact Lexeme.scan_unterminatedString.2
      ⟨rfl, quoted, (Lexeme.stringLength?_eq_none_iff (backslash_ne_quote quoted)).2 lacking⟩

/-- The error of a template without an end is where a chunk is scanned that nothing ends, or at the
end of a source that leaves a substitution open. -/
theorem unterminatedTemplate_iff :
    tokenize comments source = .error (.malformed ⟨.unterminatedTemplate, line, column⟩) ↔
      ∃ offset, ((∃ read start rest, source.StartsChunk offset read start rest ∧
          ∀ i stop, ¬rest.StopsChunk i stop) ∨ offset = source.length ∧ source.EndsOpen) ∧
        line = source.lineAt offset ∧ column = source.columnAt offset := by
  rw [tokenize_error_iff]
  constructor
  · rintro ⟨items, tail, context, n, rfl, reads, stops, place⟩
    cases stops with
    | fault scanned =>
      obtain ⟨rfl, starts, lacking⟩ := Lexeme.scan_unterminatedTemplate.1 scanned
      rw [reads.substitution_iff] at starts
      exact ⟨_, .inl ⟨_, _, _, ⟨⟨items, context, rfl, rfl, reads, rfl⟩, starts⟩,
        Lexeme.chunkLength?_eq_none_iff.1 lacking⟩, place⟩
    | openTemplate opens =>
      have length : (Item.textOf items ++ []).length = (Item.textOf items).length := by simp
      refine ⟨_, .inr ⟨length.symm, _, _, ⟨items, context, rfl, length, reads, rfl⟩,
        reads.behindAll_openings, LexContext.insideTemplate_iff.1 opens⟩, place⟩
  · rintro ⟨_, ⟨_, start, rest, ⟨⟨items, context, rfl, rfl, reads, rfl⟩, starts⟩, lacking⟩ |
      ⟨rfl, _, unclosed, ⟨items, context, rfl, length, reads, rfl⟩, opened, member⟩, place⟩
    · rw [← reads.substitution_iff] at starts
      refine ⟨items, _, context, 0, rfl, reads, .fault ?_, place⟩
      exact Lexeme.scan_unterminatedTemplate.2
        ⟨rfl, starts, Lexeme.chunkLength?_eq_none_iff.2 lacking⟩
    · obtain rfl : context.openings = unclosed :=
        Option.some.inj (reads.behindAll_openings.symm.trans opened)
      rw [length] at place
      exact ⟨items, [], context, 0, rfl, reads,
        .openTemplate (LexContext.insideTemplate_iff.2 member), place⟩

/-- A string ends at the first quote of its own that no backslash takes along, and its line does not
end before. A source fails for want of that quote exactly where a string is scanned and its line
ends before every quote that could end it; the error is at the opening quote. A chunk of a template
ends at the first backtick or `$` before a brace that is not escaped, and what it starts and ends
with says of what kind its token is. A source fails for want of such an end exactly where a chunk is
scanned that has none, or at the end of the source if a substitution is open there. -/
theorem quotations_delimited (comments : CommentPolicy) (source : Text) :
    (∀ tokens, tokenize comments source = .ok tokens → ∀ token ∈ tokens,
      (token.kind = .string → token.IsString source) ∧
        (token.kind ∈ Lexeme.chunkKinds → token.IsChunk source)) ∧
    (∀ offset read quote rest, source.StartsString offset read quote rest →
      ∀ i, rest.EndsString quote i →
        source.ReadTo (offset + (i + 2)) (read ++ [.string]) (rest.drop (i + 1))) ∧
    (∀ line column,
      tokenize comments source = .error (.malformed ⟨.unterminatedString, line, column⟩) ↔
        ∃ offset read quote rest, source.StartsString offset read quote rest ∧
          (∀ i, rest.Untaken i quote → ∃ j < i, rest.BreaksString j) ∧
          line = source.lineAt offset ∧ column = source.columnAt offset) ∧
    (∀ offset read start rest, source.StartsChunk offset read start rest →
      ∀ i stop, rest.EndsChunk i stop → ∃ kind, Lexeme.ChunkForm start stop kind ∧
        source.ReadTo (offset + (i + stop.written.length + 1)) (read ++ [kind])
          (rest.drop (i + stop.written.length))) ∧
    ∀ line column,
      tokenize comments source = .error (.malformed ⟨.unterminatedTemplate, line, column⟩) ↔
        ∃ offset, ((∃ read start rest, source.StartsChunk offset read start rest ∧
            ∀ i stop, ¬rest.StopsChunk i stop) ∨ offset = source.length ∧ source.EndsOpen) ∧
          line = source.lineAt offset ∧ column = source.columnAt offset :=
  ⟨fun _ accepted _ member => ⟨isString_of_tokenize accepted member,
      isChunk_of_tokenize accepted member⟩,
    fun _ _ _ _ starts _ ends => starts.readTo ends,
    fun _ _ => unterminatedString_iff,
    fun _ _ _ _ starts _ _ ends => starts.readTo ends,
    fun _ _ => unterminatedTemplate_iff⟩

/-- A source with a quote, a line end of two characters and a backtick that are escaped, and with a
brace in a string that is in a substitution. -/
def escapedQuotes : Text :=
  Text.ofString "'a\\'b\\\r\n' + `c\\`$\x7b\x7bd: \"\x7d\"\x7d\x7de`"

/-- A source with a line feed in a string, behind a backslash that is escaped. -/
def splitString : Text := Text.ofString "a =\n  'b\\\\\n'"

/-- A source that ends in a substitution. -/
def openSubstitution : Text := Text.ofString "`a`\n`b$\x7bc"

theorem quotations_delimited_escaped :
    (∃ tokens, tokenize .skip escapedQuotes = .ok tokens ∧
      tokens.map Token.kind = [.string, .plus, .templateHead, .leftBrace, .identifier, .colon,
        .string, .rightBrace, .templateTail, .endOfInput] ∧
      ∀ token ∈ tokens, (token.kind = .string → token.IsString escapedQuotes) ∧
        (token.kind ∈ Lexeme.chunkKinds → token.IsChunk escapedQuotes)) ∧
    (tokenize .skip splitString = .error (.malformed ⟨.unterminatedString, 2, 3⟩) ∧
      ∃ offset read quote rest, splitString.StartsString offset read quote rest ∧
        (∀ i, rest.Untaken i quote → ∃ j < i, rest.BreaksString j) ∧
        2 = splitString.lineAt offset ∧ 3 = splitString.columnAt offset) ∧
    tokenize .skip openSubstitution = .error (.malformed ⟨.unterminatedTemplate, 2, 6⟩) ∧
      ∃ offset, ((∃ read start rest, openSubstitution.StartsChunk offset read start rest ∧
          ∀ i stop, ¬rest.StopsChunk i stop) ∨
            offset = openSubstitution.length ∧ openSubstitution.EndsOpen) ∧
        2 = openSubstitution.lineAt offset ∧ 6 = openSubstitution.columnAt offset := by
  have evaluated : (tokenize .skip escapedQuotes).toOption.any (fun tokens =>
      tokens.map Token.kind = [.string, .plus, .templateHead, .leftBrace, .identifier, .colon,
        .string, .rightBrace, .templateTail, .endOfInput]) = true := by
    decide +kernel
  obtain ⟨tokens, found, kinds⟩ := (Option.any_eq_true _ _).1 evaluated
  have accepted := eq_ok_of_toOption found
  have broken : tokenize .skip splitString =
      .error (.malformed ⟨.unterminatedString, 2, 3⟩) := by
    decide +kernel
  have unclosed : tokenize .skip openSubstitution =
      .error (.malformed ⟨.unterminatedTemplate, 2, 6⟩) := by
    decide +kernel
  exact ⟨⟨tokens, accepted, of_decide_eq_true kinds,
      (quotations_delimited .skip escapedQuotes).1 tokens accepted⟩,
    ⟨broken, ((quotations_delimited .skip splitString).2.2.1 2 3).1 broken⟩,
    unclosed, ((quotations_delimited .skip openSubstitution).2.2.2.2 2 6).1 unclosed⟩

end Uncurry
