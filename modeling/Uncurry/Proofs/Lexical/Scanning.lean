import Mathlib.Data.List.Find
import Uncurry.Proofs.Lexical.Bounds

/-!
# The lexeme at the front of a text that changes further on

Where a text is cut between two words, or behind a line feed, what follows the cut may change
without any lexeme before the cut being read differently. The same goes for a text that is continued
on the next line, if the lexeme does not reach to its end.
-/
namespace Uncurry

/-- Two texts that differ behind some point only, where both go on with a word or behind which no
lexeme looks since a line feed stands before it. -/
def Text.Seamed (t t' : Text) : Prop :=
  ∃ shared v v', t = shared ++ v ∧ t' = shared ++ v' ∧
    (v = v' ∨ v.startsWord = true ∧ v'.startsWord = true ∨ CodePoint.ofChar '\n' ∈ shared)

namespace Text.Seamed

variable {t t' : Text}

theorem refl (t : Text) : Seamed t t := ⟨t, [], [], by simp, by simp, .inl rfl⟩

theorem append (h : Seamed t t') (front : Text) : Seamed (front ++ t) (front ++ t') := by
  obtain ⟨shared, v, v', rfl, rfl, cut⟩ := h
  refine ⟨front ++ shared, v, v', by simp, by simp, ?_⟩
  exact cut.imp_right (.imp_right fun feed => List.mem_append_right front feed)

theorem cons (h : Seamed t t') (c : CodePoint) : Seamed (c :: t) (c :: t') := h.append [c]

/-- The first characters are the same, or both texts start with a word. -/
theorem heads (h : Seamed t t') :
    t.head? = t'.head? ∨ t.startsWord = true ∧ t'.startsWord = true := by
  obtain ⟨shared, v, v', rfl, rfl, cut⟩ := h
  cases shared with
  | cons c shared => exact .inl rfl
  | nil =>
    obtain rfl | word | feed := cut
    · exact .inl rfl
    · exact .inr word
    · cases feed

/-- The same test holds of the first characters, if it tells no two characters apart that start
words. -/
theorem any_head (h : Seamed t t') (test : CodePoint → Bool) (answer : Bool)
    (words : ∀ c : CodePoint, c.isIdentifierStart = true → test c = answer) :
    t.head?.any test = t'.head?.any test := by
  obtain same | ⟨word, word'⟩ := h.heads
  · rw [same]
  · cases t with
    | nil => cases word
    | cons c t =>
      cases t' with
      | nil => cases word'
      | cons c' t' => simp [words c (by simpa [startsWord] using word),
          words c' (by simpa [startsWord] using word')]

theorem symm (h : Seamed t t') : Seamed t' t := by
  obtain ⟨shared, v, v', rfl, rfl, cut⟩ := h
  exact ⟨shared, v', v, rfl, rfl, cut.imp Eq.symm (.imp_left And.symm)⟩

/-- A pattern of characters that neither start words nor feed lines lies before the cut. -/
theorem strip (h : Seamed t t') {pattern : Text}
    (plain : ∀ c ∈ pattern, c.isIdentifierStart = false ∧ c ≠ CodePoint.ofChar '\n')
    (found : pattern.isPrefixOf t = true) :
    pattern.isPrefixOf t' = true ∧ Seamed (t.drop pattern.length) (t'.drop pattern.length) := by
  induction pattern generalizing t t' with
  | nil => exact ⟨rfl, h⟩
  | cons d pattern ih =>
    obtain ⟨bare, later⟩ := List.forall_mem_cons.1 plain
    obtain ⟨shared, v, v', rfl, rfl, cut⟩ := h
    cases shared with
    | nil =>
      obtain rfl | ⟨word, _⟩ | feed := cut
      · exact ⟨found, .refl _⟩
      · cases v with
        | nil => cases word
        | cons c v =>
          simp only [List.nil_append, List.isPrefixOf_cons_cons, Bool.and_eq_true, beq_iff_eq] at found
          obtain rfl := found.1
          simp [startsWord, bare.1] at word
      · cases feed
    | cons c shared =>
      simp only [List.cons_append, List.isPrefixOf_cons_cons, Bool.and_eq_true, beq_iff_eq] at found ⊢
      obtain ⟨rfl, found⟩ := found
      have cut' := cut.imp_right fun other => other.imp_right fun feed =>
        (List.mem_cons.1 feed).resolve_left fun same => bare.2 same.symm
      obtain ⟨found', seamed⟩ := ih ⟨shared, v, v', rfl, rfl, cut'⟩ later found
      exact ⟨⟨rfl, found'⟩, seamed⟩

theorem isPrefixOf_eq (h : Seamed t t') {pattern : Text}
    (plain : ∀ c ∈ pattern, c.isIdentifierStart = false ∧ c ≠ CodePoint.ofChar '\n') :
    pattern.isPrefixOf t = pattern.isPrefixOf t' :=
  Bool.eq_iff_iff.2 ⟨fun found => (h.strip plain found).1, fun found => (h.symm.strip plain found).1⟩

end Text.Seamed

/-- Whether a character may occur in a punctuator: it starts no word and feeds no line. -/
abbrev CodePoint.IsMark (c : CodePoint) : Prop :=
  c.isIdentifierStart = false ∧ c ≠ CodePoint.ofChar '\n'

/-- Two texts that no lexeme in front of them tells apart: they start with the same character or
both with a word, and no punctuator and no digit behind one makes a difference. -/
structure Text.Akin (t t' : Text) : Prop where
  heads : t.head? = t'.head? ∨ t.startsWord = true ∧ t'.startsWord = true
  isPrefixOf_eq : ∀ pattern : Text, (∀ c ∈ pattern, c.IsMark) →
    pattern.isPrefixOf t = pattern.isPrefixOf t'
  digit_eq : ∀ pattern : Text, (∀ c ∈ pattern, c.IsMark) → pattern.isPrefixOf t = true →
    (t.drop pattern.length).head?.any CodePoint.isDigit =
      (t'.drop pattern.length).head?.any CodePoint.isDigit

namespace Text.Akin

variable {t t' : Text}

theorem cons (h : Akin t t') (c : CodePoint) : Akin (c :: t) (c :: t') where
  heads := .inl rfl
  isPrefixOf_eq
    | [], _ => rfl
    | d :: pattern, plain => by
      rw [List.isPrefixOf_cons_cons, List.isPrefixOf_cons_cons,
        h.isPrefixOf_eq pattern (List.forall_mem_cons.1 plain).2]
  digit_eq
    | [], _, _ => rfl
    | d :: pattern, plain, found => by
      rw [List.isPrefixOf_cons_cons, Bool.and_eq_true] at found
      exact h.digit_eq pattern (List.forall_mem_cons.1 plain).2 found.2

theorem append (h : Akin t t') (front : Text) : Akin (front ++ t) (front ++ t') := by
  induction front with
  | nil => exact h
  | cons c front ih => exact ih.cons c

theorem alike (h : Akin t t') (front : Text) : Alike front.length (front ++ t) (front ++ t') := by
  induction front with
  | nil => exact h.heads
  | cons c front ih => exact ⟨rfl, ih⟩

/-- The same test holds of the first characters, if it tells no two characters apart that start
words. -/
theorem any_head (h : Akin t t') (test : CodePoint → Bool) (answer : Bool)
    (words : ∀ c : CodePoint, c.isIdentifierStart = true → test c = answer) :
    t.head?.any test = t'.head?.any test := by
  obtain same | ⟨word, word'⟩ := h.heads
  · rw [same]
  · cases t with
    | nil => cases word
    | cons c t =>
      cases t' with
      | nil => cases word'
      | cons c' t' => simp [words c (by simpa [startsWord] using word),
          words c' (by simpa [startsWord] using word')]

theorem head_eq_iff (h : Akin t t') {d : CodePoint} (plain : d.isIdentifierStart = false) :
    t.head? = some d ↔ t'.head? = some d := by
  have := h.any_head (· = d) false fun c start => by
    simp only [decide_eq_false_iff_not]
    rintro rfl
    simp [plain] at start
  cases t <;> cases t' <;> simp_all

end Text.Akin

namespace Lexeme

variable {context : LexContext} {first : Bool} {c : CodePoint} {rest : Text} {lexeme : Lexeme}
  {n : Nat}

theorem punctuators_plain : ∀ entry ∈ TokenKind.punctuators, ∀ c ∈ Text.ofString entry.1,
    c.isIdentifierStart = false ∧ c ≠ CodePoint.ofChar '\n' := by
  decide

theorem punctuators_nonempty : ∀ entry ∈ TokenKind.punctuators,
    0 < (Text.ofString entry.1).length := by
  decide

theorem optionalChain_entry : ∀ entry ∈ TokenKind.punctuators, entry.2 = .optionalChain →
    entry = ("?.", .optionalChain) := by
  decide

theorem punctuator?_le {t : Text} {kind : TokenKind} (h : punctuator? t = some (kind, n)) :
    0 < n ∧ n ≤ t.length := by
  obtain ⟨entry, found, ⟨⟩⟩ := Option.map_eq_some_iff.1 h
  have fits := List.find?_some found
  simp only [Bool.and_eq_true, List.isPrefixOf_iff_prefix] at fits
  exact ⟨punctuators_nonempty entry (List.mem_of_find?_eq_some found), fits.1.length_le⟩

theorem isDigit_of_isIdentifierStart {c : CodePoint} (h : c.isIdentifierStart = true) :
    c.isDigit = false := by
  by_cases ascii : c.val < 128
  · have letters : c.isAsciiLetter = true ∨ c = '$' ∨ c = '_' := by
      simpa [CodePoint.isIdentifierStart, CodePoint.isAscii, ascii, or_assoc] using h
    obtain letter | rfl | rfl := letters
    · simp only [CodePoint.isAsciiLetter, CodePoint.isDigit, Bool.or_eq_true, Bool.and_eq_true,
        decide_eq_true_eq, Bool.and_eq_false_iff, decide_eq_false_iff_not] at letter ⊢
      omega
    · rfl
    · rfl
  · simp only [CodePoint.isDigit, Bool.and_eq_false_iff, decide_eq_false_iff_not]
    omega

theorem punctuator?_akin {t t' : Text} (h : t.Akin t') : punctuator? t' = punctuator? t := by
  rw [punctuator?, punctuator?]
  congr 1
  refine List.find?_congr fun entry member => ?_
  have plain := punctuators_plain entry member
  cases found : (Text.ofString entry.1).isPrefixOf t with
  | false => rw [← h.isPrefixOf_eq _ plain, found, Bool.false_and, Bool.false_and]
  | true =>
    rw [← h.isPrefixOf_eq _ plain, found]
    by_cases chain : entry.2 = .optionalChain
    · obtain rfl := optionalChain_entry entry member chain
      have digits := h.digit_eq _ plain found
      simp only [decide_true, Bool.true_and]
      exact congrArg _ digits.symm
    · simp [chain]

end Lexeme

namespace Text

variable {t t' : Text}

theorem startsWord_digit (word : t.startsWord = true) :
    t.head?.any CodePoint.isDigit = false := by
  cases t with
  | nil => cases word
  | cons c t => exact Lexeme.isDigit_of_isIdentifierStart (by simpa [startsWord] using word)

theorem Seamed.akin (h : Seamed t t') : Akin t t' where
  heads := h.heads
  isPrefixOf_eq _ plain := h.isPrefixOf_eq plain
  digit_eq _ plain found := by
    have later := (h.strip plain found).2.heads
    rcases later with same | ⟨word, word'⟩
    · rw [same]
    · rw [startsWord_digit word, startsWord_digit word']

/-- Nothing in front of a text tells whether it is continued on the next line. -/
theorem akin_continued (nonempty : t ≠ []) (more : Text) :
    Akin t (t ++ CodePoint.ofChar '\n' :: more) where
  heads := by
    cases t with
    | nil => exact absurd rfl nonempty
    | cons c t => exact .inl rfl
  isPrefixOf_eq pattern plain := by
    rw [Bool.eq_iff_iff, List.isPrefixOf_iff_prefix, List.isPrefixOf_iff_prefix]
    refine ⟨fun found => found.trans (List.prefix_append ..), fun found => ?_⟩
    rcases Nat.le_total pattern.length t.length with short | long
    · exact List.prefix_of_prefix_length_le found (List.prefix_append ..) short
    · obtain ⟨rest, rfl⟩ := List.prefix_of_prefix_length_le (List.prefix_append ..) found long
      cases rest with
      | nil => simp
      | cons c rest =>
        obtain rfl := (List.cons_prefix_cons.1 ((List.prefix_append_right_inj t).1 found)).1
        exact absurd rfl (plain _ (by simp)).2
  digit_eq pattern _ found := by
    have short := (List.isPrefixOf_iff_prefix.1 found).length_le
    rw [List.drop_append_of_le_length short]
    cases t.drop pattern.length with
    | nil => rfl
    | cons c rest => rfl

end Text

namespace Lexeme

variable {context : LexContext} {first : Bool} {c : CodePoint} {rest : Text} {lexeme : Lexeme}
  {n : Nat}

theorem orFault_ok {kind : TokenKind} {cause : LexCause} {length : Option Nat} :
    orFault kind cause length = .ok (lexeme, n) ↔ lexeme = .token kind ∧ length = some n := by
  cases length <;> simp [orFault, eq_comm]

theorem chunk_ok {opened : Bool} : chunk opened rest = .ok (lexeme, n) ↔
    ∃ stop, chunkLength? rest = some (n, stop) ∧ lexeme = .token (chunkKind opened stop) := by
  cases h : chunkLength? rest with
  | none => simp [chunk, h]
  | some chunk => simp [Lexeme.chunk, h, Prod.ext_iff, eq_comm, and_comm]

/-- What follows from an outcome in both branches follows from it. -/
theorem ite_elim {α : Type} {b P : Prop} [Decidable b] {x y z : α} (h : b → x = z → P)
    (h' : ¬b → y = z → P) (found : (if b then x else y) = z) : P := by
  by_cases hb : b
  · exact h hb (by rwa [if_pos hb] at found)
  · exact h' hb (by rwa [if_neg hb] at found)

theorem number_pos {t : Text} {kind : TokenKind} (front : c.isDigit = true ∨ c = '.')
    (h : number (c :: t) = .ok (kind, n)) : 0 < n := by
  cases hm : magnitudeLength (c :: t) with
  | error cause =>
    simp only [number, bind, Except.bind, hm] at h
    cases h
  | ok magnitude =>
    have positive := magnitudeLength_pos front hm
    rw [number_eq hm rfl] at h
    split at h
    · cases h
    · cases h
      omega

theorem name_pos {found : Name} (front : c.isIdentifierStart = true ∨ c = '\\')
    (h : name (c :: rest) = .ok found) : 0 < found.length := by
  rw [name] at h
  split at h
  · repeat' split at h
    all_goals first
      | contradiction
      | (cases h; exact Nat.succ_pos _)
  · rename_i bare
    rw [if_pos (CodePoint.isIdentifierPart_of_isIdentifierStart (front.resolve_right bare))] at h
    split at h
    · cases h
    · cases h
      exact Nat.succ_pos _

/-- What can be read at the front of a text: each lexeme with what makes it be read there. -/
inductive Scanned (context : LexContext) (first : Bool) (c : CodePoint) (rest : Text) :
    Lexeme → Nat → Prop
  | hashbang : first = true → c = '#' → Scanned context first c rest .comment (lineCommentLength rest)
  | newline : c.isLineTerminator = true → Scanned context first c rest .newline 0
  | blank : c.isLineTerminator = false → (c.isBlank || c.val = 0xFEFF) = true →
      Scanned context first c rest .blank 0
  | lineComment : c = '/' → rest.head? = some (CodePoint.ofChar '/') →
      Scanned context first c rest .comment (lineCommentLength rest)
  | blockComment {length : Nat} : c = '/' → rest.head? = some (CodePoint.ofChar '*') →
      blockCommentLength? rest.tail = some length → Scanned context first c rest .comment (length + 1)
  | markupComment : c = '<' → Text.ofString "!--" <+: rest →
      Scanned context first c rest .comment (lineCommentLength rest)
  | string {length : Nat} : c = '"' ∨ c = '\'' → stringLength? c rest = some length →
      Scanned context first c rest (.token .string) length
  | template {length : Nat} {stop : ChunkEnd} : c = '`' → chunkLength? rest = some (length, stop) →
      Scanned context first c rest (.token (chunkKind true stop)) length
  | number {kind : TokenKind} {length : Nat} :
      c.isDigit = true ∨ c = '.' ∧ rest.head?.any CodePoint.isDigit = true →
      number (c :: rest) = .ok (kind, length) →
      Scanned context first c rest (.token kind) (length - 1)
  | word {found : Name} : c.isIdentifierStart = true ∨ c = '\\' → name (c :: rest) = .ok found →
      Scanned context first c rest (.word found.kind found.spelling) (found.length - 1)
  | privateName : c = '#' → rest.head?.any CodePoint.isIdentifierStart = true →
      Scanned context first c rest (.token .privateName) (partsLength rest)
  | regex {length : Nat} : c = '/' → context.regexMayStart = true → regexLength? rest = some length →
      Scanned context first c rest (.token .regex) length
  | chunk {length : Nat} {stop : ChunkEnd} : c = '}' → context.closesSubstitution = true →
      chunkLength? rest = some (length, stop) →
      Scanned context first c rest (.token (chunkKind false stop)) length
  | punctuator {kind : TokenKind} {length : Nat} : ¬(c = '/' ∧ context.regexMayStart = true) →
      ¬(c = '}' ∧ context.closesSubstitution = true) →
      punctuator? (c :: rest) = some (kind, length) →
      Scanned context first c rest (.token kind) (length - 1)

/-- A lexeme is read for one of the reasons there are. -/
theorem scanned_of_scan : scan context first c rest = .ok (lexeme, n) →
    Scanned context first c rest lexeme n := by
  rw [scan]
  refine ite_elim (fun opens h => ?_) fun _ => ite_elim (fun line h => ?_) fun line =>
    ite_elim (fun blank h => ?_) fun _ => ite_elim (fun opens h => ?_) fun _ =>
    ite_elim (fun opens h => ?_) fun _ => ite_elim (fun opens h => ?_) fun _ =>
    ite_elim (fun quote h => ?_) fun _ => ite_elim (fun opens h => ?_) fun _ =>
    ite_elim (fun front h => ?_) fun _ => ite_elim (fun front h => ?_) fun _ =>
    ite_elim (fun hash h => ?_) fun _ => ite_elim (fun slash h => ?_) fun slash =>
    ite_elim (fun brace h => ?_) fun brace h => ?_
  all_goals simp only [Bool.and_eq_true, Bool.or_eq_true, decide_eq_true_eq] at *
  · cases h
    exact .hashbang opens.1.1 opens.1.2
  · cases h
    exact .newline line
  · cases h
    exact .blank (by simpa using line) (by simpa using blank)
  · cases h
    exact .lineComment opens.1 opens.2
  · split at h
    · rename_i found
      cases h
      exact .blockComment opens.1 opens.2 found
    · cases h
  · cases h
    exact .markupComment opens.1 (List.isPrefixOf_iff_prefix.1 opens.2)
  · obtain ⟨rfl, found⟩ := orFault_ok.1 h
    exact .string quote found
  · obtain ⟨stop, found, rfl⟩ := chunk_ok.1 h
    exact .template opens found
  · split at h
    · rename_i found
      cases h
      exact .number front found
    · cases h
  · split at h
    · rename_i found
      cases h
      exact .word front found
    · cases h
  · split at h
    · rename_i start
      cases h
      exact .privateName hash start
    · cases h
  · obtain ⟨rfl, found⟩ := orFault_ok.1 h
    exact .regex slash.1 slash.2 found
  · obtain ⟨stop, found, rfl⟩ := chunk_ok.1 h
    exact .chunk brace.1 brace.2 found
  · split at h
    · rename_i found
      cases h
      exact .punctuator slash brace found
    · cases h

theorem scan_le (h : scan context first c rest = .ok (lexeme, n)) : n ≤ rest.length := by
  cases scanned_of_scan h with
  | hashbang | lineComment | markupComment => exact lineCommentLength_le rest
  | newline | blank => exact Nat.zero_le _
  | blockComment _ next found =>
    have := blockCommentLength?_le found
    have := List.length_pos_iff.2 (List.ne_nil_of_mem (List.mem_of_mem_head? next))
    simp only [List.length_tail] at *
    omega
  | string _ found => exact stringLength?_le found
  | template _ found => exact chunkLength?_le found
  | number _ found =>
    have := number_le found
    simp only [List.length_cons] at this
    omega
  | word _ found =>
    have := name_le found
    simp only [List.length_cons] at this
    omega
  | privateName => exact partsLength_le rest
  | regex _ _ found => exact regexLength?_le found
  | chunk _ _ found => exact chunkLength?_le found
  | punctuator _ _ found =>
    have := (punctuator?_le found).2
    simp only [List.length_cons] at this
    omega

/-- Branches under one condition go over into each other if each does by itself. -/
theorem ite_imp {α : Type} {b : Prop} [Decidable b] {x y x' y' z : α}
    (h : b → x = z → x' = z) (h' : ¬b → y = z → y' = z) :
    (if b then x else y) = z → (if b then x' else y') = z := by
  by_cases hb : b
  · simpa only [hb, if_true] using h hb
  · simpa only [hb, if_false] using h' hb

/-- A lexeme is read in the same way in front of a text that it does not tell from the one it was
read in front of, in every context that allows the same of a slash and a closing brace. -/
theorem scan_akin {context' : LexContext} {first' : Bool} {written t t' : Text}
    (h : scan context first c (written ++ t) = .ok (lexeme, written.length))
    (akin : t.Akin t') (start : first' = first ∨ c ≠ '#')
    (slash : c = '/' → context'.regexMayStart = context.regexMayStart)
    (brace : c = '}' → context'.closesSubstitution = context.closesSubstitution) :
    scan context' first' c (written ++ t') = .ok (lexeme, written.length) := by
  have alike := akin.alike written
  have alikeBehind : Text.Alike (written.length + 1) (c :: (written ++ t)) (c :: (written ++ t')) :=
    ⟨rfl, alike⟩
  have all := akin.append written
  generalize written ++ t = rest at *
  generalize written ++ t' = rest' at *
  have head {d : Char} (plain : (CodePoint.ofChar d).isIdentifierStart = false) :
      (rest'.head? = some (CodePoint.ofChar d)) = (rest.head? = some (CodePoint.ofChar d)) :=
    propext (all.head_eq_iff plain).symm
  have arrow : (Text.ofString "!--").isPrefixOf rest' = (Text.ofString "!--").isPrefixOf rest :=
    (all.isPrefixOf_eq _ (by decide)).symm
  have digit : rest'.head?.any CodePoint.isDigit = rest.head?.any CodePoint.isDigit :=
    (all.any_head _ false fun _ => isDigit_of_isIdentifierStart).symm
  have word : rest'.head?.any CodePoint.isIdentifierStart =
      rest.head?.any CodePoint.isIdentifierStart := (all.any_head _ true fun _ h => h).symm
  have opening : (first' && c = '#') = (first && c = '#') := by
    obtain rfl | other := start
    · rfl
    · simp [other]
  have regex : (c = '/' && context'.regexMayStart) = (c = '/' && context.regexMayStart) := by
    by_cases h : c = '/'
    · rw [slash h]
    · simp [h]
  have closing : (c = '}' && context'.closesSubstitution) =
      (c = '}' && context.closesSubstitution) := by
    by_cases h : c = '}'
    · rw [brace h]
    · simp [h]
  revert h
  rw [scan, scan]
  simp only [head (d := '!') (by decide), head (d := '/') (by decide), head (d := '*') (by decide),
    arrow, digit, word, opening, regex, closing]
  refine ite_imp (fun _ h => ?_) fun _ => ite_imp (fun _ h => h) fun _ =>
    ite_imp (fun _ h => h) fun _ => ite_imp (fun _ h => ?_) fun _ =>
    ite_imp (fun opens h => ?_) fun _ => ite_imp (fun _ h => ?_) fun _ =>
    ite_imp (fun _ h => ?_) fun _ => ite_imp (fun _ h => ?_) fun _ =>
    ite_imp (fun front h => ?_) fun _ => ite_imp (fun front h => ?_) fun _ =>
    ite_imp (fun _ h => ?_) fun _ => ite_imp (fun _ h => ?_) fun _ =>
    ite_imp (fun _ h => ?_) fun _ h => ?_
  · simp only [Except.ok.injEq, Prod.mk.injEq] at h ⊢
    exact ⟨h.1, (lineCommentLength_alike (h.2 ▸ alike)).trans h.2⟩
  · simp only [Except.ok.injEq, Prod.mk.injEq] at h ⊢
    exact ⟨h.1, (lineCommentLength_alike (h.2 ▸ alike)).trans h.2⟩
  · split at h
    · rename_i length found
      simp only [Except.ok.injEq, Prod.mk.injEq] at h
      rw [← h.2, Nat.add_comm] at alike
      have same : Text.Same length rest.tail rest'.tail := by
        simpa only [List.drop_one] using alike.same.drop
      rw [blockCommentLength?_same found same, ← h.1, ← h.2]
    · cases h
  · simp only [Except.ok.injEq, Prod.mk.injEq] at h ⊢
    exact ⟨h.1, (lineCommentLength_alike (h.2 ▸ alike)).trans h.2⟩
  · obtain ⟨rfl, found⟩ := orFault_ok.1 h
    exact orFault_ok.2 ⟨rfl, stringLength?_same found alike.same⟩
  · obtain ⟨stop, found, rfl⟩ := chunk_ok.1 h
    exact chunk_ok.2 ⟨stop, chunkLength?_same found alike.same, rfl⟩
  · simp only [Bool.or_eq_true, Bool.and_eq_true, decide_eq_true_eq] at front
    have front := front.imp_right And.left
    split at h
    · rename_i kind length found
      simp only [Except.ok.injEq, Prod.mk.injEq] at h
      have := number_pos front found
      rw [show written.length + 1 = length by omega] at alikeBehind
      rw [number_alike front found alikeBehind, ← h.1, ← h.2]
    · cases h
  · simp only [Bool.or_eq_true, decide_eq_true_eq] at front
    split at h
    · rename_i found read
      simp only [Except.ok.injEq, Prod.mk.injEq] at h
      have := name_pos front read
      rw [show written.length + 1 = found.length by omega] at alikeBehind
      rw [name_alike read alikeBehind, ← h.1, ← h.2]
    · cases h
  · refine ite_imp (fun _ h => ?_) (fun _ h => h) h
    simp only [Except.ok.injEq, Prod.mk.injEq] at h ⊢
    exact ⟨h.1, (partsLength_alike (h.2 ▸ alike)).trans h.2⟩
  · obtain ⟨rfl, found⟩ := orFault_ok.1 h
    exact orFault_ok.2 ⟨rfl, regexLength?_alike found alike⟩
  · obtain ⟨stop, found, rfl⟩ := chunk_ok.1 h
    exact chunk_ok.2 ⟨stop, chunkLength?_same found alike.same, rfl⟩
  · rwa [punctuator?_akin (all.cons c)]

/-- A lexeme is read in the same way if the text changes behind a seam that is not before its end,
in every context that allows the same of a slash and a closing brace. -/
theorem scan_seamed {context' : LexContext} {first' : Bool} {written t t' : Text}
    (h : scan context first c (written ++ t) = .ok (lexeme, written.length))
    (seamed : t.Seamed t') (start : first' = first ∨ c ≠ '#')
    (slash : c = '/' → context'.regexMayStart = context.regexMayStart)
    (brace : c = '}' → context'.closesSubstitution = context.closesSubstitution) :
    scan context' first' c (written ++ t') = .ok (lexeme, written.length) :=
  scan_akin h seamed.akin start slash brace

/-- A lexeme that does not reach to the end of a text is read in the same way if the text is
continued on the next line. -/
theorem scan_continued {written t : Text}
    (h : scan context first c (written ++ t) = .ok (lexeme, written.length)) (more : Text)
    (nonempty : t ≠ []) :
    scan context first c (written ++ (t ++ CodePoint.ofChar '\n' :: more)) =
      .ok (lexeme, written.length) :=
  scan_akin h (Text.akin_continued nonempty more) (.inl rfl) (fun _ => rfl) fun _ => rfl

end Lexeme

end Uncurry
