import Uncurry.Proofs.Lexical.Coverage
import Uncurry.Proofs.Lexical.Fronts

/-!
# Lexemes that something else follows

A lexeme that was read in front of some text is the same in front of another one that does not go on
with it. A space goes on with nothing but an escape that the end of the text cut off.
-/
namespace Uncurry

open CodePoint

namespace Text

variable {w t t' pattern : Text}

/-- A pattern without spaces does not reach beyond one. -/
theorem Spaced.of_prefix (spaced : Spaced t')
    (free : ∀ c ∈ pattern, c ≠ ofChar ' ' ∧ c ≠ ofChar '\n') (found : pattern <+: w ++ t') :
    pattern <+: w := by
  induction w generalizing pattern with
  | nil =>
    obtain ⟨c, later, rfl, space⟩ := spaced
    cases pattern with
    | nil => exact List.nil_prefix
    | cons d pattern =>
      obtain rfl : d = c := (List.cons_prefix_cons.1 found).1
      have plain := free d List.mem_cons_self
      exact (space.elim plain.1 plain.2).elim
  | cons c w ih =>
    cases pattern with
    | nil => exact List.nil_prefix
    | cons d pattern =>
      obtain ⟨rfl, later⟩ := List.cons_prefix_cons.1 found
      exact List.cons_prefix_cons.2
        ⟨rfl, ih (fun c member => free c (List.mem_cons_of_mem _ member)) later⟩

theorem same_append (w t t' : Text) : Same w.length (w ++ t) (w ++ t') := by
  simp [Same]

end Text

namespace Text.HexInteger

/-- Padding at the end of a number does not matter. -/
theorem read_padded {c : CodePoint} (t : Text) (last : c.isAscii = true)
    (form : asciiForm? c = some c) (padding : isPadding c = true) : read (t ++ [c]) = read t := by
  have ascii : toAscii? (t ++ [c]) = (toAscii? t).map (· ++ [c]) := by
    cases plain : t.all isAscii with
    | true => simp [toAscii?, plain, last]
    | false =>
      cases forms : t.mapM asciiForm? <;>
        simp [toAscii?, plain, List.mapM_append, forms, form]
  have trim (a : Text) : dropEndWhile isPadding ((a ++ [c]).dropWhile isPadding) =
      dropEndWhile isPadding (a.dropWhile isPadding) := by
    rw [List.dropWhile_append]
    split
    · rename_i none
      rw [List.isEmpty_iff.1 none]
      simp [padding]
    · simp [dropEndWhile, padding]
  rw [read, read, ascii]
  cases toAscii? t with
  | none => rfl
  | some a => exact congrArg signed (trim a)

/-- A space at the end of a number does not matter. -/
theorem read_space (t : Text) : read (t ++ [ofChar ' ']) = read t :=
  read_padded t (by decide) (by decide) (by decide)

end Text.HexInteger

namespace Lexeme

open Text

variable {context context' : LexContext} {first first' : Bool} {c : CodePoint}
  {w t t' digits text : Text} {n : Nat} {kind : TokenKind}

/-- A space is none of the characters that a test is about. -/
def SpaceFree (test : CodePoint → Bool) : Prop :=
  test (ofChar ' ') = false ∧ test (ofChar '\n') = false

theorem SpaceFree.head {test : CodePoint → Bool} (free : SpaceFree test) (h : Text.Spaced t) :
    t.head?.any test = false := by
  obtain ⟨c, later, rfl, rfl | rfl⟩ := h
  · exact free.1
  · exact free.2

theorem spaceFree_isDigit : SpaceFree CodePoint.isDigit := by
  constructor <;> decide

theorem spaceFree_isIdentifierPart : SpaceFree isIdentifierPart := by
  constructor <;> decide

theorem runsOn_spaced (spaced : Spaced t) : runsOn t = false :=
  SpaceFree.head (by constructor <;> decide) spaced

theorem continuesWord_spaced (spaced : Spaced t) : t.continuesWord = false :=
  SpaceFree.head (by constructor <;> decide) spaced

theorem partsLength_ended (h : partsLength (w ++ t) = w.length)
    (ends : t'.head?.any isIdentifierPart = false) : partsLength (w ++ t') = w.length := by
  induction w with
  | nil =>
    cases t' with
    | nil => rfl
    | cons c later =>
      have other : c.isIdentifierPart = false := by simpa using ends
      simp [partsLength, other]
  | cons c w ih =>
    rw [List.cons_append, partsLength] at h ⊢
    split at h
    · rw [if_pos (by assumption), ih (Nat.succ.inj h), List.length_cons]
    · cases h

theorem takeWhile_same {p : CodePoint → Bool} (ends : (t.takeWhile p).length < t.length)
    (same : Same ((t.takeWhile p).length + 1) t t') :
    t'.takeWhile p = t.takeWhile p ∧ (t.takeWhile p).length < t'.length := by
  induction t generalizing t' with
  | nil => cases ends
  | cons c rest ih =>
    obtain ⟨later, rfl, behind⟩ := same.cons
    cases holds : p c with
    | true =>
      simp only [List.takeWhile_cons, holds, if_true, List.length_cons] at ends behind ⊢
      obtain ⟨equal, longer⟩ := ih (Nat.lt_of_succ_lt_succ ends) behind
      exact ⟨by rw [equal], Nat.succ_lt_succ longer⟩
    | false => simp [holds]

/-- More characters are taken along by an escape that is not complete: some of them at least, if
there are any, and no braces among them. -/
def TakesAlong (t digits : Text) (n : Nat) : Prop :=
  ∀ more, (∀ c ∈ more, c ≠ ofChar '{' ∧ c ≠ ofChar '}') → ∃ taken, taken <+: more ∧
    (more ≠ [] → taken ≠ []) ∧
    escapeDigits? (t ++ more) = some (digits ++ taken, n + taken.length)

/-- The digits between braces are the same whatever follows, or the text ends before the closing
brace. -/
theorem bracedDigits_spaced {inner : Text}
    (found : escapeDigits? (ofChar 'u' :: ofChar '{' :: inner) = some (digits, n)) :
    (∀ t', Same n (ofChar 'u' :: ofChar '{' :: inner) t' → escapeDigits? t' = some (digits, n)) ∨
      inner.length + 2 = n ∧ TakesAlong (ofChar 'u' :: ofChar '{' :: inner) digits n := by
  simp only [escapeDigits?, if_true, List.head?_cons, List.tail_cons, Option.some.injEq,
    Prod.mk.injEq] at found
  obtain ⟨rfl, rfl⟩ := found
  by_cases ends : (inner.takeWhile (· != ofChar '}')).length < inner.length
  · refine .inl fun t' same => ?_
    simp only [ends, if_true, show 2 + (inner.takeWhile (· != ofChar '}')).length + 1 =
      (inner.takeWhile (· != ofChar '}')).length + 1 + 1 + 1 by omega] at same
    obtain ⟨later, rfl, same₁⟩ := same.cons
    obtain ⟨inner', rfl, same₂⟩ := same₁.cons
    obtain ⟨equal, longer⟩ := takeWhile_same ends same₂
    simp only [escapeDigits?, if_true, List.head?_cons, List.tail_cons, equal, longer, ends]
  · have whole : inner.takeWhile (· != ofChar '}') = inner :=
      (List.takeWhile_prefix _).eq_of_length_le (Nat.not_lt.1 ends)
    have inside : ∀ c ∈ inner, (c != ofChar '}') = true := by
      rw [← whole]
      exact List.all_eq_true.1 List.all_takeWhile
    refine .inr ⟨by simp [whole]; omega, fun more free => ⟨more, List.prefix_rfl, id, ?_⟩⟩
    have further : (inner ++ more).takeWhile (· != ofChar '}') = inner ++ more := by
      rw [List.takeWhile_append_of_pos inside, ← List.append_nil more,
        List.takeWhile_append_of_pos fun c member => by simpa using (free c member).2]
      rfl
    simp [escapeDigits?, whole, further]
    omega

/-- Four digits are the same whatever follows, or the text ends before there are four. -/
theorem fourDigits_spaced {rest : Text} (bare : rest.head? ≠ some (ofChar '{'))
    (found : escapeDigits? (ofChar 'u' :: rest) = some (digits, n)) :
    (∀ t', Same n (ofChar 'u' :: rest) t' → escapeDigits? t' = some (digits, n)) ∨
      rest.length + 1 = n ∧ TakesAlong (ofChar 'u' :: rest) digits n := by
  simp only [escapeDigits?, if_true, bare, if_false, Option.some.injEq, Prod.mk.injEq] at found
  obtain ⟨rfl, rfl⟩ := found
  by_cases long : 4 ≤ rest.length
  · refine .inl fun t' same => ?_
    rw [List.length_take_of_le long] at same
    obtain ⟨later, rfl, behind⟩ := same.cons
    rw [behind.head_eq (by decide)] at bare
    simp only [escapeDigits?, if_true, bare, if_false]
    rw [behind]
  · have short : rest.take 4 = rest := List.take_of_length_le (by omega)
    refine .inr ⟨by rw [short, Nat.add_comm], fun more free =>
      ⟨more.take (4 - rest.length), List.take_prefix .., fun some none => ?_, ?_⟩⟩
    · rcases List.take_eq_nil_iff.1 none with zero | none
      · omega
      · exact some none
    · have head : (rest ++ more).head? ≠ some (ofChar '{') := by
        cases rest with
        | nil =>
          cases more with
          | nil => simp
          | cons d more => simpa using (free d List.mem_cons_self).1
        | cons d rest => simpa using bare
      simp only [escapeDigits?, List.cons_append, if_true, head, if_false, short,
        List.take_append, List.length_append, Nat.add_assoc]

/-- The digits of an escape are the same whatever follows, or the text ends before they are
complete. -/
theorem escapeDigits?_spaced (found : escapeDigits? t = some (digits, n)) :
    (∀ t', Same n t t' → escapeDigits? t' = some (digits, n)) ∨
      t.length = n ∧ TakesAlong t digits n := by
  cases t with
  | nil => cases found
  | cons c rest =>
    by_cases letter : c = 'u'
    · subst letter
      by_cases brace : rest.head? = some (ofChar '{')
      · obtain ⟨inner, rfl⟩ : ∃ inner, rest = ofChar '{' :: inner := by
          cases rest <;> simp_all
        exact bracedDigits_spaced found
      · exact fourDigits_spaced brace found
    · simp [escapeDigits?, letter] at found

/-- What an escape that is not complete takes along of a space. -/
theorem TakesAlong.space (h : TakesAlong t digits n) :
    escapeDigits? (t ++ [ofChar ' ']) = some (digits ++ [ofChar ' '], n + 1) := by
  obtain ⟨taken, front, some, cut⟩ := h [ofChar ' '] (by decide)
  obtain rfl : taken = [ofChar ' '] := by
    rcases List.prefix_cons_iff.1 front with rfl | ⟨later, rfl, none⟩
    · exact absurd rfl (some (by simp))
    · rw [List.prefix_nil.1 none]
  exact cut

/-- An escape that is read has digits, and these are the number of a code point. -/
theorem escape_ok {d : CodePoint} : escape t = .ok (d, n) ↔ ∃ digits value,
    escapeDigits? t = some (digits, n) ∧ HexInteger.read digits = some value ∧
      (value < -2147483648 || 2147483647 < value) = false ∧ ¬value < 0 ∧
      CodePoint.ofNat? value.toNat = some d := by
  constructor
  · intro found
    rw [escape] at found
    repeat' split at found
    all_goals first
      | contradiction
      | (cases found; exact ⟨_, _, by assumption, by assumption, by simp_all, by assumption,
          by assumption⟩)
  · rintro ⟨digits, value, hd, hv, bounds, natural, point⟩
    simp only [escape, hd, hv, bounds, natural, point, Bool.false_eq_true, if_false]

/-- An escape is the same whatever follows, or the text ends before it is complete; then a space
behind it makes no difference. -/
theorem escape_spaced {d : CodePoint} (found : escape t = .ok (d, n)) :
    (∀ t', Same n t t' → escape t' = .ok (d, n)) ∨
      t.length = n ∧ escape (t ++ [ofChar ' ']) = .ok (d, n + 1) := by
  obtain ⟨digits, value, hd, hv, valid⟩ := escape_ok.1 found
  rcases escapeDigits?_spaced hd with complete | ⟨whole, along⟩
  · exact .inl fun t' same => escape_ok.2 ⟨digits, value, complete t' same, hv, valid⟩
  · exact .inr ⟨whole, escape_ok.2
      ⟨_, value, along.space, (HexInteger.read_space digits).trans hv, valid⟩⟩

theorem name_none (ends : t.continuesWord = false) : name t = .ok ⟨[], 0, false⟩ :=
  name_eq (w := []) nofun ends

/-- A name is the same before everything that does not continue it, or the text ends before its last
escape is complete; then a space behind it is taken along. -/
theorem name_ended {found : Name} (read : name t = .ok found) :
    (∀ t', Same found.length t t' → continuesWord (t'.drop found.length) = false →
      name t' = .ok found) ∨
      t.length = found.length ∧
        name (t ++ [ofChar ' ']) = .ok { found with length := found.length + 1 } := by
  induction t using name.induct generalizing found with
  | case1 =>
    rw [name] at read
    cases read
    exact .inl fun t' _ ends => name_none ends
  | case2 rest fault failed =>
    rw [name, if_pos rfl, failed] at read
    cases read
  | case3 rest d length escaped fault failed =>
    rw [name, if_pos rfl, escaped] at read
    simp only [failed] at read
    cases read
  | case4 rest d length escaped later read' ih =>
    rw [name, if_pos rfl, escaped] at read
    simp only [read', Except.ok.injEq] at read
    subst read
    rcases escape_spaced escaped with complete | ⟨whole, cut⟩
    · rcases ih read' with complete' | ⟨whole', cut'⟩
      · refine .inl fun t' same ends => ?_
        obtain ⟨behind, rfl, same'⟩ := same.cons
        rw [Nat.add_comm] at same'
        rw [List.drop_succ_cons, Nat.add_comm, ← List.drop_drop] at ends
        rw [name, if_pos rfl, complete behind same'.left]
        simp only [complete' _ same'.drop ends]
      · have within := escape_le escaped
        rw [List.length_drop] at whole'
        refine .inr ⟨by simp only [List.length_cons]; omega, ?_⟩
        have front : Same length rest (rest ++ [ofChar ' ']) := by
          rw [Same, List.take_append_of_le_length within]
        rw [List.cons_append, name, if_pos rfl, complete _ front]
        simp only [List.drop_append_of_le_length within, cut']
        congr 2
        omega
    · have none : rest.drop length = [] := List.drop_of_length_le (Nat.le_of_eq whole)
      rw [none, name] at read'
      cases read'
      refine .inr ⟨by rw [List.length_cons, whole, Nat.zero_add], ?_⟩
      have none' : (rest ++ [ofChar ' ']).drop (length + 1) = [] :=
        List.drop_of_length_le (by simp [whole])
      rw [List.cons_append, name, if_pos rfl, cut]
      simp only [none', name, Nat.zero_add]
  | case5 c rest bare part fault failed =>
    rw [name, if_neg bare, if_pos part, failed] at read
    cases read
  | case6 c rest bare part later read' ih =>
    rw [name, if_neg bare, if_pos part, read'] at read
    cases read
    rcases ih read' with complete | ⟨whole, cut⟩
    · refine .inl fun t' same ends => ?_
      obtain ⟨behind, rfl, same'⟩ := same.cons
      rw [name, if_neg bare, if_pos part, complete behind same' ends]
    · refine .inr ⟨by rw [List.length_cons, whole], ?_⟩
      rw [List.cons_append, name, if_neg bare, if_pos part, cut]
  | case7 c rest bare part =>
    rw [name, if_neg bare, if_neg part] at read
    cases read
    exact .inl fun t' _ ends => name_none ends

theorem punctuators_spaceFree : ∀ entry ∈ TokenKind.punctuators,
    ∀ c ∈ Text.ofString entry.1, c ≠ ofChar ' ' ∧ c ≠ ofChar '\n' := by
  decide

/-- No punctuator but `?.` starts with it. -/
theorem optionalChain_prefix : ∀ entry ∈ TokenKind.punctuators,
    (Text.ofString "?.").isPrefixOf (Text.ofString entry.1) = true →
      entry = ("?.", .optionalChain) := by
  decide

theorem punctuator?_spaced (h : punctuator? (w ++ t) = some (kind, w.length))
    (spaced : Spaced t') : punctuator? (w ++ t') = some (kind, w.length) := by
  obtain ⟨entry, found, same⟩ := Option.map_eq_some_iff.1 h
  obtain ⟨rfl, length⟩ := Prod.mk.inj same
  obtain ⟨fits, before, behind, all, others⟩ := List.find?_eq_some_iff_append.1 found
  have member : entry ∈ TokenKind.punctuators := all ▸ by simp
  simp only [Bool.and_eq_true, List.isPrefixOf_iff_prefix, Bool.not_eq_true',
    Bool.and_eq_false_iff, decide_eq_false_iff_not] at fits
  obtain ⟨opens, chain⟩ := fits
  obtain rfl : Text.ofString entry.1 = w :=
    (List.prefix_of_prefix_length_le opens (List.prefix_append ..) (Nat.le_of_eq length)).eq_of_length
      length
  rw [punctuator?]
  refine Option.map_eq_some_iff.2 ⟨entry, List.find?_eq_some_iff_append.2
    ⟨?_, before, behind, all, fun other earlier => ?_⟩, rfl⟩
  · simp only [Bool.and_eq_true, List.isPrefixOf_iff_prefix, Bool.not_eq_true',
      Bool.and_eq_false_iff, decide_eq_false_iff_not]
    refine ⟨List.prefix_append .., ?_⟩
    by_cases optional : entry.2 = .optionalChain
    · obtain rfl := optionalChain_entry entry member optional
      exact .inr (spaceFree_isDigit.head spaced)
    · exact .inl optional
  · rw [Bool.not_eq_true']
    refine Bool.eq_false_iff.2 fun fits' => ?_
    have refused := others other earlier
    rw [Bool.not_eq_true'] at refused
    simp only [Bool.and_eq_true, List.isPrefixOf_iff_prefix, Bool.not_eq_true',
      Bool.and_eq_false_iff, decide_eq_false_iff_not] at fits'
    have inside : other ∈ TokenKind.punctuators := all ▸ List.mem_append_left _ earlier
    have short := spaced.of_prefix (punctuators_spaceFree other inside) fits'.1
    refine Bool.eq_false_iff.1 refused ?_
    simp only [Bool.and_eq_true, List.isPrefixOf_iff_prefix, Bool.not_eq_true',
      Bool.and_eq_false_iff, decide_eq_false_iff_not]
    refine ⟨short.trans (List.prefix_append ..), ?_⟩
    by_cases optional : other.2 = .optionalChain
    · obtain rfl := optionalChain_entry other inside optional
      obtain rfl := optionalChain_prefix entry member (List.isPrefixOf_iff_prefix.2 short)
      exact chain
    · exact .inl optional

theorem regexLength?_ended (h : regexLength? (w ++ t) = some w.length)
    (ends : t'.head?.any isIdentifierPart = false) : regexLength? (w ++ t') = some w.length := by
  obtain ⟨body, found, length⟩ := Option.map_eq_some_iff.1 h
  obtain ⟨inner, flags, rfl, rfl⟩ : ∃ inner flags, w = inner ++ flags ∧ inner.length = body :=
    ⟨w.take body, w.drop body, (List.take_append_drop ..).symm, List.length_take_of_le (by omega)⟩
  rw [List.append_assoc, List.drop_left, List.length_append, Nat.add_left_cancel_iff] at length
  rw [List.append_assoc] at found ⊢
  rw [regexLength?, regexBodyLength?_same found (Text.same_append ..), Option.map_some,
    List.drop_left, partsLength_ended length ends, List.length_append]

/-- A number is the same before everything that may follow it, unless it is whole and a point
follows. -/
theorem number_ended (front : c.isDigit = true ∨ c = '.' ∧ (w ++ t).head?.any isDigit = true)
    (found : number (c :: (w ++ t)) = .ok (kind, w.length + 1)) (ends : runsOn t' = false)
    (point : t'.head? = some (ofChar '.') → isWhole (c :: w) = false) :
    (c.isDigit = true ∨ c = '.' ∧ (w ++ t').head?.any isDigit = true) ∧
      number (c :: (w ++ t')) = .ok (kind, w.length + 1) := by
  have agree : Agree (w.length + 1) (c :: (w ++ t)) (c :: (w ++ t')) :=
    ⟨Text.same_append (c :: w) t t', .inr (by simpa using ends)⟩
  have points : Points (w.length + 1) (c :: (w ++ t)) (c :: (w ++ t')) := fun follows => .inr <| by
    simpa using point (by simpa using follows)
  refine ⟨front.imp_right fun point => ⟨point.1, ?_⟩,
    number_agree (front.imp_right And.left) found agree points⟩
  cases w with
  | cons d w => exact point.2
  | nil =>
    have ends := number_ends found
    obtain ⟨d, head, digit⟩ := (Option.any_eq_true _ _).1 point.2
    rw [List.nil_append] at head
    simp [runsOn, head, digit] at ends

/-- A private name is the same before everything that does not continue it. -/
theorem privateName_ended (word : (w ++ t).head?.any isIdentifierStart = true)
    (length : partsLength (w ++ t) = w.length) (ends : t'.head?.any isIdentifierPart = false) :
    (w ++ t').head?.any isIdentifierStart = true ∧ partsLength (w ++ t') = w.length := by
  refine ⟨?_, partsLength_ended length ends⟩
  cases w with
  | cons d w => exact word
  | nil =>
    obtain ⟨d, head, start⟩ := (Option.any_eq_true _ _).1 word
    obtain ⟨rest, rfl⟩ : ∃ rest, t = d :: rest := by
      cases t <;> simp_all
    simp [partsLength, isIdentifierPart_of_isIdentifierStart start] at length

/-- A word is read before every space, or its last escape is cut off by the end of the text; then
the space is taken along. -/
theorem scan_word_spaced (h : scan context first c (w ++ t) = .ok (.word kind text, w.length))
    (spaced : Spaced t') :
    scan context' first' c (w ++ t') = .ok (.word kind text, w.length) ∨
      t = [] ∧ scan context' first' c (w ++ [ofChar ' ']) = .ok (.word kind text, w.length + 1) := by
  obtain ⟨front, found, read, rfl, rfl, length⟩ := scan_eq_word h
  have positive := name_pos front read
  have count : found.length = (c :: w).length := by
    rw [List.length_cons]
    omega
  rcases name_ended read with complete | ⟨whole, cut⟩
  · refine .inl ?_
    have again := complete (c :: w ++ t') (count ▸ Text.same_append (c :: w) t t')
      (by rw [count, List.drop_left, continuesWord_spaced spaced])
    rw [scan_wordStart front, ← List.cons_append, again]
    exact congrArg (fun n => Except.ok (_, n)) length
  · obtain rfl : t = [] := by
      rw [count, ← List.cons_append, List.length_append] at whole
      exact List.length_eq_zero_iff.1 (by omega)
    refine .inr ⟨rfl, ?_⟩
    rw [List.append_nil] at cut
    rw [scan_wordStart front, ← List.cons_append, cut]
    have longer : found.length + 1 - 1 = w.length + 1 := count
    exact congrArg (fun n => Except.ok (_, n)) longer

end Lexeme

end Uncurry
