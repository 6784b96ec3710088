import Uncurry.Proofs.Lexical.Spacing

/-!
# Where a lexeme ends

What follows a token or a comment directly decides whether it ends there. `Token.endsBefore` tells
it from the kind of the token, its characters and the text behind them. What was read somewhere is
read again in front of another text if it ends before it (`scan_token_ended`, `scan_word_ended`,
`scan_comment_ended`), and what is read in front of a text ends before it
(`Token.endsBefore_of_scan`).
-/
namespace Uncurry

open CodePoint

/-- Whether the text is empty or a line of it ends at its front. -/
def Text.atLineEnd (t : Text) : Bool := t.head?.all isLineTerminator

def TokenKind.isPunctuator (kind : TokenKind) : Bool :=
  TokenKind.punctuators.any fun entry => entry.2 = kind

/-- Whether a token or a comment of some kind, written in some way, ends where these characters do
if a text follows them directly. Words, private names and the flags of regular expressions go on
with what is part of an identifier, and words with an escape. Behind a number there must be neither
an identifier nor a digit, and behind a whole one no point. A punctuator must remain the longest one
at its place and start neither a comment nor a number. A line comment goes on to the end of the line,
a block comment ends at the first place where it may. -/
def Token.endsBefore (kind : TokenKind) (written t : Text) : Bool :=
  if kind = .identifier || kind.isReservedWord then !t.continuesWord
  else if kind = .privateName || kind = .regex then !t.head?.any isIdentifierPart
  else if kind = .number || kind = .bigInt then
    !Lexeme.runsOn t && !(t.head? = some (ofChar '.') && Lexeme.isWhole written)
  else if kind.isPunctuator then
    Lexeme.punctuator? (written ++ t) = some (kind, written.length) &&
      !(written ++ t).opensComment &&
      !(written = Text.ofString "." && t.head?.any CodePoint.isDigit)
  else if kind = .comment then
    if (Text.ofString "/*").isPrefixOf written then
      Lexeme.blockCommentLength? (written.drop 2) = some (written.length - 2)
    else t.atLineEnd
  else true

namespace Token

variable {kind : TokenKind} {written t : Text}

theorem endsBefore_word (word : kind = .identifier ∨ kind.isReservedWord = true) :
    endsBefore kind written t = !t.continuesWord :=
  if_pos (by simpa using word)

theorem endsBefore_name (name : kind = .privateName ∨ kind = .regex) :
    endsBefore kind written t = !t.head?.any isIdentifierPart := by
  obtain rfl | rfl := name <;> rfl

theorem endsBefore_number (number : kind = .number ∨ kind = .bigInt) :
    endsBefore kind written t =
      (!Lexeme.runsOn t && !(t.head? = some (ofChar '.') && Lexeme.isWhole written)) := by
  obtain rfl | rfl := number <;> rfl

theorem endsBefore_punctuator {entry : String × TokenKind}
    (member : entry ∈ TokenKind.punctuators) : endsBefore entry.2 written t =
      (Lexeme.punctuator? (written ++ t) = some (entry.2, written.length) &&
        !(written ++ t).opensComment &&
        !(written = Text.ofString "." && t.head?.any CodePoint.isDigit)) := by
  have plain := (by decide : ∀ entry ∈ TokenKind.punctuators,
    (entry.2 = .identifier || entry.2.isReservedWord) = false ∧
      (entry.2 = .privateName || entry.2 = .regex) = false ∧
      (entry.2 = .number || entry.2 = .bigInt) = false ∧ entry.2.isPunctuator = true) entry member
  rw [endsBefore, plain.1, plain.2.1, plain.2.2.1, plain.2.2.2]
  rfl

theorem endsBefore_comment (c : CodePoint) : endsBefore .comment (c :: written) t =
    if c = '/' && written.head? = some (ofChar '*') then
      decide (Lexeme.blockCommentLength? written.tail = some (written.length - 1))
    else t.atLineEnd := by
  have block : Text.ofString "/*" = [ofChar '/', ofChar '*'] := by decide
  rw [← Text.isPrefixOf_pair, ← block, ← List.drop_one]
  rfl

theorem endsBefore_lineComment {c : CodePoint}
    (line : c = '/' → written.head? ≠ some (ofChar '*')) :
    endsBefore .comment (c :: written) t = t.atLineEnd := by
  rw [endsBefore_comment, if_neg (by simpa using line)]

end Token

namespace Lexeme

open Text

variable {context context' : LexContext} {first first' : Bool} {c : CodePoint}
  {w t t' rest : Text} {kind : TokenKind} {n : Nat}

theorem punctuators_tail : ∀ entry ∈ TokenKind.punctuators,
    (Text.ofString entry.1).tail.head?.any isDigit = false := by
  decide

/-- A token that is no word is read in front of every text before which it ends, in every context
that allows the same of a slash and a closing brace. -/
theorem scan_token_ended (h : scan context first c (w ++ t) = .ok (.token kind, w.length))
    (ends : Token.endsBefore kind (c :: w) t' = true)
    (slash : context'.regexMayStart = context.regexMayStart)
    (brace : context'.closesSubstitution = context.closesSubstitution) :
    scan context' first' c (w ++ t') = .ok (.token kind, w.length) := by
  have same := Text.same_append w t t'
  generalize length : w.length = n at h same ⊢
  cases scanned_of_scan h with
  | string quote found =>
    rw [scan_quote quote, orFault_ok]
    exact ⟨rfl, stringLength?_same found same⟩
  | template tick found =>
    rw [tick, scan_template, chunk_ok]
    exact ⟨_, chunkLength?_same found same, rfl⟩
  | chunk closing closes found =>
    rw [closing, scan_chunk (brace.trans closes), chunk_ok]
    exact ⟨_, chunkLength?_same found same, rfl⟩
  | @number kind count front found =>
    have positive := number_pos (front.imp_right And.left) found
    obtain rfl : count = w.length + 1 := by omega
    rw [Token.endsBefore_number (number_kind found)] at ends
    simp only [Bool.and_eq_true, Bool.not_eq_true', Bool.and_eq_false_iff,
      decide_eq_false_iff_not] at ends
    obtain ⟨front', again⟩ := number_ended front found ends.1 fun point =>
      ends.2.resolve_left (· point)
    rw [scan_digit front', again]
  | privateName hash word =>
    rw [Token.endsBefore_name (.inl rfl), Bool.not_eq_true'] at ends
    obtain ⟨word', again⟩ := privateName_ended word length.symm ends
    rw [hash, scan_privateName word', again, length]
  | regex opens starts found =>
    rw [Token.endsBefore_name (.inr rfl), Bool.not_eq_true'] at ends
    obtain ⟨-, line, i, -, count⟩ := scan_eq_regex h
    obtain ⟨d, w, rfl⟩ : ∃ d later, w = d :: later :=
      List.exists_cons_of_ne_nil (List.length_pos_iff.1 (by omega))
    have block : d ≠ '*' := by
      rintro rfl
      rw [opens, scan_blockComment (by simp)] at h
      split at h <;> cases h
    rw [opens, scan_regex (by simpa using line) (by simpa using block) (slash.trans starts),
      orFault_ok]
    exact ⟨rfl, length ▸ regexLength?_ended (length ▸ found) ends⟩
  | @punctuator kind count slash' brace' found =>
    obtain ⟨entry, member, rfl, opens, rfl⟩ := punctuator?_mem found
    rw [Token.endsBefore_punctuator member] at ends
    simp only [Bool.and_eq_true, Bool.not_eq_true', decide_eq_true_eq,
      Bool.and_eq_false_iff, decide_eq_false_iff_not] at ends
    obtain ⟨⟨longest, comment⟩, point⟩ := ends
    have point' : ¬(c = '.' ∧ (w ++ t').head?.any isDigit = true) := by
      rintro ⟨rfl, digit⟩
      have some := punctuators_nonempty entry member
      have own : Text.ofString entry.1 = ofChar '.' :: w :=
        (List.prefix_of_prefix_length_le (List.isPrefixOf_iff_prefix.1 opens)
          (List.prefix_append (_ :: w) t) (by rw [List.length_cons]; omega)).eq_of_length
          (by rw [List.length_cons]; omega)
      have plain := punctuators_tail entry member
      rw [own, List.tail_cons] at plain
      cases w with
      | nil => exact Bool.false_ne_true ((point.resolve_left (not_not_intro rfl)).symm.trans digit)
      | cons d w => exact Bool.false_ne_true (plain.symm.trans digit)
    rw [List.cons_append] at longest comment
    rw [scan_punctuator longest comment point' (by rwa [slash]) (by rwa [brace])]
    simp [length]

theorem name_isWord (found : Name) :
    found.kind = .identifier ∨ found.kind.isReservedWord = true := by
  refine (name_kind found).imp_right fun ⟨_, entry, member, same, _⟩ => ?_
  exact List.any_eq_true.2 ⟨entry, member, decide_eq_true same.symm⟩

/-- A word is read in front of every text before which it ends, but for the end of the text, which
may have cut off its last escape. -/
theorem scan_word_ended {text : Text}
    (h : scan context first c (w ++ t) = .ok (.word kind text, w.length))
    (ends : Token.endsBefore kind (c :: w) t' = true) (last : t = [] → t' = []) :
    scan context' first' c (w ++ t') = .ok (.word kind text, w.length) := by
  obtain ⟨front, found, read, rfl, rfl, length⟩ := scan_eq_word h
  have positive := name_pos front read
  have count : found.length = (c :: w).length := by
    rw [List.length_cons]
    omega
  rw [Token.endsBefore_word (name_isWord found), Bool.not_eq_true'] at ends
  have again : name (c :: (w ++ t')) = .ok found := by
    rcases name_ended read with complete | ⟨whole, _⟩
    · refine complete _ (count ▸ Text.same_append (c :: w) t t') ?_
      rwa [count, ← List.cons_append, List.drop_left]
    · obtain rfl : t = [] := by
        rw [count, ← List.cons_append, List.length_append] at whole
        exact List.length_eq_zero_iff.1 (by omega)
      rwa [last rfl]
  rw [scan_wordStart front, again]
  exact congrArg (fun n => Except.ok (_, n)) length

/-- A line comment has no line terminator in it, and it goes on to the end of the line. -/
theorem lineCommentLength_iff : lineCommentLength (w ++ t) = w.length ↔
    (∀ d ∈ w, d.isLineTerminator = false) ∧ t.atLineEnd = true := by
  induction w with
  | nil => cases t <;> simp [lineCommentLength, atLineEnd]
  | cons d w ih => cases line : d.isLineTerminator <;> simp [lineCommentLength, line, ih]

/-- What a comment starts with. -/
def commentMarks : Text := "#!/*<-"

variable {keep : CodePoint → Bool}

theorem opening_kept {opening : Text} (kept : ∀ d ∈ opening, keep d = true)
    (opens : opening <+: w ++ t) (within : opening.length ≤ w.length) :
    ∃ v, w = opening ++ v ∧ w.filter keep = opening ++ v.filter keep := by
  obtain ⟨v, rfl⟩ := List.prefix_of_prefix_length_le opens (List.prefix_append w t) within
  exact ⟨v, rfl, by rw [List.filter_append, List.filter_eq_self.2 kept]⟩

/-- A line comment is one without some of its characters as well if it goes on to the end of the line
then. -/
theorem lineComment_ended {opening : Text} (plain : ∀ d ∈ opening, d.isLineTerminator = false)
    (kept : ∀ d ∈ opening, keep d = true) (opens : opening <+: w ++ t)
    (length : lineCommentLength (w ++ t) = w.length) (ends : t'.atLineEnd = true) :
    opening <+: w.filter keep ++ t' ∧
      lineCommentLength (w.filter keep ++ t') = (w.filter keep).length := by
  obtain ⟨v, -, same⟩ := opening_kept kept opens (length ▸ lineCommentLength_prefix plain opens)
  refine ⟨?_, lineCommentLength_iff.2 ⟨fun d member => ?_, ends⟩⟩
  · rw [same, List.append_assoc]
    exact List.prefix_append ..
  · exact (lineCommentLength_iff.1 length).1 d (List.mem_filter.1 member).1

/-- A comment is read without some of its characters as well, those that open and close comments
apart, if it ends before the text that follows. -/
theorem scan_comment_ended (marks : ∀ d ∈ commentMarks, keep d = true)
    (h : scan context first c (w ++ t) = .ok (.comment, w.length))
    (ends : Token.endsBefore .comment (c :: w.filter keep) t' = true)
    (start : first = true → first' = true) :
    scan context' first' c (w.filter keep ++ t') = .ok (.comment, (w.filter keep).length) := by
  generalize length : w.length = n at h
  have scanned := h
  have kept {opening : Text} (mark : opening ⊆ commentMarks) : ∀ d ∈ opening, keep d = true :=
    fun d member => marks d (mark member)
  cases scanned_of_scan scanned with
  | hashbang begins hash =>
    subst begins hash
    rw [Token.endsBefore_lineComment fun slash => absurd slash (by decide)] at ends
    rw [start rfl, scan_hashbang, head?_eq_iff_starts]
    exact lineComment_ended (by decide) (kept (by decide))
      (head?_eq_iff_starts.1 (scan_hashbang.1 h).1) length.symm ends
  | lineComment opens next =>
    subst opens
    rw [head?_eq_iff_starts] at next
    obtain ⟨v, -, same⟩ := opening_kept (kept (by decide)) next
      (length ▸ lineCommentLength_prefix (by decide) next)
    rw [Token.endsBefore_lineComment fun _ => by simp [same, (by decide : ofChar '/' ≠ ofChar '*')]]
      at ends
    obtain ⟨next, again⟩ := lineComment_ended (by decide) (kept (by decide)) next length.symm ends
    rw [scan_lineComment next, again]
  | @blockComment body opens next found =>
    subst opens
    rw [head?_eq_iff_starts] at next
    obtain ⟨v, -, same⟩ := opening_kept (kept (by decide)) next (by simp [length])
    rw [Token.endsBefore_comment, if_pos (by simp [same]), decide_eq_true_eq, same] at ends
    have count : (v.filter keep).length = ([ofChar '*'] ++ v.filter keep).length - 1 := by simp
    have again : blockCommentLength? (v.filter keep ++ t') = some (v.filter keep).length :=
      blockCommentLength?_same (count ▸ ends) (by simp [Same])
    rw [same, List.append_assoc, scan_blockComment (List.prefix_append ..), List.singleton_append,
      List.tail_cons, again]
    rfl
  | markupComment opens next =>
    subst opens
    rw [Token.endsBefore_lineComment fun slash => absurd slash (by decide)] at ends
    obtain ⟨next, same⟩ := lineComment_ended (by decide) (kept (by decide)) next length.symm ends
    rw [scan_markupComment next, same]

/-- The longest run of characters of an identifier is all of such characters and no other follows. -/
theorem partsLength_run (h : partsLength (w ++ t) = w.length) :
    (∀ c ∈ w, c.isIdentifierPart = true) ∧ t.head?.any isIdentifierPart = false := by
  induction w with
  | nil =>
    cases t with
    | nil => simp
    | cons d t =>
      rw [List.nil_append, partsLength] at h
      split at h
      · cases h
      · rename_i other
        exact ⟨by simp, by simpa using other⟩
  | cons d w ih =>
    rw [List.cons_append, partsLength] at h
    split at h
    · obtain ⟨parts, ends⟩ := ih (Nat.succ.inj h)
      exact ⟨List.forall_mem_cons.2 ⟨by assumption, parts⟩, ends⟩
    · cases h

theorem name_ends {found : Name} (read : name t = .ok found) :
    Text.continuesWord (t.drop found.length) = false := by
  induction t using name.induct generalizing found with
  | case1 =>
    rw [name] at read
    cases read
    rfl
  | case2 rest fault failed =>
    rw [name, if_pos rfl, failed] at read
    cases read
  | case3 rest d length escaped fault failed =>
    rw [name, if_pos rfl, escaped] at read
    simp only [failed] at read
    cases read
  | case4 rest d length escaped later read' ih =>
    rw [name, if_pos rfl, escaped] at read
    simp only [read', Except.ok.injEq] at read
    subst read
    have ends := ih read'
    rwa [List.drop_drop, Nat.add_comm] at ends
  | case5 d rest bare part fault failed =>
    rw [name, if_neg bare, if_pos part, failed] at read
    cases read
  | case6 d rest bare part later read' ih =>
    rw [name, if_neg bare, if_pos part, read'] at read
    cases read
    exact ih read'
  | case7 d rest bare part =>
    rw [name, if_neg bare, if_neg part] at read
    cases read
    simp [Text.continuesWord, part, bare]

/-- What stands within digits and bars is one of them. -/
theorem isWhole_head {k : Nat} {d : CodePoint} (whole : isWhole (t.take n) = true) (within : k < n)
    (front : (t.drop k).head? = some d) : (d.isDigit || d = '_') = true := by
  have member : d ∈ t.take n := by
    rw [List.head?_drop] at front
    exact List.mem_of_getElem? (i := k) (by rw [List.getElem?_take, if_pos within, front])
  exact List.all_eq_true.1 whole d member

theorem radix?_letter {radix : Radix} (h : radix? t = some radix) :
    ∃ d, (t.drop 1).head? = some d ∧ (d.isDigit || d = '_') = false := by
  rcases t with _ | ⟨zero, _ | ⟨d, rest⟩⟩
  · cases h
  · cases h
  · refine ⟨d, rfl, ?_⟩
    simp only [radix?, Radix.ofLetter?] at h
    repeat' split at h
    all_goals first
      | cases h; done
      | simp only [Bool.or_eq_true, decide_eq_true_eq] at *
        rename_i letter
        obtain rfl | rfl := letter <;> decide

theorem exponentLength_letter (found : exponentLength t = .ok n) (present : n ≠ 0) :
    ∃ d, t.head? = some d ∧ (d.isDigit || d = '_') = false := by
  cases letter : t.head?.any fun (c : CodePoint) => c = 'e' || c = 'E' with
  | false =>
    rw [exponentLength_plain letter] at found
    exact absurd (Except.ok.inj found).symm present
  | true =>
    obtain ⟨d, front, letter⟩ := (Option.any_eq_true _ _).1 letter
    simp only [Bool.or_eq_true, decide_eq_true_eq] at letter
    exact ⟨d, front, by obtain rfl | rfl := letter <;> decide⟩

/-- Digits and bars that are a magnitude do not stop at a point. -/
theorem magnitudeLength_point (found : magnitudeLength t = .ok n)
    (whole : isWhole (t.take n) = true) : (t.drop n).head? ≠ some (ofChar '.') := by
  have other {k : Nat} {d : CodePoint} (within : k < n) (front : (t.drop k).head? = some d)
      (mixed : (d.isDigit || d = '_') = false) : False :=
    Bool.false_ne_true (mixed.symm.trans (isWhole_head whole within front))
  rw [magnitudeLength] at found
  split at found
  · rename_i radix base
    obtain ⟨d, front, mixed⟩ := radix?_letter base
    split at found
    · cases found
    · cases found
      exact (other (by omega) front mixed).elim
  · simp only [decimalLength, bind, Except.bind] at found
    split at found
    · cases found
    rename_i exponent tail
    cases found
    generalize digitsLength CodePoint.isDigit false t = digits at *
    intro point
    have fraction : fractionLength (t.drop digits) = 0 := by
      refine Decidable.byContradiction fun present => ?_
      by_cases opens : (t.drop digits).head? = some (ofChar '.')
      · exact other (by omega) opens (by decide)
      · exact present (fractionLength_plain opens)
    rw [fraction, Nat.add_zero] at tail other point
    obtain rfl : exponent = 0 := by
      refine Decidable.byContradiction fun present => ?_
      obtain ⟨d, front, mixed⟩ := exponentLength_letter tail present
      exact other (by omega) front mixed
    rw [Nat.add_zero] at point
    obtain ⟨rest, behind⟩ := List.head?_eq_some_iff.1 point
    rw [behind] at fraction
    cases fraction

theorem number_point (found : number t = .ok (kind, n)) (whole : isWhole (t.take n) = true) :
    (t.drop n).head? ≠ some (ofChar '.') := by
  cases hm : magnitudeLength t with
  | error cause =>
    simp only [number, bind, Except.bind, hm] at found
    cases found
  | ok magnitude =>
    rw [number_eq hm rfl] at found
    split at found
    · cases found
    cases found
    by_cases big : (t.drop magnitude).head? = some (ofChar 'n')
    · have digit := isWhole_head whole (by simp [big]) big
      cases digit
    · simp only [big, decide_false, Bool.toNat_false, Nat.add_zero] at whole ⊢
      exact magnitudeLength_point hm whole

/-- A comment that is read in front of a text ends before it. -/
theorem endsBefore_of_comment (h : scan context first c (w ++ t) = .ok (.comment, w.length)) :
    Token.endsBefore .comment (c :: w) t = true := by
  generalize length : w.length = n at h
  cases scanned_of_scan h with
  | hashbang begins hash =>
    rw [Token.endsBefore_lineComment fun slash => absurd (hash.symm.trans slash) (by decide)]
    exact (lineCommentLength_iff.1 length.symm).2
  | lineComment opens next =>
    refine (Token.endsBefore_lineComment fun _ star => ?_).trans
      (lineCommentLength_iff.1 length.symm).2
    obtain ⟨v, rfl⟩ := List.head?_eq_some_iff.1 star
    have other : ofChar '*' = ofChar '/' := by simpa using next
    exact absurd other (by decide)
  | markupComment opens next =>
    rw [Token.endsBefore_lineComment fun slash => absurd (opens.symm.trans slash) (by decide)]
    exact (lineCommentLength_iff.1 length.symm).2
  | @blockComment body opens next found =>
    obtain ⟨d, v, rfl⟩ := List.exists_cons_of_length_eq_add_one length
    obtain rfl : d = ofChar '*' := by simpa using next
    rw [Token.endsBefore_comment, if_pos (by simp [opens]), decide_eq_true_eq]
    obtain rfl : v.length = body := Nat.succ.inj length
    exact blockCommentLength?_same found (by simp [Same])

theorem endsBefore_of_word {text : Text}
    (h : scan context first c (w ++ t) = .ok (.word kind text, w.length)) :
    Token.endsBefore kind (c :: w) t = true := by
  obtain ⟨front, found, read, rfl, rfl, length⟩ := scan_eq_word h
  have positive := name_pos front read
  have ends := name_ends read
  have count : found.length = (c :: w).length := by
    rw [List.length_cons]
    omega
  rw [count, ← List.cons_append, List.drop_left] at ends
  rw [Token.endsBefore_word (name_isWord found), ends]
  rfl

/-- Where a token is read there is no comment. -/
theorem opensComment_of_token (h : scan context first c rest = .ok (.token kind, n)) :
    opensComment (c :: rest) = false := by
  refine Bool.eq_false_iff.2 fun comment => ?_
  rw [opensComment_cons] at comment
  simp only [Bool.or_eq_true, Bool.and_eq_true, decide_eq_true_eq, head?_eq_iff_starts,
    List.isPrefixOf_iff_prefix] at comment
  obtain (⟨rfl, next⟩ | ⟨rfl, next⟩) | ⟨rfl, next⟩ := comment
  · rw [scan_lineComment next] at h
    cases h
  · rw [scan_blockComment next] at h
    split at h <;> cases h
  · rw [scan_markupComment next] at h
    cases h

/-- A token that is read in front of a text ends before it. -/
theorem endsBefore_of_token (h : scan context first c (w ++ t) = .ok (.token kind, w.length)) :
    Token.endsBefore kind (c :: w) t = true := by
  generalize length : w.length = n at h
  have scanned := h
  cases scanned_of_scan scanned with
  | string => rfl
  | template => cases ‹ChunkEnd› <;> rfl
  | chunk => cases ‹ChunkEnd› <;> rfl
  | @number kind count front found =>
    have positive := number_pos (front.imp_right And.left) found
    obtain rfl : count = (c :: w).length := by rw [List.length_cons]; omega
    have ends := number_ends found
    have point := number_point found
    rw [← List.cons_append, List.drop_left] at ends point
    rw [List.take_left] at point
    rw [Token.endsBefore_number (number_kind found), ends]
    simpa [← imp_iff_not_or] using fun follows whole => point whole follows
  | privateName hash word =>
    rw [Token.endsBefore_name (.inl rfl), (partsLength_run length.symm).2]
    rfl
  | regex opens starts found =>
    obtain ⟨-, -, i, -, count⟩ := scan_eq_regex h
    rw [List.drop_append_of_le_length (by omega)] at count
    have flags : partsLength (w.drop (i + 1) ++ t) = (w.drop (i + 1)).length := by
      rw [List.length_drop]
      omega
    rw [Token.endsBefore_name (.inr rfl), (partsLength_run flags).2]
    rfl
  | @punctuator kind count slash brace found =>
    obtain ⟨entry, member, rfl, opens, rfl⟩ := punctuator?_mem found
    have some := punctuators_nonempty entry member
    have count : (Text.ofString entry.1).length = (c :: w).length := by
      rw [List.length_cons]
      omega
    rw [count] at found
    rw [Token.endsBefore_punctuator member]
    simp only [Bool.and_eq_true, Bool.not_eq_true', decide_eq_true_eq, Bool.and_eq_false_iff,
      decide_eq_false_iff_not]
    refine ⟨⟨found, opensComment_of_token h⟩, ?_⟩
    rw [← imp_iff_not_or, show Text.ofString "." = [ofChar '.'] by decide]
    rintro ⟨rfl, rfl⟩
    refine Bool.eq_false_iff.2 fun digit => ?_
    rw [List.nil_append, scan_digit (.inr ⟨rfl, digit⟩)] at h
    split at h
    · rename_i own length number
      obtain rfl : own = entry.2 := by simpa using congrArg Prod.fst (Except.ok.inj h)
      have literal : entry.2 ∈ literalKinds := by
        rcases number_kind number with same | same <;> rw [same] <;> decide
      exact absurd literal (punctuators_literal entry member)
    · cases h

end Lexeme

/-- A token that is read where it stands ends before what follows. -/
theorem Token.endsBefore_of_scan {comments : CommentPolicy} {context : LexContext} {first : Bool}
    {c : CodePoint} {w t : Text} {lexeme : Lexeme} {span : Span} {token : Token}
    (h : Lexeme.scan context first c (w ++ t) = .ok (lexeme, w.length))
    (found : Item.token? comments context span ⟨lexeme, c :: w⟩ = some token) :
    Token.endsBefore token.kind (c :: w) t = true := by
  cases lexeme with
  | blank => cases found
  | newline => cases found
  | comment =>
    cases comments <;> cases found
    exact Lexeme.endsBefore_of_comment h
  | word kind text =>
    cases found
    exact Lexeme.endsBefore_of_word h
  | token kind =>
    cases found
    exact Lexeme.endsBefore_of_token h

namespace Lexeme

open Text

variable {context context' : LexContext} {first first' : Bool} {c : CodePoint} {w t t' : Text}
  {kind : TokenKind}

theorem opensComment_spaced (h : opensComment (w ++ t) = false) (spaced : Spaced t') :
    opensComment (w ++ t') = false := by
  simp only [opensComment, List.any_eq_false, List.isPrefixOf_iff_prefix] at h ⊢
  intro opening member found
  have plain := (by decide : ∀ opening ∈ ["//", "/*", "<!--"],
    ∀ c ∈ Text.ofString opening, c ≠ ofChar ' ' ∧ c ≠ ofChar '\n') opening member
  exact h opening member ((spaced.of_prefix plain found).trans (List.prefix_append ..))

/-- What ends before some text ends before every space, but for comments. -/
theorem endsBefore_spaced (h : Token.endsBefore kind w t = true) (other : kind ≠ .comment)
    (spaced : Spaced t') : Token.endsBefore kind w t' = true := by
  rw [Token.endsBefore] at h ⊢
  split at h
  · rw [if_pos (by assumption), continuesWord_spaced spaced]
    rfl
  rw [if_neg (by assumption)]
  split at h
  · rw [if_pos (by assumption), spaceFree_isIdentifierPart.head spaced]
    rfl
  rw [if_neg (by assumption)]
  split at h
  · have point : t'.head? ≠ some (ofChar '.') := by
      obtain ⟨d, later, rfl, rfl | rfl⟩ := spaced <;> exact nofun
    rw [if_pos (by assumption), runsOn_spaced spaced, decide_eq_false point]
    rfl
  rw [if_neg (by assumption)]
  split at h
  · simp only [Bool.and_eq_true, Bool.not_eq_true', decide_eq_true_eq] at h
    obtain ⟨⟨longest, comment⟩, -⟩ := h
    rw [if_pos (by assumption), punctuator?_spaced longest spaced, opensComment_spaced comment spaced,
      spaceFree_isDigit.head spaced]
    simp
  · rw [if_neg (by assumption), if_neg other]

/-- What is no word is read before every space, in every context that allows the same of a slash
and a closing brace. -/
theorem scan_token_spaced (h : scan context first c (w ++ t) = .ok (.token kind, w.length))
    (spaced : Spaced t') (slash : context'.regexMayStart = context.regexMayStart)
    (brace : context'.closesSubstitution = context.closesSubstitution) :
    scan context' first' c (w ++ t') = .ok (.token kind, w.length) :=
  scan_token_ended h (endsBefore_spaced (endsBefore_of_token h) (scan_token_kind h).1 spaced) slash
    brace

/-- A comment that reaches to the end of a text is the same if a line feed follows. -/
theorem scan_comment_feed (h : scan context first c w = .ok (.comment, w.length)) (more : Text) :
    scan context first c (w ++ ofChar '\n' :: more) = .ok (.comment, w.length) := by
  have whole : w.filter (fun _ => true) = w := by simp
  have own : scan context first c (w ++ []) = .ok (.comment, w.length) := by rwa [List.append_nil]
  have ends : Token.endsBefore .comment (c :: w) (ofChar '\n' :: more) = true := by
    have ends := endsBefore_of_comment own
    rw [Token.endsBefore_comment] at ends ⊢
    split at ends
    · rwa [if_pos (by assumption)]
    · rw [if_neg (by assumption)]
      rfl
  have again : scan context first c (w.filter (fun _ => true) ++ ofChar '\n' :: more) =
      .ok (.comment, (w.filter fun _ => true).length) :=
    scan_comment_ended (fun _ _ => rfl) own (whole.symm ▸ ends) id
  rwa [whole] at again

end Lexeme

end Uncurry