import Uncurry.Proofs.Lexical.Escapes

/-!
# The identifiers of a source

Outside of quotations and comments a backslash is the first character of an escape in an identifier.
`identifier_escapes` says what the escape of an accepted source may be, and with
`unchecked_identifier` that this is more than the escape of a name may be.
-/
namespace Uncurry

/-- A text may be the name of something: its first character starts identifiers, and all may stand
in one. -/
def Text.IsIdentifierName (t : Text) : Prop :=
  t.startsWord = true ∧ ∀ c ∈ t, c.isIdentifierPart = true

variable {comments : CommentPolicy} {context context' : LexContext} {first : Bool} {here : Location}
  {source before tail t : Text} {items : List Item} {tokens : List Token}

namespace Lexeme

open Text (Plain plain_cons)

variable {c : CodePoint} {rest text : Text} {lexeme : Lexeme} {kind : TokenKind} {n : Nat}

theorem plain_digits {isDigit : CodePoint → Bool} (other : isDigit (CodePoint.ofChar '\\') = false)
    (afterDigit : Bool) (t : Text) : Plain (t.take (digitsLength isDigit afterDigit t)) := by
  induction t generalizing afterDigit with
  | nil => simp [Plain]
  | cons c t ih =>
    rw [digitsLength]
    split
    · rename_i digit
      refine plain_cons (fun same => ?_) (ih true)
      rw [same, other] at digit
      cases digit
    split
    · rename_i bar
      simp only [Bool.and_eq_true, decide_eq_true_eq] at bar
      exact plain_cons (by rw [bar.1.1]; decide) (ih afterDigit)
    · simp [Plain]

theorem plain_fraction (t : Text) : Plain (t.take (fractionLength t)) := by
  cases t with
  | nil => simp [Plain]
  | cons c t =>
    rw [fractionLength]
    split
    · rename_i point
      exact plain_cons (by rw [point]; decide) (plain_digits (by decide) false t)
    · simp [Plain]

theorem plain_exponent (h : exponentLength t = .ok n) : Plain (t.take n) := by
  cases t with
  | nil => simp [Plain]
  | cons c t =>
    simp only [exponentLength] at h
    split at h
    · rename_i letter
      simp only [Bool.or_eq_true, decide_eq_true_eq] at letter
      have signed : Plain (t.take (if t.head?.any (fun (d : CodePoint) => d = '+' || d = '-') = true
          then 1 else 0)) := by
        split
        · rename_i sign
          cases t with
          | nil => simp [Plain]
          | cons d t =>
            rw [List.head?_cons, Option.any_some, Bool.or_eq_true, decide_eq_true_eq,
              decide_eq_true_eq] at sign
            exact plain_cons (by rcases sign with rfl | rfl <;> decide) (by simp [Plain])
        · simp [Plain]
      generalize (if t.head?.any (fun (d : CodePoint) => d = '+' || d = '-') = true then 1
        else 0) = sign at h signed
      have digits := plain_digits (by decide : CodePoint.isDigit _ = false) false (t.drop sign)
      split at h
      · cases h
      · cases h
        rw [Nat.add_assoc, Nat.add_comm 1]
        exact plain_cons (by rcases letter with rfl | rfl <;> decide) (signed.take_add digits)
    · cases h
      simp [Plain]

theorem plain_magnitude (h : magnitudeLength t = .ok n) : Plain (t.take n) := by
  rw [magnitudeLength] at h
  split at h
  · rename_i radix chosen
    have other : radix.isDigit (CodePoint.ofChar '\\') = false := by cases radix <;> decide
    have digits := plain_digits other false (t.drop 2)
    have opening : Plain (t.take 2) := by
      rcases t with _ | ⟨c, _ | ⟨d, later⟩⟩
      · cases chosen
      · cases chosen
      by_cases zero : c = '0'
      · refine plain_cons (by rw [zero]; decide) (plain_cons ?_ (by simp [Plain]))
        rintro rfl
        rw [radix?, if_pos zero] at chosen
        cases chosen
      · rw [radix?, if_neg zero] at chosen
        cases chosen
    split at h
    · cases h
    · cases h
      exact opening.take_add digits
  · simp only [decimalLength, bind, Except.bind] at h
    split at h
    · cases h
    · rename_i exponent
      cases h
      exact ((plain_digits (by decide) false t).take_add (plain_fraction _)).take_add
        (plain_exponent exponent)

theorem plain_number (h : number t = .ok (kind, n)) : Plain (t.take n) := by
  cases hm : magnitudeLength t with
  | error cause =>
    simp only [number, bind, Except.bind, hm] at h
    cases h
  | ok magnitude =>
    generalize hb : decide ((t.drop magnitude).head? = some (CodePoint.ofChar 'n')) = big
    rw [number_eq hm hb] at h
    split at h
    · cases h
    cases h
    refine (plain_magnitude hm).take_add ?_
    cases big with
    | false => simp [Plain]
    | true =>
      obtain ⟨later, suffix⟩ := List.head?_eq_some_iff.1 (of_decide_eq_true hb)
      rw [suffix]
      exact plain_cons (by decide) (by simp [Plain])

theorem plain_parts (t : Text) : Plain (t.take (partsLength t)) := by
  rw [partsLength_eq, ← List.prefix_iff_eq_take.1 (List.takeWhile_prefix _)]
  exact fun member => CodePoint.ne_backslash_of_isIdentifierPart (List.mem_takeWhile_imp member) rfl

theorem punctuators_bare : ∀ entry ∈ TokenKind.punctuators, Plain (Text.ofString entry.1) := by
  decide

theorem plain_punctuator (h : punctuator? t = some (kind, n)) : Plain (t.take n) := by
  obtain ⟨entry, member, _, front, rfl⟩ := punctuator?_mem h
  rw [← (List.prefix_iff_eq_take.1 (List.isPrefixOf_iff_prefix.1 front))]
  exact punctuators_bare entry member

/-- The tokens besides identifiers in which a backslash may stand. -/
def quotationKinds : List TokenKind :=
  [.string, .regex, .template, .templateHead, .templateMiddle, .templateTail]

theorem reservedWords_bare : ∀ entry ∈ TokenKind.reservedWords, Plain (Text.ofString entry.1) := by
  decide

/-- A lexeme with a backslash in it is a comment, a quotation or an identifier. -/
theorem scan_backslash (h : scan context first c rest = .ok (lexeme, n))
    (inside : CodePoint.ofChar '\\' ∈ c :: rest.take n) :
    lexeme = .comment ∨ (∃ kind ∈ quotationKinds, lexeme = .token kind) ∨
      ∃ text, lexeme = .word .identifier text := by
  have whole {length : Nat} (positive : 0 < length) :
      (c :: rest).take length = c :: rest.take (length - 1) := by
    rw [← Nat.sub_add_cancel positive, List.take_succ_cons, Nat.add_sub_cancel]
  have quotation {kind : TokenKind} (member : kind ∈ quotationKinds) :
      Lexeme.token kind = .comment ∨ (∃ kind' ∈ quotationKinds, Lexeme.token kind = .token kind') ∨
        ∃ text, Lexeme.token kind = .word .identifier text := .inr (.inl ⟨kind, member, rfl⟩)
  cases scanned_of_scan h with
  | hashbang | lineComment | blockComment | markupComment => exact .inl rfl
  | newline line =>
    refine absurd inside (plain_cons (fun same => ?_) (by simp [Plain]))
    subst same
    revert line
    decide
  | blank _ blank =>
    refine absurd inside (plain_cons (fun same => ?_) (by simp [Plain]))
    subst same
    revert blank
    decide
  | string | regex => exact quotation (by decide)
  | template | chunk => exact quotation (by cases ‹ChunkEnd› <;> decide)
  | number front found =>
    exact absurd inside (whole (number_pos (front.imp_right And.left) found) ▸ plain_number found)
  | @word found front read =>
    rcases name_kind found with identifier | ⟨unescaped, entry, member, _, spelling⟩
    · exact .inr (.inr ⟨_, by rw [identifier]⟩)
    · rcases name_written read with ⟨_, written⟩ | ⟨escaped, _⟩
      · rw [whole (name_pos front read), spelling] at written
        exact absurd inside (written ▸ reservedWords_bare entry member)
      · rw [escaped] at unescaped
        cases unescaped
  | privateName hash =>
    exact absurd inside (plain_cons (by rw [hash]; decide) (plain_parts rest))
  | punctuator _ _ found =>
    exact absurd inside (whole (punctuator?_le found).1 ▸ plain_punctuator found)

namespace NamePiece

/-- The escapes of a row of characters denote what may stand in an identifier, at its start if they
are there. -/
def Allowed (pieces : List NamePiece) : Prop :=
  (∀ escape c later, pieces = .escaped escape c :: later → c.isIdentifierStart = true) ∧
    ∀ escape c, .escaped escape c ∈ pieces → c.isIdentifierPart = true

theorem AllRead.mem {pieces : List NamePiece} (h : AllRead pieces t) {piece : NamePiece}
    (member : piece ∈ pieces) : ∃ behind, piece.Read behind := by
  induction pieces with
  | nil => cases member
  | cons own pieces ih =>
    rcases List.mem_cons.1 member with rfl | member
    · exact ⟨_, h.1⟩
    · exact ih h.2 member

/-- A backslash in a row of characters is the first character of an escape. -/
theorem AllRead.backslash {pieces : List NamePiece} (h : AllRead pieces t) {i : Nat}
    (found : (pieces.flatMap written)[i]? = some (CodePoint.ofChar '\\')) :
    ∃ front escape c back, pieces = front ++ .escaped escape c :: back ∧
      i = (front.flatMap written).length := by
  induction pieces generalizing i with
  | nil => cases found
  | cons piece pieces ih =>
    obtain ⟨own, later⟩ := h
    rw [List.flatMap_cons] at found
    by_cases behind : piece.written.length ≤ i
    · rw [List.getElem?_append_right behind] at found
      obtain ⟨front, escape, c, back, rfl, place⟩ := ih later found
      refine ⟨piece :: front, escape, c, back, rfl, ?_⟩
      rw [List.flatMap_cons, List.length_append]
      omega
    · rw [not_le] at behind
      rw [List.getElem?_append_left behind] at found
      cases piece with
      | plain c =>
        obtain rfl : i = 0 := Nat.lt_one_iff.1 behind
        exact absurd (Option.some.inj found) (CodePoint.ne_backslash_of_isIdentifierPart own)
      | escaped escape c =>
        exact ⟨[], escape, c, pieces, rfl, Escape.written_plain own.1 found⟩

end NamePiece

/-- A word is a row of characters, and the first starts identifiers if it is written as itself. -/
theorem scan_word_pieces {w : Text}
    (h : scan context first c (w ++ t) = .ok (.word kind text, w.length)) :
    ∃ pieces : List NamePiece, c :: w = pieces.flatMap NamePiece.written ∧
      text = pieces.map NamePiece.char ∧ NamePiece.AllRead pieces t ∧ pieces ≠ [] ∧
      ∀ d later, pieces = .plain d :: later → d.isIdentifierStart = true := by
  obtain ⟨front, found, read, _, rfl, length⟩ := scan_eq_word h
  have positive := name_pos front read
  obtain ⟨pieces, split, whole, spelling, all⟩ := name_pieces read
  have length : found.length = (c :: w).length := by
    rw [List.length_cons]
    omega
  rw [length, ← List.cons_append, List.drop_left] at split all
  have written : c :: w = pieces.flatMap NamePiece.written := List.append_cancel_right split
  refine ⟨pieces, written, spelling, all, ?_, ?_⟩
  · rintro rfl
    cases written
  · rintro d later rfl
    obtain ⟨rfl, _⟩ := List.cons.inj written
    exact front.resolve_right (CodePoint.ne_backslash_of_isIdentifierPart all.1)

end Lexeme

open Lexeme

/-- An identifier is written in a source as a row of characters, which are those of its text. -/
structure Token.PiecedIn (source : Text) (token : Token) (pieces : List NamePiece) : Prop where
  written : token.writtenIn source = pieces.flatMap NamePiece.written
  text : token.text = pieces.map NamePiece.char
  read : NamePiece.AllRead pieces (source.drop token.stop.offset)
  nonempty : pieces ≠ []
  starts : ∀ c later, pieces = .plain c :: later → c.isIdentifierStart = true

namespace Token.PiecedIn

variable {token : Token} {pieces : List NamePiece}

/-- An identifier is the name of something just if its escapes allow it. -/
theorem isIdentifierName_iff (h : token.PiecedIn source pieces) :
    token.text.IsIdentifierName ↔ NamePiece.Allowed pieces := by
  obtain ⟨piece, later, rfl⟩ := List.exists_cons_of_ne_nil h.nonempty
  rw [h.text]
  have parts : (∀ c ∈ (piece :: later).map NamePiece.char, c.isIdentifierPart = true) ↔
      ∀ escape c, .escaped escape c ∈ piece :: later → c.isIdentifierPart = true := by
    rw [List.forall_mem_map]
    refine ⟨fun all escape c member => all _ member, fun all own member => ?_⟩
    cases own with
    | plain c =>
      obtain ⟨_, part⟩ := h.read.mem member
      exact part
    | escaped escape c => exact all escape c member
  refine and_congr ?_ parts
  rw [List.map_cons, Text.startsWord, List.head?_cons, Option.any_some]
  cases piece with
  | plain c => exact iff_of_true (h.starts c later rfl) (by simp)
  | escaped escape c =>
    refine ⟨fun start escape' c' later' same => ?_, fun starts => starts escape c later rfl⟩
    cases same
    exact start

/-- A well-formed escape of an identifier denotes the code point of its digits. -/
theorem val_eq (h : token.PiecedIn source pieces) {escape : Escape} {c : CodePoint}
    (member : .escaped escape c ∈ pieces) (wellFormed : escape.WellFormed) :
    c.val = escape.digits.hexValue := by
  obtain ⟨_, number, _⟩ := h.read.mem member
  rw [wellFormed.read] at number
  exact Int.ofNat.inj (Option.some.inj number).symm

end Token.PiecedIn

namespace Item

/-- The identifiers of a text are rows of characters. -/
theorem code_pieced (place : here.offset = before.length)
    (reads : Reads context first items [] context') :
    ∀ token ∈ code comments context here items, token.kind = .identifier →
      ∃ pieces, token.PiecedIn (before ++ textOf items) pieces := by
  induction items generalizing context here first before with
  | nil => simp [code]
  | cons item items ih =>
    have place' := place_append item items place
    cases reads with
    | @cons _ _ _ lexeme c w _ _ scanned later =>
    refine List.forall_mem_append.2 ⟨fun token member kind => ?_, ?_⟩
    · have found := Option.mem_toList.1 member
      have span := token?_span found
      rw [List.append_nil] at scanned
      have behind : (before ++ textOf (⟨lexeme, c :: w⟩ :: items)).drop token.stop.offset =
          textOf items := by
        rw [Token.stop, span, place', textOf_cons, ← List.append_assoc, List.drop_left]
      cases lexeme with
      | word own text =>
        obtain ⟨pieces, written, spelling, read, nonempty, starts⟩ := scan_word_pieces scanned
        refine ⟨pieces, ?_, ?_, behind ▸ read, nonempty, starts⟩
        · rw [writtenIn_eq place span, ← written]
        · cases found
          exact spelling
      | token own =>
        cases found
        exact absurd kind (scan_token_kind scanned).2.1
      | comment => cases comments <;> cases found; cases kind
      | blank => cases found
      | newline => cases found
    · rw [textOf_cons, ← List.append_assoc]
      exact ih place' later

/-- The tokens of a text with a backslash are comments, quotations and identifiers. -/
theorem code_backslash (place : here.offset = before.length) (read : ∀ item ∈ items, item.IsRead) :
    ∀ token ∈ code .keep context here items,
      CodePoint.ofChar '\\' ∈ token.writtenIn (before ++ textOf items) →
      token.kind = .comment ∨ token.kind ∈ quotationKinds ∨ token.kind = .identifier := by
  induction items generalizing context here before with
  | nil => simp [code]
  | cons item items ih =>
    obtain ⟨read, later⟩ := List.forall_mem_cons.1 read
    refine List.forall_mem_append.2 ⟨fun token member inside => ?_, ?_⟩
    · have found := Option.mem_toList.1 member
      rw [writtenIn_eq place (token?_span found)] at inside
      obtain ⟨lexeme, written⟩ := item
      obtain ⟨_, _, c, w, t, rfl, scanned⟩ := read
      rcases scan_backslash scanned (by simpa using inside) with rfl | ⟨kind, quotation, rfl⟩ |
        ⟨text, rfl⟩
      · cases found
        exact .inl rfl
      · cases found
        exact .inr (.inl quotation)
      · cases found
        exact .inr (.inr rfl)
    · rw [textOf_cons, ← List.append_assoc]
      exact ih (place_append item items place) later

end Item

/-- A character of a token is one of those it is written with. -/
theorem Token.Covers.writtenIn {token : Token} {offset : Nat} {c : CodePoint}
    (h : token.Covers offset) (found : source[offset]? = some c) :
    (token.writtenIn source)[offset - token.start.offset]? = some c := by
  obtain ⟨starts, stops⟩ := h
  rw [Token.writtenIn, List.getElem?_drop, Nat.add_sub_cancel' starts,
    List.getElem?_take_of_lt stops, found]

theorem Lexeme.name_overflow (h : name t = .error .escapeOverflow) :
    ∃ front rest, t = front ++ CodePoint.ofChar '\\' :: rest ∧
      escape rest = .error .escapeOverflow := by
  fun_induction name t
  case case2 rest fault escaped =>
    cases h
    exact ⟨[], rest, rfl, escaped⟩
  case case3 rest d length escaped fault failed ih =>
    cases fault with
    | malformed => cases h
    | escapeOverflow =>
      obtain ⟨front, later, split, overflow⟩ := ih failed
      refine ⟨CodePoint.ofChar '\\' :: rest.take length ++ front, later, ?_, overflow⟩
      rw [List.append_assoc, ← split, List.cons_append, List.take_append_drop]
  case case5 c rest bare part fault failed ih =>
    cases fault with
    | malformed => cases h
    | escapeOverflow =>
      obtain ⟨front, later, rfl, overflow⟩ := ih failed
      exact ⟨c :: front, later, rfl, overflow⟩
  all_goals contradiction

/-- Only an identifier fails without a place. -/
theorem Lexeme.scan_overflow {c : CodePoint} {rest : Text}
    (h : scan context first c rest = .error .escapeOverflow) :
    name (c :: rest) = .error .escapeOverflow := by
  have quotation {kind : TokenKind} {cause : LexCause} {length : Option Nat} :
      orFault kind cause length ≠ .error .escapeOverflow := by
    cases length <;> simp [orFault]
  have template {opened : Bool} : chunk opened rest ≠ .error .escapeOverflow := by
    rw [chunk]
    split <;> simp
  revert h
  rw [scan]
  refine ite_elim (fun _ h => ?_) fun _ => ite_elim (fun _ h => ?_) fun _ =>
    ite_elim (fun _ h => ?_) fun _ => ite_elim (fun _ h => ?_) fun _ =>
    ite_elim (fun _ h => ?_) fun _ => ite_elim (fun _ h => ?_) fun _ =>
    ite_elim (fun _ h => absurd h quotation) fun _ =>
    ite_elim (fun _ h => absurd h template) fun _ =>
    ite_elim (fun _ h => ?_) fun _ => ite_elim (fun _ h => ?_) fun _ =>
    ite_elim (fun _ h => ?_) fun _ => ite_elim (fun _ h => absurd h quotation) fun _ =>
    ite_elim (fun _ h => absurd h template) fun _ h => ?_
  case refine_8 =>
    split at h
    · cases h
    · rename_i failed
      rw [failed, ← Except.error.inj h]
  all_goals
    repeat' split at h
    all_goals cases h

theorem Except.map_eq_error {ε α β : Type} {f : α → β} {r : Except ε α} {e : ε}
    (h : r.map f = .error e) : r = .error e := by
  cases r with
  | error _ => exact congrArg Except.error (Except.error.inj h)
  | ok _ => cases h

/-- A source fails without a place only where an escape is beyond all bounds. -/
theorem Token.readFrom_overflow (h : readFrom comments context here t = .error .escapeOverflow) :
    ∃ front rest, t = front ++ CodePoint.ofChar '\\' :: rest ∧
      escape rest = .error .escapeOverflow := by
  induction hn : t.length using Nat.strongRecOn generalizing t context here with
  | ind length ih =>
  cases t with
  | nil =>
    rw [readFrom] at h
    split at h <;> cases h
  | cons c rest =>
    cases scanned : scan context (here.offset = 0) c rest with
    | error fault =>
      rw [readFrom, scanned] at h
      cases fault with
      | malformed => cases h
      | escapeOverflow => exact name_overflow (scan_overflow scanned)
    | ok found =>
      obtain ⟨lexeme, n⟩ := found
      rw [readFrom_cons scanned] at h
      obtain ⟨front, later, split, overflow⟩ :=
        ih _ (by rw [← hn]; simp only [List.length_drop, List.length_cons]; omega)
          (Except.map_eq_error h) rfl
      refine ⟨c :: rest.take n ++ front, later, ?_, overflow⟩
      rw [List.append_assoc, ← split, List.cons_append, List.take_append_drop]

theorem tokenize_overflow (h : tokenize comments source = .error .escapeOverflow) :
    ∃ front escape behind value, source = front ++ Escape.written escape ++ behind ∧
      Text.HexInteger.read escape.digits = some value ∧ Unbounded value := by
  obtain ⟨front, rest, rfl, overflow⟩ := Token.readFrom_overflow h
  obtain ⟨escape, behind, value, split, number⟩ := escape_overflow overflow
  exact ⟨front, escape, behind, value, by rw [split, List.append_assoc], number⟩

/-- A source that has tokens has them with its comments as well. -/
theorem tokenize_keep (accepted : tokenize comments source = .ok tokens) :
    ∃ all, tokenize .keep source = .ok all := by
  obtain ⟨items, context', rfl, reads, closed, _⟩ := Token.exists_reads accepted
  exact ⟨_, Token.readFrom_of_reads reads closed⟩

theorem tokenize_pieced (accepted : tokenize comments source = .ok tokens) :
    ∀ token ∈ tokens, token.kind = .identifier → ∃ pieces, token.PiecedIn source pieces := by
  obtain ⟨items, context', rfl, reads, _, rfl⟩ := Token.exists_reads accepted
  obtain ⟨stop, newline, _, same⟩ := Item.tokens_eq comments .initial .origin items
  rw [same]
  have origin : Location.origin.offset = ([] : Text).length := rfl
  exact List.forall_mem_append.2 ⟨Item.code_pieced origin reads, by simp⟩

theorem tokenize_backslash (kept : tokenize .keep source = .ok tokens) :
    ∀ token ∈ tokens, CodePoint.ofChar '\\' ∈ token.writtenIn source →
      token.kind = .comment ∨ token.kind ∈ quotationKinds ∨ token.kind = .identifier := by
  obtain ⟨items, context', rfl, reads, _, rfl⟩ := Token.exists_reads kept
  obtain ⟨stop, newline, place, same⟩ := Item.tokens_eq .keep .initial .origin items
  rw [same]
  have origin : Location.origin.offset = ([] : Text).length := rfl
  refine List.forall_mem_append.2 ⟨Item.code_backslash origin reads.isRead, ?_⟩
  have empty : (Item.textOf items).drop stop.offset = [] :=
    List.drop_eq_nil_of_le (by rw [place]; exact Nat.le_add_left _ _)
  simp [Token.writtenIn, Token.start, Token.stop, List.drop_take, empty]

/-- The backslash at an offset of a source is one of a comment or a quotation, or the first
character of an escape of an identifier. -/
def Token.HoldsBackslash (source : Text) (offset : Nat) (token : Token) : Prop :=
  token.Covers offset ∧ (token.kind = .comment ∨ token.kind ∈ quotationKinds ∨
    token.kind = .identifier ∧ ∃ front escape c back,
      token.PiecedIn source (front ++ .escaped escape c :: back) ∧
        offset = token.start.offset + (front.flatMap NamePiece.written).length)

/-- Every identifier of a source is a row of characters and of escapes that are read as integers. It
may be the name of something just if its escapes allow it, which nothing asks for; an escape of the
form that the grammar has denotes the code point of its digits. Every backslash outside of
quotations and comments belongs to such an escape, and a source with another one has no tokens. -/
theorem identifier_escapes (comments : CommentPolicy) (source : Text) :
    (∀ tokens, tokenize comments source = .ok tokens →
      (∀ token ∈ tokens, token.kind = .identifier → ∃ pieces, token.PiecedIn source pieces ∧
        (token.text.IsIdentifierName ↔ NamePiece.Allowed pieces) ∧
        ∀ escape c, .escaped escape c ∈ pieces → escape.WellFormed →
          c.val = escape.digits.hexValue) ∧
      ∃ all, tokenize .keep source = .ok all ∧
        ∀ offset, source[offset]? = some (CodePoint.ofChar '\\') →
          ∃ token ∈ all, token.HoldsBackslash source offset) ∧
    ∀ failure, tokenize comments source = .error failure → (∃ error, failure = .malformed error) ∨
      failure = .escapeOverflow ∧ ∃ front escape behind value,
        source = front ++ Escape.written escape ++ behind ∧
          Text.HexInteger.read escape.digits = some value ∧ Unbounded value := by
  constructor
  · intro tokens accepted
    refine ⟨fun token member kind => ?_, ?_⟩
    · obtain ⟨pieces, row⟩ := tokenize_pieced accepted token member kind
      exact ⟨pieces, row, row.isIdentifierName_iff, fun _ _ => row.val_eq⟩
    · obtain ⟨all, kept⟩ := tokenize_keep accepted
      refine ⟨all, kept, fun offset backslash => ?_⟩
      obtain ⟨code, stop, newline, same, _, _, _, covered, _⟩ := tokenize_keep_covers kept
      obtain ⟨token, member, covers⟩ | layout := covered offset _ backslash
      · have inside := covers.writtenIn backslash
        have own : token ∈ all := same ▸ List.mem_append_left _ member
        refine ⟨token, own, covers, ?_⟩
        obtain comment | quotation | kind :=
          tokenize_backslash kept token own (List.mem_of_getElem? inside)
        · exact .inl comment
        · exact .inr (.inl quotation)
        · obtain ⟨pieces, row⟩ := tokenize_pieced kept token own kind
          rw [row.written] at inside
          obtain ⟨front, escape, c, back, rfl, place⟩ := row.read.backslash inside
          refine .inr (.inr ⟨kind, front, escape, c, back, row, ?_⟩)
          rw [← place, Nat.add_sub_cancel' covers.1]
      · exact absurd layout (by decide)
  · rintro failure failed
    cases failure with
    | malformed error => exact .inl ⟨error, rfl⟩
    | escapeOverflow => exact .inr ⟨rfl, tokenize_overflow failed⟩

/-- A source with two identifiers, one of them written with a character, an escape of each form and
a character again. -/
def escapedIdentifier : Text := Text.ofString "x\\u0061\\u\x7b62\x7dc = y"

/-- A source with an escape whose number no 32-bit integer holds. -/
def hugeEscape : Text := Text.ofString "a = \\u\x7bFFFFFFFF\x7d"

theorem identifier_escapes_both :
    (∃ tokens, tokenize .skip escapedIdentifier = .ok tokens ∧ ∃ token ∈ tokens,
      token.text = Text.ofString "xabc" ∧ ∃ pieces, token.PiecedIn escapedIdentifier pieces ∧
        NamePiece.Allowed pieces) ∧
    ∃ front escape behind value, hugeEscape = front ++ Escape.written escape ++ behind ∧
      Text.HexInteger.read escape.digits = some value ∧ Unbounded value := by
  have read : (tokenize .skip escapedIdentifier).toOption.any (fun tokens => tokens.any fun token =>
      decide (token.kind = .identifier ∧ token.text = Text.ofString "xabc")) = true := by
    decide +kernel
  obtain ⟨tokens, found, some⟩ := (Option.any_eq_true _ _).1 read
  obtain ⟨token, member, own⟩ := List.any_eq_true.1 some
  obtain ⟨kind, text⟩ := of_decide_eq_true own
  have accepted := eq_ok_of_toOption found
  obtain ⟨pieces, row, name, _⟩ :=
    ((identifier_escapes .skip escapedIdentifier).1 tokens accepted).1 token member kind
  refine ⟨⟨tokens, accepted, token, member, text, pieces, row, name.1 ?_⟩, ?_⟩
  · rw [text]
    exact ⟨by decide, by decide⟩
  · have failed : tokenize .skip hugeEscape = .error .escapeOverflow := by
      decide +kernel
    rcases (identifier_escapes .skip hugeEscape).2 _ failed with ⟨error, same⟩ | ⟨_, huge⟩
    · cases same
    · exact huge

/-- A source with an escape that no grammar of names has. -/
def spaceEscape : Text := Text.ofString "\\u\x7b0x20\x7d"

/-- There is an identifier that is the name of nothing, and its escape is not well-formed. -/
theorem unchecked_identifier : ∃ tokens, tokenize .skip spaceEscape = .ok tokens ∧
    ∃ token ∈ tokens, token.kind = .identifier ∧ ¬token.text.IsIdentifierName ∧
      ∃ escape, token.writtenIn spaceEscape = Escape.written escape ∧ ¬escape.WellFormed := by
  have read : (tokenize .skip spaceEscape).toOption.any (fun tokens => tokens.any fun token =>
      decide (token.kind = .identifier ∧ token.text = Text.ofString " " ∧
        token.writtenIn spaceEscape = spaceEscape)) = true := by
    decide +kernel
  obtain ⟨tokens, found, some⟩ := (Option.any_eq_true _ _).1 read
  obtain ⟨token, member, own⟩ := List.any_eq_true.1 some
  obtain ⟨kind, text, written⟩ := of_decide_eq_true own
  refine ⟨tokens, eq_ok_of_toOption found, token, member, kind, ?_,
    .braced (Text.ofString "0x20") true, written.trans (by decide), ?_⟩
  · rw [text]
    exact fun name => absurd name.1 (by decide)
  · exact fun wellFormed => absurd (wellFormed.2.2 (CodePoint.ofChar 'x') (by decide)) (by decide)

end Uncurry
