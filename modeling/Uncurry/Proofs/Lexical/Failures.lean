import Uncurry.Proofs.Lexical.Endings
import Uncurry.Proofs.Lexical.Identifiers
import Uncurry.Proofs.Lexical.Lines

/-!
# Where the reading of a text fails

A text without tokens is read up to some character, and there is the fault, or it ends within a
template. A text that is read to its end is read in the same way if it goes on in the next line, but
for an escape at its very end, which may take the line feed along. A backslash in the next line is a
fault that nothing behind it can mend, whether the text is read to its end (`Reads.fails_feed`) or
lacks the end of its last lexeme, which then comes before the backslash (`Reads.fails_mended`). A
regular expression whose line ends before its body does is a fault of its own in whatever lines
follow (`Reads.fails_cut`).
-/
namespace Uncurry

open CodePoint

/-- From some context on, a text has no tokens for some reason, wherever it stands. -/
def Token.Fails (context : LexContext) (first : Bool) (t : Text) (cause : LexCause) : Prop :=
  ∀ comments (here : Location), decide (here.offset = 0) = first → ∃ line column,
    Token.readFrom comments context here t = .error (.malformed ⟨cause, line, column⟩)

variable {context context' : LexContext} {first : Bool} {c : CodePoint}
  {rest written t tail more : Text} {cause : LexCause} {lexeme : Lexeme} {items : List Item}
  {n : Nat} {comments : CommentPolicy} {here : Location} {failure : LexFailure}

namespace Token.Fails

theorem ofScan (h : Lexeme.scan context first c rest = .error (.malformed cause n)) :
    Fails context first (c :: rest) cause := by
  intro comments here start
  rw [readFrom, start, h]
  exact ⟨_, _, rfl⟩

/-- What fails behind a lexeme fails from the lexeme on. -/
theorem cons (h : Lexeme.scan context first c (written ++ t) = .ok (lexeme, written.length))
    (later : Fails (context.behind ⟨lexeme, c :: written⟩) false t cause) :
    Fails context first (c :: (written ++ t)) cause := by
  intro comments here start
  rw [← start] at h
  rw [readFrom_cons h, List.take_left, List.drop_left]
  obtain ⟨line, column, failed⟩ := later comments (here.advance (c :: written) t) (by simp)
  rw [failed]
  exact ⟨line, column, rfl⟩

/-- What fails behind some items fails from the first one on. -/
theorem append (reads : Reads context first items tail context')
    (later : Fails context' (first && items.isEmpty) tail cause) :
    Fails context first (Item.textOf items ++ tail) cause := by
  induction reads with
  | nil => simpa using later
  | cons scanned reads ih =>
    rw [Item.textOf_cons, List.append_assoc]
    refine .cons scanned (ih ?_)
    rw [List.isEmpty_cons, Bool.and_false] at later
    exact later

end Token.Fails

/-- A text fails as what is left of it behind some items does. -/
theorem Reads.readFrom_error (reads : Reads context (here.offset = 0) items tail context')
    (failed : Token.readFrom comments context' (here.advance (Item.textOf items) tail) tail =
      .error failure) :
    Token.readFrom comments context here (Item.textOf items ++ tail) = .error failure := by
  induction items generalizing context here with
  | nil =>
    cases reads
    exact failed
  | cons item items ih =>
    cases reads with
    | @cons _ _ _ lexeme d written _ _ own reads =>
      rw [Item.textOf_cons, Location.advance_append] at failed
      rw [Item.textOf_cons, List.append_assoc, List.cons_append, Token.readFrom_cons own,
        List.take_left, List.drop_left, ih (by simpa using reads) failed]
      rfl

/-- A text that fails is read up to a fault, or to its end within a template. -/
theorem Token.exists_reads_error (h : readFrom comments context here t = .error failure) :
    ∃ items tail context', t = Item.textOf items ++ tail ∧
      Reads context (here.offset = 0) items tail context' ∧
      (tail = [] ∧ context'.insideTemplate = true ∧ failure = .malformed ⟨.unterminatedTemplate,
          (here.advance (Item.textOf items) tail).line,
          (here.advance (Item.textOf items) tail).column⟩ ∨
        ∃ c rest fault, tail = c :: rest ∧
          Lexeme.scan context' (here.offset = 0 && items.isEmpty) c rest = .error fault ∧
          failure = fault.locate (here.advance (Item.textOf items) tail) tail) := by
  induction hn : t.length using Nat.strongRecOn generalizing t context here with
  | ind length ih =>
  cases t with
  | nil =>
    rw [readFrom] at h
    split at h
    · rename_i opens
      cases h
      exact ⟨[], [], context, rfl, .nil .., .inl ⟨rfl, opens, rfl⟩⟩
    · cases h
  | cons c rest =>
    cases scanned : Lexeme.scan context (here.offset = 0) c rest with
    | error fault =>
      rw [readFrom, scanned] at h
      cases h
      exact ⟨[], c :: rest, context, rfl, .nil .., .inr ⟨c, rest, fault, rfl, by simpa using scanned,
        rfl⟩⟩
    | ok found =>
      obtain ⟨lexeme, n⟩ := found
      rw [readFrom_cons scanned] at h
      obtain ⟨items, tail, context', split, reads, stops⟩ :=
        ih _ (by rw [← hn]; simp only [List.length_drop, List.length_cons]; omega)
          (Except.map_eq_error h) rfl
      have within := Lexeme.scan_le scanned
      rw [split, ← Location.advance_append] at stops
      refine ⟨⟨lexeme, c :: rest.take n⟩ :: items, tail, context', ?_, .cons ?_ ?_, ?_⟩
      · rw [Item.textOf_cons, List.append_assoc, ← split]
        simp
      · rw [← split]
        simpa [Nat.min_eq_left within] using scanned
      · simpa using reads
      · simpa using stops

/-- What is left of a source behind some items fails for a cause, some characters further on: there
is a fault at its front, or nothing is left and the source ends within a template. -/
inductive Token.StopsAt (context : LexContext) (first : Bool) : Text → LexCause → Nat → Prop
  | fault {c : CodePoint} {rest : Text} {cause : LexCause} {n : Nat} :
      Lexeme.scan context first c rest = .error (.malformed cause n) →
      StopsAt context first (c :: rest) cause n
  | openTemplate : context.insideTemplate = true → StopsAt context first [] .unterminatedTemplate 0

/-- Some characters behind some items is a location of the source, counted from its start. -/
theorem Location.counted_behind (items : List Item) (tail : Text) (n : Nat) :
    ((origin.advance (Item.textOf items) tail).advance (tail.take n) (tail.drop n)).Counted
      (Item.textOf items ++ tail) := by
  have there := (standsBefore_origin (Item.textOf items ++ tail)).advance
  generalize origin.advance (Item.textOf items) tail = here at there ⊢
  rw [← List.take_append_drop n tail] at there
  simpa using there.advance.counted

/-- A source has an error just where it is read up to what fails. -/
theorem tokenize_error_iff {source : Text} {error : LexError} :
    tokenize comments source = .error (.malformed error) ↔
      ∃ items tail context n, source = Item.textOf items ++ tail ∧
        Reads .initial true items tail context ∧
        Token.StopsAt context items.isEmpty tail error.cause n ∧
        error.line = source.lineAt ((Item.textOf items).length + (tail.take n).length) ∧
        error.column = source.columnAt ((Item.textOf items).length + (tail.take n).length) := by
  constructor
  · intro failed
    obtain ⟨items, tail, context, rfl, reads, ⟨rfl, opens, same⟩ | ⟨c, rest, fault, rfl, scanned,
      same⟩⟩ := Token.exists_reads_error failed
    · have there := Location.counted_behind items [] 0
      cases same
      refine ⟨items, [], context, 0, rfl, reads, .openTemplate opens, ?_⟩
      simpa [Location.Counted, Location.origin, Location.advance] using there
    · cases fault with
      | escapeOverflow => cases same
      | malformed cause n =>
        have there := Location.counted_behind items (c :: rest) n
        cases same
        refine ⟨items, c :: rest, context, n, rfl, reads, .fault scanned, ?_⟩
        simpa [Location.Counted, Location.origin] using there
  · obtain ⟨cause, line, column⟩ := error
    rintro ⟨items, tail, context, n, rfl, reads, stops, rfl, rfl⟩
    have there := Location.counted_behind items tail n
    rw [tokenize]
    refine reads.readFrom_error ?_
    cases stops with
    | openTemplate opens =>
      rw [Token.readFrom, if_pos opens]
      simpa [Location.Counted, Location.origin, Location.advance] using there
    | @fault c rest _ _ scanned =>
      have start : decide ((Location.origin.advance (Item.textOf items) (c :: rest)).offset = 0) =
          items.isEmpty := by
        rw [Location.advance_offset]
        cases items with
        | nil => rfl
        | cons item items =>
          have := List.length_pos_iff.2 (reads.written_ne_nil item List.mem_cons_self)
          rw [Item.textOf_cons, List.length_append, List.isEmpty_cons, decide_eq_false_iff_not]
          omega
      rw [Token.readFrom, start, scanned]
      simpa [Location.Counted, Location.origin, LexemeFault.locate] using there

/-- Items in front of a text that is not empty are read in the same way if it goes on in the next
line. -/
theorem Reads.continued (h : Reads context first items tail context') (nonempty : tail ≠ [])
    (more : Text) : Reads context first items (tail ++ ofChar '\n' :: more) context' := by
  induction h with
  | nil => exact .nil ..
  | cons scanned _ ih =>
    refine .cons ?_ (ih nonempty)
    rw [← List.append_assoc (Item.textOf _)]
    exact Lexeme.scan_continued scanned more (by simp [nonempty])

/-- A line feed, and a backslash that starts no escape. -/
def Text.feed : Text := [ofChar '\n', ofChar '\\']

namespace Lexeme

open Text

/-- A backslash at the end of a text starts no escape. -/
theorem name_backslash : name [ofChar '\\'] = .error (.malformed .invalidEscape 0) := by
  rw [name, if_pos rfl]
  rfl

/-- An escape is complete, or the text ends before it is; then it is none if the text goes on in the
next line with a backslash, or it takes the line feed along. -/
theorem escape_feed {d : CodePoint} (found : escape t = .ok (d, n)) :
    (∀ t', Same n t t' → escape t' = .ok (d, n)) ∨
      t.length = n ∧ (escape (t ++ feed) = .error (.malformed .invalidEscape 0) ∨
        escape (t ++ feed) = .ok (d, n + 1)) := by
  obtain ⟨digits, value, hd, hv, valid⟩ := escape_ok.1 found
  rcases escapeDigits?_spaced hd with complete | ⟨whole, along⟩
  · exact .inl fun t' same => escape_ok.2 ⟨digits, value, complete t' same, hv, valid⟩
  refine .inr ⟨whole, ?_⟩
  obtain ⟨taken, front, some, cut⟩ := along feed (by decide)
  rcases List.prefix_cons_iff.1 front with rfl | ⟨later, rfl, back⟩
  · exact absurd rfl (some (by decide))
  rcases List.prefix_cons_iff.1 back with rfl | ⟨last, rfl, none⟩
  · have read := HexInteger.read_padded digits (c := ofChar '\n') (by decide) (by decide)
      (by decide)
    exact .inr (escape_ok.2 ⟨_, value, cut, read.trans hv, valid⟩)
  · obtain rfl := List.prefix_nil.1 none
    left
    have unread : HexInteger.read (digits ++ [ofChar '\n', ofChar '\\']) = .none := by
      cases number : HexInteger.read (digits ++ [ofChar '\n', ofChar '\\']) with
      | none => rfl
      | some value => exact absurd (by simp) (HexInteger.read_plain number)
    simp only [escape, cut, unread]

/-- A name is the same before every line feed, or it is none if a backslash follows this. -/
theorem name_feed {found : Name} (read : name t = .ok found) :
    (∀ t', Same found.length t t' → Spaced (t'.drop found.length) → name t' = .ok found) ∨
      ∃ n, name (t ++ feed) = .error (.malformed .invalidEscape n) := by
  induction t using name.induct generalizing found with
  | case1 =>
    rw [name] at read
    cases read
    refine .inl fun t' _ spaced => ?_
    obtain ⟨c, later, rfl, rfl | rfl⟩ := spaced <;> (rw [name]; rfl)
  | case2 rest fault failed =>
    rw [name, if_pos rfl, failed] at read
    cases read
  | case3 rest d length escaped fault failed =>
    rw [name, if_pos rfl, escaped] at read
    simp only [failed] at read
    cases read
  | case4 rest d length escaped later read' ih =>
    rw [name, if_pos rfl, escaped] at read
    simp only [read', Except.ok.injEq] at read
    subst read
    rcases escape_feed escaped with complete | ⟨whole, wrong | along⟩
    · rcases ih read' with complete' | ⟨n, wrong⟩
      · refine .inl fun t' same spaced => ?_
        obtain ⟨behind, rfl, same'⟩ := same.cons
        rw [Nat.add_comm] at same'
        rw [List.drop_succ_cons, Nat.add_comm, ← List.drop_drop] at spaced
        rw [name, if_pos rfl, complete behind same'.left]
        simp only [complete' _ same'.drop spaced]
      · have within := escape_le escaped
        have front : Same length rest (rest ++ feed) := by
          rw [Same, List.take_append_of_le_length within]
        refine .inr ⟨n + (length + 1), ?_⟩
        rw [List.cons_append, name, if_pos rfl, complete _ front]
        simp only [List.drop_append_of_le_length within, wrong]
        rfl
    · refine .inr ⟨0, ?_⟩
      rw [List.cons_append, name, if_pos rfl, wrong]
    · have last : (rest ++ feed).drop (length + 1) = [ofChar '\\'] := by
        rw [← whole, List.drop_append]
        simp [feed]
      refine .inr ⟨0 + (length + 1 + 1), ?_⟩
      rw [List.cons_append, name, if_pos rfl, along]
      simp only [last, name_backslash]
      rfl
  | case5 c rest bare part fault failed =>
    rw [name, if_neg bare, if_pos part, failed] at read
    cases read
  | case6 c rest bare part later read' ih =>
    rw [name, if_neg bare, if_pos part, read'] at read
    cases read
    rcases ih read' with complete | ⟨n, wrong⟩
    · refine .inl fun t' same spaced => ?_
      obtain ⟨behind, rfl, same'⟩ := same.cons
      rw [name, if_neg bare, if_pos part, complete behind same' spaced]
    · refine .inr ⟨n + 1, ?_⟩
      rw [List.cons_append, name, if_neg bare, if_pos part, wrong]
      rfl
  | case7 c rest bare part =>
    rw [name, if_neg bare, if_neg part] at read
    cases read
    refine .inl fun t' _ spaced => ?_
    obtain ⟨c, later, rfl, rfl | rfl⟩ := spaced <;> (rw [name]; rfl)

/-- A lexeme that reaches to the end of a text is read in the same way if a line feed follows, or it
is a word, which is none if the line feed is followed by a backslash. -/
theorem scan_feed (h : scan context first c written = .ok (lexeme, written.length)) :
    (∀ more, scan context first c (written ++ ofChar '\n' :: more) =
        .ok (lexeme, written.length)) ∨
      ∃ n, scan context first c (written ++ feed) = .error (.malformed .invalidEscape n) := by
  have spaced (more : Text) : Spaced (ofChar '\n' :: more) := ⟨_, more, rfl, .inr rfl⟩
  cases lexeme with
  | word kind text =>
    obtain ⟨front, found, read, rfl, rfl, length⟩ := scan_eq_word h
    have positive := name_pos front read
    have word {rest : Text} (read : name (c :: rest) = .ok found) : scan context first c rest =
        .ok (.word found.kind found.spelling, found.length - 1) := by
      rw [scan_wordStart front, read]
    have fault {rest : Text} {fault : LexemeFault} (failed : name (c :: rest) = .error fault) :
        scan context first c rest = .error fault := by
      rw [scan_wordStart front, failed]
    have count : found.length = (c :: written).length := by
      rw [List.length_cons]
      omega
    rcases name_feed read with complete | ⟨n, wrong⟩
    · refine .inl fun more => ?_
      have again := complete (c :: written ++ ofChar '\n' :: more) (by simp [Same, count])
        (by rw [count, List.drop_left]; exact spaced more)
      exact (word again).trans (by rw [length])
    · exact .inr ⟨n, fault wrong⟩
  | token kind =>
    have h' : scan context first c (written ++ []) = .ok (.token kind, written.length) := by
      rwa [List.append_nil]
    exact .inl fun more => scan_token_spaced h' (spaced more) rfl rfl
  | newline =>
    generalize written.length = length at h ⊢
    cases scanned_of_scan h with
    | newline line => exact .inl fun _ => scan_newline line
  | blank =>
    generalize written.length = length at h ⊢
    cases scanned_of_scan h with
    | blank line blank => exact .inl fun _ => scan_blank line blank
  | comment => exact .inl (scan_comment_feed h)

end Lexeme

namespace Lexeme

/-- Whether the line of a regular expression ends before its body does, so that nothing on later
lines can end it. The line does not end where a backslash takes the line feed along. -/
def isCut (inClass : Bool) : Text → Bool
  | [] => true
  | c :: rest =>
    if c.isLineTerminator then true
    else if c = '\\' then
      match rest with
      | [] => false
      | _ :: later => isCut inClass later
    else if c = '/' && !inClass then false
    else isCut (c = '[' || (inClass && c != ']')) rest

section

variable {inClass : Bool}

theorem regexBodyLength?_line (line : c.isLineTerminator = true) (t : Text) :
    regexBodyLength? inClass (c :: t) = none := by
  simp [regexBodyLength?.eq_def inClass (_ :: _), line]

theorem regexBodyLength?_escape (c : CodePoint) (t : Text) :
    regexBodyLength? inClass (ofChar '\\' :: c :: t) =
      (regexBodyLength? inClass t).map (· + 2) := by
  have line : (ofChar '\\').isLineTerminator = false := by decide
  simp [regexBodyLength?.eq_def inClass (_ :: _), line]

theorem regexBodyLength?_slash (t : Text) :
    regexBodyLength? false (ofChar '/' :: t) = some 1 := by
  have line : (ofChar '/').isLineTerminator = false := by decide
  have escape : ofChar '/' ≠ '\\' := by decide
  simp [regexBodyLength?.eq_def false (_ :: _), line, escape]

theorem regexBodyLength?_plain (line : c.isLineTerminator = false) (escape : c ≠ '\\')
    (slash : (c = '/' && !inClass) = false) (t : Text) :
    regexBodyLength? inClass (c :: t) =
      (regexBodyLength? (c = '[' || (inClass && c != ']')) t).map (· + 1) := by
  simp only [regexBodyLength?.eq_def inClass (_ :: _), line, escape, slash, Bool.false_eq_true,
    if_false]

/-- Nothing in later lines ends the body of a regular expression whose line ends. -/
theorem regexBodyLength?_cut (cut : isCut inClass t = true) (more : Text) :
    regexBodyLength? inClass (t ++ ofChar '\n' :: more) = none := by
  fun_induction isCut inClass t with
  | case1 => exact regexBodyLength?_line (by decide) more
  | case2 inClass c rest line => exact regexBodyLength?_line line _
  | case3 => cases cut
  | case4 inClass d later _ ih =>
    rw [List.cons_append, List.cons_append, regexBodyLength?_escape, ih cut, Option.map_none]
  | case5 => cases cut
  | case6 inClass c rest line escape slash ih =>
    rw [List.cons_append, regexBodyLength?_plain (by simpa using line) escape
      (by simpa using slash), ih cut, Option.map_none]

/-- A regular expression without an end whose line does not end can be ended in the next line. -/
theorem regexBodyLength?_mended (lacking : regexBodyLength? inClass t = none)
    (uncut : isCut inClass t = false) (more : Text) :
    regexBodyLength? inClass (t ++ (Text.ofString "\n]/" ++ more)) = some (t.length + 3) := by
  fun_induction isCut inClass t with
  | case1 | case2 => cases uncut
  | case3 inClass =>
    change regexBodyLength? inClass
      (ofChar '\\' :: ofChar '\n' :: ofChar ']' :: ofChar '/' :: more) = _
    have outside : (ofChar ']' = '[' || (inClass && ofChar ']' != ']')) = false := by
      cases inClass <;> decide
    have bare : (ofChar ']' = '/' && !inClass) = false := by cases inClass <;> decide
    rw [regexBodyLength?_escape, regexBodyLength?_plain (by decide) (by decide) bare, outside,
      regexBodyLength?_slash]
    rfl
  | case4 inClass d later _ ih =>
    rw [regexBodyLength?_escape, Option.map_eq_none_iff] at lacking
    rw [List.cons_append, List.cons_append, regexBodyLength?_escape, ih lacking uncut]
    rfl
  | case5 inClass c rest line escape slash =>
    obtain ⟨rfl, rfl⟩ : c = '/' ∧ inClass = false := by simpa using slash
    rw [regexBodyLength?_slash] at lacking
    cases lacking
  | case6 inClass c rest line escape slash ih =>
    have plain := @regexBodyLength?_plain c inClass (by simpa using line) escape
      (by simpa using slash)
    rw [plain, Option.map_eq_none_iff] at lacking
    rw [List.cons_append, plain, ih lacking uncut]
    rfl

end

theorem blockCommentLength?_mended (lacking : blockCommentLength? t = none) (more : Text) :
    blockCommentLength? (t ++ (Text.ofString "\n*/" ++ more)) = some (t.length + 3) := by
  induction t with
  | nil => rfl
  | cons c t ih =>
    rw [blockCommentLength?] at lacking
    split at lacking
    · cases lacking
    rename_i inside
    rw [Option.map_eq_none_iff] at lacking
    have inside' : ¬(c = '*' && (t ++ (Text.ofString "\n*/" ++ more)).head? =
        some (ofChar '/')) = true := by
      cases t with
      | nil => simp [Text.ofString, (by decide : ofChar '\n' ≠ ofChar '/')]
      | cons d t => exact inside
    rw [List.cons_append, blockCommentLength?, if_neg inside', ih lacking]
    rfl

theorem chunkLength?_mended (lacking : chunkLength? t = none) (more : Text) :
    chunkLength? (t ++ (Text.ofString "\n`" ++ more)) = some (t.length + 2, .backtick) := by
  have tick : chunkLength? (ofChar '`' :: more) = some (1, .backtick) := by
    rw [chunkLength?.eq_def]
    simp [(by decide : ofChar '`' ≠ ofChar '\\')]
  fun_induction chunkLength? t with
  | case1 =>
    change chunkLength? (ofChar '\n' :: ofChar '`' :: more) = _
    rw [chunkLength?.eq_def]
    simp [(by decide : ofChar '\n' ≠ ofChar '\\'), (by decide : ofChar '\n' ≠ ofChar '`'),
      (by decide : ofChar '\n' ≠ ofChar '$'), tick]
  | case2 =>
    change chunkLength? (ofChar '\\' :: ofChar '\n' :: ofChar '`' :: more) = _
    rw [chunkLength?.eq_def]
    simp [tick]
  | case3 d later ih =>
    rw [Option.map_eq_none_iff] at lacking
    rw [List.cons_append, List.cons_append, chunkLength?.eq_def]
    simp only [if_true, ih lacking]
    rfl
  | case4 => cases lacking
  | case5 => cases lacking
  | case6 c rest bare plain inside ih =>
    rw [Option.map_eq_none_iff] at lacking
    have inside' : ¬(c = '$' && (rest ++ (Text.ofString "\n`" ++ more)).head? =
        some (ofChar '{')) = true := by
      cases rest with
      | nil => simp [Text.ofString, (by decide : ofChar '\n' ≠ ofChar '{')]
      | cons d t => exact inside
    rw [List.cons_append, chunkLength?.eq_def]
    simp only [bare, plain, inside', if_false, ih lacking]
    rfl

/-- The faults of numbers. -/
def numberFaults : List LexCause := [.invalidNumber, .invalidExponent, .invalidNumberSuffix]

theorem exponentLength_error (h : exponentLength t = .error cause) : cause = .invalidExponent := by
  cases t with
  | nil => cases h
  | cons c t =>
    rw [exponentLength] at h
    refine ite_elim (fun _ h => ?_) (fun _ h => by cases h) h
    dsimp only at h
    generalize digitsLength CodePoint.isDigit false _ = digits at h
    cases digits with
    | zero => exact (Except.error.inj h).symm
    | succ => cases h

theorem magnitudeLength_error (h : magnitudeLength t = .error cause) : cause ∈ numberFaults := by
  rw [magnitudeLength] at h
  split at h
  · split at h
    · cases h
      decide
    · cases h
  · simp only [decimalLength, bind, Except.bind] at h
    split at h
    · rename_i exponent
      cases h
      rw [exponentLength_error exponent]
      decide
    · cases h

theorem number_error (h : number t = .error cause) : cause ∈ numberFaults := by
  cases hm : magnitudeLength t with
  | error fault =>
    simp only [number, bind, Except.bind, hm] at h
    cases h
    exact magnitudeLength_error hm
  | ok magnitude =>
    rw [number_eq hm rfl] at h
    split at h
    · cases h
      decide
    · cases h

theorem escape_error (h : escape t = .error (.malformed cause n)) : cause = .invalidEscape := by
  rw [escape] at h
  repeat' split at h
  all_goals first
    | exact (LexemeFault.malformed.inj (Except.error.inj h)).1.symm
    | cases h

/-- The fault of a name is that of an escape. -/
theorem name_error (h : name t = .error (.malformed cause n)) : cause = .invalidEscape := by
  fun_induction name t generalizing n with
  | case1 => cases h
  | case2 rest fault failed =>
    cases h
    exact escape_error failed
  | case3 rest d length escaped fault failed ih =>
    cases fault with
    | malformed =>
      cases h
      exact ih failed
    | escapeOverflow => cases h
  | case4 => cases h
  | case5 c rest bare part fault failed ih =>
    cases fault with
    | malformed =>
      cases h
      exact ih failed
    | escapeOverflow => cases h
  | case6 => cases h
  | case7 => cases h

/-- What can be wrong at the front of a text: each fault with what makes it one there. -/
inductive Faulty (context : LexContext) (c : CodePoint) (rest : Text) : LexCause → Nat → Prop
  | comment : c = '/' → rest.head? = some (ofChar '*') → blockCommentLength? rest.tail = none →
      Faulty context c rest .unterminatedComment 0
  | string : c = '"' ∨ c = '\'' → stringLength? c rest = none →
      Faulty context c rest .unterminatedString 0
  | template : c = '`' → chunkLength? rest = none → Faulty context c rest .unterminatedTemplate 0
  | number {cause : LexCause} : cause ∈ numberFaults → Faulty context c rest cause 0
  | word {n : Nat} : Faulty context c rest .invalidEscape n
  | regex : c = '/' → rest.head? ≠ some (ofChar '/') → rest.head? ≠ some (ofChar '*') →
      context.regexMayStart = true → regexBodyLength? false rest = none →
      Faulty context c rest .unterminatedRegex 0
  | chunk : c = '}' → context.closesSubstitution = true → chunkLength? rest = none →
      Faulty context c rest .unterminatedTemplate 0
  | unexpected : Faulty context c rest (.unexpected c) 0

/-- A fault is one for one of the reasons there are. -/
theorem faulty_of_scan : scan context first c rest = .error (.malformed cause n) →
    Faulty context c rest cause n := by
  rw [scan]
  refine ite_elim (fun _ h => by cases h) fun _ => ite_elim (fun _ h => by cases h) fun _ =>
    ite_elim (fun _ h => by cases h) fun _ => ite_elim (fun _ h => by cases h) fun line =>
    ite_elim (fun block h => ?_) fun block => ite_elim (fun _ h => by cases h) fun _ =>
    ite_elim (fun quote h => ?_) fun _ => ite_elim (fun tick h => ?_) fun _ =>
    ite_elim (fun front h => ?_) fun _ => ite_elim (fun front h => ?_) fun _ =>
    ite_elim (fun hash h => ?_) fun _ => ite_elim (fun slash h => ?_) fun _ =>
    ite_elim (fun brace h => ?_) fun _ h => ?_
  all_goals simp only [Bool.and_eq_true, Bool.or_eq_true, decide_eq_true_eq] at *
  · split at h
    · cases h
    · rename_i lacking
      cases h
      exact .comment block.1 block.2 lacking
  · cases lacking : stringLength? c rest with
    | none =>
      rw [lacking] at h
      cases h
      exact .string quote lacking
    | some => simp [orFault, lacking] at h
  · cases lacking : chunkLength? rest with
    | none =>
      simp only [Lexeme.chunk, lacking] at h
      cases h
      exact .template tick lacking
    | some => simp [Lexeme.chunk, lacking] at h
  · split at h
    · cases h
    · rename_i failed
      cases h
      exact .number (number_error failed)
  · split at h
    · cases h
    · rename_i failed
      cases h
      rw [name_error failed]
      exact .word
  · split at h
    · cases h
    · cases h
      exact .unexpected
  · cases lacking : regexBodyLength? false rest with
    | none =>
      rw [regexLength?, lacking] at h
      cases h
      exact .regex slash.1 (fun next => line ⟨slash.1, next⟩) (fun next => block ⟨slash.1, next⟩)
        slash.2 lacking
    | some => simp [orFault, regexLength?, lacking] at h
  · cases lacking : chunkLength? rest with
    | none =>
      simp only [Lexeme.chunk, lacking] at h
      cases h
      exact .chunk brace.1 brace.2 lacking
    | some => simp [Lexeme.chunk, lacking] at h
  · split at h
    · cases h
    · cases h
      exact .unexpected

/-- What lacks its end at the end of a text. -/
inductive Lacking (context : LexContext) (c : CodePoint) (rest : Text) : Prop
  | comment : c = '/' → [ofChar '*'] <+: rest → blockCommentLength? rest.tail = none →
      Lacking context c rest
  | template : c = '`' → chunkLength? rest = none → Lacking context c rest
  | chunk : c = '}' → context.closesSubstitution = true → chunkLength? rest = none →
      Lacking context c rest
  | regex : c = '/' → rest.head? ≠ some (ofChar '/') → rest.head? ≠ some (ofChar '*') →
      context.regexMayStart = true → regexBodyLength? false rest = none → Lacking context c rest

theorem lacking_of_scan (h : scan context first c rest = .error (.malformed cause n))
    (opens : cause.isOpen = true) : Lacking context c rest := by
  cases faulty_of_scan h with
  | comment slash next lacking => exact .comment slash (head?_eq_iff_starts.1 next) lacking
  | template tick lacking => exact .template tick lacking
  | chunk brace closes lacking => exact .chunk brace closes lacking
  | regex slash line block starts lacking => exact .regex slash line block starts lacking
  | number fault =>
    have closed : ∀ cause ∈ numberFaults, cause.isOpen = false := by decide
    rw [closed cause fault] at opens
    cases opens
  | string | word | unexpected => cases opens

/-- A regular expression starts whose line ends before its body does. -/
structure CutRegex (context : LexContext) (c : CodePoint) (rest : Text) : Prop where
  slash : c = '/'
  line : rest.head? ≠ some (ofChar '/')
  block : rest.head? ≠ some (ofChar '*')
  starts : context.regexMayStart = true
  cut : isCut false rest = true

theorem CutRegex.scan (h : CutRegex context c rest) (more : Text) :
    Lexeme.scan context first c (rest ++ ofChar '\n' :: more) =
      .error (.malformed .unterminatedRegex 0) := by
  have head {d : Char} (other : d ≠ '\n') (next : rest.head? ≠ some (ofChar d)) :
      (rest ++ ofChar '\n' :: more).head? ≠ some (ofChar d) := by
    cases rest with
    | nil => exact fun same => other (ofChar_injective (Option.some.inj same)).symm
    | cons => exact next
  rw [h.slash, scan_regex (head (by decide) h.line) (head (by decide) h.block) h.starts,
    regexLength?, regexBodyLength?_cut h.cut]
  rfl

/-- What lacks its end gets it in the next line, but for a regular expression whose line ends. -/
theorem Lacking.mended (h : Lacking context c rest) (uncut : ¬CutRegex context c rest) :
    ∃ closing lexeme, scan context first c (rest ++ ofChar '\n' :: closing ++ [ofChar '\\']) =
      .ok (lexeme, (rest ++ ofChar '\n' :: closing).length) := by
  have assoc (closing : Text) : rest ++ ofChar '\n' :: closing ++ [ofChar '\\'] =
      rest ++ (ofChar '\n' :: closing ++ [ofChar '\\']) := List.append_assoc ..
  cases h with
  | comment slash next lacking =>
    obtain ⟨body, rfl⟩ := next
    have found := blockCommentLength?_mended lacking [ofChar '\\']
    refine ⟨Text.ofString "*/", .comment, ?_⟩
    have count : ([ofChar '*'] ++ body ++ ofChar '\n' :: Text.ofString "*/").length =
        body.length + 3 + 1 := by
      simp [Text.ofString]
    have found' : blockCommentLength? (([ofChar '*'] ++ body) ++
        (ofChar '\n' :: Text.ofString "*/" ++ [ofChar '\\'])).tail = some (body.length + 3) := found
    rw [slash, scan_blockComment (by simp), assoc, count, found']
  | template tick lacking =>
    refine ⟨Text.ofString "`", .token .template, ?_⟩
    rw [tick, scan_template, chunk_ok]
    refine ⟨.backtick, ?_, rfl⟩
    rw [assoc, List.length_append]
    exact chunkLength?_mended lacking [ofChar '\\']
  | chunk brace closes lacking =>
    refine ⟨Text.ofString "`", .token .templateTail, ?_⟩
    rw [brace, scan_chunk closes, chunk_ok]
    refine ⟨.backtick, ?_, rfl⟩
    rw [assoc, List.length_append]
    exact chunkLength?_mended lacking [ofChar '\\']
  | regex slash line block starts lacking =>
    have goes : isCut false rest = false :=
      Bool.eq_false_iff.2 fun cut => uncut ⟨slash, line, block, starts, cut⟩
    have nonempty : rest ≠ [] := by
      rintro rfl
      cases goes
    have head (more : Text) : (rest ++ more).head? = rest.head? := by
      cases rest with
      | nil => exact absurd rfl nonempty
      | cons c rest => rfl
    refine ⟨Text.ofString "]/", .token .regex, ?_⟩
    rw [assoc, slash, scan_regex (by rwa [head]) (by rwa [head]) starts, orFault_ok]
    refine ⟨rfl, ?_⟩
    have found := regexBodyLength?_mended lacking goes [ofChar '\\']
    change regexLength? (rest ++ (Text.ofString "\n]/" ++ [ofChar '\\'])) = _
    have flags : partsLength [ofChar '\\'] = 0 := by decide
    rw [regexLength?, found, Option.map_some, ← List.append_assoc,
      List.drop_left' (by simp [Text.ofString]), flags]
    simp [Text.ofString]

end Lexeme

/-- A backslash at the end of a text is a fault. -/
theorem Token.Fails.backslash (context : LexContext) (first : Bool) :
    Fails context first [ofChar '\\'] .invalidEscape := by
  refine .ofScan (n := 0) ?_
  rw [Lexeme.scan_escaped, Lexeme.name_backslash]

/-- A text that is read to its end has no tokens if it goes on with a backslash in the next line. -/
theorem Reads.fails_feed (h : Reads context first items [] context') :
    Token.Fails context first (Item.textOf items ++ Text.feed) .invalidEscape := by
  have feed (context : LexContext) (first : Bool) :
      Token.Fails context first Text.feed .invalidEscape :=
    @Token.Fails.cons _ _ _ [] _ _ _ (Lexeme.scan_newline (by decide)) (.backslash _ _)
  generalize nothing : ([] : Text) = tail at h
  induction h with
  | nil => exact feed _ _
  | @cons _ _ _ lexeme c rest _ items scanned reads ih =>
    subst nothing
    rw [List.append_nil] at scanned
    rw [Item.textOf_cons, List.append_assoc, List.cons_append]
    cases items with
    | cons item items =>
      have nonempty : Item.textOf (item :: items) ≠ [] := fun none =>
        reads.written_ne_nil item (by simp)
          (List.append_eq_nil_iff.1 (Item.textOf_cons .. ▸ none)).1
      exact .cons (Lexeme.scan_continued scanned _ nonempty) (ih rfl)
    | nil =>
      rw [Item.textOf_nil, List.append_nil] at scanned
      rcases Lexeme.scan_feed scanned with same | ⟨n, wrong⟩
      · exact .cons (same _) (feed _ _)
      · exact .ofScan wrong

/-- A text that lacks the end of its last lexeme goes on in the next line with this end and a
backslash, which is a fault, unless the lexeme is a regular expression whose line ends. -/
theorem Reads.fails_mended (h : Reads context first items (c :: rest) context')
    (lacking : Lexeme.Lacking context' c rest) (uncut : ¬Lexeme.CutRegex context' c rest) :
    ∃ more, Token.Fails context first (Item.textOf items ++ c :: rest ++ ofChar '\n' :: more)
      .invalidEscape := by
  obtain ⟨closing, lexeme, scanned⟩ := lacking.mended uncut
  refine ⟨closing ++ [ofChar '\\'], ?_⟩
  have later := Token.Fails.cons scanned (.backslash _ _)
  rw [List.append_assoc] at later ⊢
  exact .append (h.continued (by simp) _) later

/-- Nothing in later lines mends a regular expression whose line ends. -/
theorem Reads.fails_cut (h : Reads context first items (c :: rest) context')
    (cut : Lexeme.CutRegex context' c rest) (more : Text) :
    Token.Fails context first (Item.textOf items ++ c :: rest ++ ofChar '\n' :: more)
      .unterminatedRegex := by
  rw [List.append_assoc]
  exact .append (h.continued (by simp) _) (.ofScan (cut.scan more))

end Uncurry
