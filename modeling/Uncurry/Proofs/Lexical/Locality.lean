import Uncurry.Token.Scan

/-!
# Lexemes are read locally

A recogniser that takes some characters looks at these and at no more than one behind them. It
answers the same on every text that is alike as far.
-/
namespace Uncurry

/-- Whether a text starts with a character that starts an identifier. -/
def Text.startsWord (t : Text) : Bool := t.head?.any CodePoint.isIdentifierStart

/-- Two texts agree in their first characters, and in the one behind these but for the case that an
identifier could start there in both. -/
def Text.Alike : Nat → Text → Text → Prop
  | 0, t, t' => t.head? = t'.head? ∨ t.startsWord = true ∧ t'.startsWord = true
  | n + 1, c :: t, c' :: t' => c = c' ∧ Alike n t t'
  | _ + 1, [], [] => True
  | _ + 1, _, _ => False

/-- A text starts with a space or a line feed. -/
def Text.Spaced (t : Text) : Prop := ∃ c later, t = c :: later ∧ (c = ' ' ∨ c = '\n')

/-- Two texts agree in their first characters. -/
def Text.Same (n : Nat) (t t' : Text) : Prop := t.take n = t'.take n

namespace Text.Same

variable {n k : Nat} {c : CodePoint} {t t' : Text}

theorem cons (h : Same (n + 1) (c :: t) t') : ∃ later, t' = c :: later ∧ Same n t later := by
  cases t' with
  | nil => simp [Same] at h
  | cons c' later =>
    simp only [Same, List.take_succ_cons, List.cons.injEq] at h
    exact ⟨later, by rw [h.1], h.2⟩

theorem head_eq (h : Same n t t') (positive : 0 < n) : t.head? = t'.head? := by
  obtain ⟨n, rfl⟩ := Nat.exists_eq_succ_of_ne_zero (Nat.ne_of_gt positive)
  cases t <;> cases t' <;> simp_all [Same]

theorem left (h : Same (k + n) t t') : Same k t t' := by
  have := congrArg (List.take k) h
  rwa [List.take_take, List.take_take, Nat.min_eq_left (by omega)] at this

theorem drop (h : Same (k + n) t t') : Same n (t.drop k) (t'.drop k) := by
  have := congrArg (List.drop k) h
  rwa [List.drop_take, List.drop_take, Nat.add_sub_cancel_left] at this

end Text.Same

namespace Text.Alike

variable {n k : Nat} {c : CodePoint} {t t' : Text}

theorem cons (h : Alike (n + 1) (c :: t) t') : ∃ later, t' = c :: later ∧ Alike n t later := by
  cases t' with
  | nil => exact h.elim
  | cons c' later => exact ⟨later, by rw [h.1], h.2⟩

theorem nil (h : Alike (n + 1) [] t') : t' = [] := by
  cases t' with
  | nil => rfl
  | cons c' later => exact h.elim

theorem drop (h : Alike (k + n) t t') : Alike n (t.drop k) (t'.drop k) := by
  induction k generalizing t t' with
  | zero => simpa using h
  | succ k ih =>
    rw [Nat.add_right_comm] at h
    cases t with
    | nil =>
      obtain rfl := h.nil
      cases n with
      | zero => exact .inl rfl
      | succ n => exact trivial
    | cons c t =>
      obtain ⟨later, rfl, rest⟩ := h.cons
      exact ih rest

theorem head_eq_of_pos (h : Alike n t t') (positive : 0 < n) : t.head? = t'.head? := by
  obtain ⟨n, rfl⟩ := Nat.exists_eq_succ_of_ne_zero (Nat.ne_of_gt positive)
  cases t with
  | nil => rw [h.nil]
  | cons c t =>
    obtain ⟨later, rfl, _⟩ := h.cons
    rfl

theorem same (h : Alike n t t') : Same n t t' := by
  induction n generalizing t t' with
  | zero => rfl
  | succ n ih =>
    cases t with
    | nil => rw [h.nil, Same]
    | cons c t =>
      obtain ⟨later, rfl, rest⟩ := h.cons
      exact congrArg (c :: ·) (ih rest)

theorem left (h : Alike (k + n) t t') : Alike k t t' := by
  induction k generalizing t t' with
  | zero =>
    cases n with
    | zero => simpa using h
    | succ n => exact .inl (h.head_eq_of_pos (by omega))
  | succ k ih =>
    rw [Nat.add_right_comm] at h
    cases t with
    | nil =>
      obtain rfl := h.nil
      exact trivial
    | cons c t =>
      obtain ⟨later, rfl, rest⟩ := h.cons
      exact ⟨rfl, ih rest⟩

theorem head_eq (h : Alike 0 t t') (plain : t.startsWord = false) : t.head? = t'.head? :=
  h.elim id fun both => by simp [plain] at both

end Text.Alike

theorem CodePoint.isIdentifierStart_of_isLineTerminator {c : CodePoint}
    (h : c.isLineTerminator = true) : c.isIdentifierStart = false := by
  have cases : c = '\n' ∨ c = '\r' ∨ c = ⟨0x2028, by decide⟩ ∨ c = ⟨0x2029, by decide⟩ := by
    simpa [CodePoint.isLineTerminator, CodePoint.ext_iff, or_assoc] using h
  obtain rfl | rfl | rfl | rfl := cases <;> decide +kernel

namespace Lexeme

open Text CodePoint

variable {t t' : Text} {n : Nat}

theorem lineCommentLength_alike (h : Alike (lineCommentLength t) t t') :
    lineCommentLength t' = lineCommentLength t := by
  induction t generalizing t' with
  | nil =>
    obtain empty | ⟨word, _⟩ := h
    · rw [List.head?_eq_none_iff.1 empty.symm]
    · cases word
  | cons c rest ih =>
    by_cases ends : c.isLineTerminator = true
    · simp only [lineCommentLength, ends, if_true] at h ⊢
      have same := h.head_eq (by simp [startsWord, isIdentifierStart_of_isLineTerminator ends])
      obtain ⟨later, rfl⟩ : ∃ later, t' = c :: later := by
        cases t' <;> simp_all
      simp [lineCommentLength, ends]
    · simp only [lineCommentLength, ends, Bool.false_eq_true, if_false] at h ⊢
      obtain ⟨later, rfl, alike⟩ := h.cons
      simp [lineCommentLength, ends, ih alike]

theorem partsLength_alike (h : Alike (partsLength t) t t') : partsLength t' = partsLength t := by
  induction t generalizing t' with
  | nil =>
    obtain empty | ⟨word, _⟩ := h
    · rw [List.head?_eq_none_iff.1 empty.symm]
    · cases word
  | cons c rest ih =>
    by_cases part : c.isIdentifierPart = true
    · simp only [partsLength, part, if_true] at h ⊢
      obtain ⟨later, rfl, alike⟩ := h.cons
      simp [partsLength, part, ih alike]
    · simp only [partsLength, part, Bool.false_eq_true, if_false] at h ⊢
      have plain : c.isIdentifierStart = false :=
        Bool.eq_false_iff.2 fun start => part (isIdentifierPart_of_isIdentifierStart start)
      have same := h.head_eq (by simp [startsWord, plain])
      cases t' with
      | nil => rfl
      | cons c' later =>
        obtain rfl : c = c' := by simpa using same
        simp [partsLength, part]

theorem blockCommentLength?_pos (h : blockCommentLength? t = some n) : 0 < n := by
  cases t with
  | nil => cases h
  | cons c rest =>
    rw [blockCommentLength?] at h
    split at h
    · cases h
      decide
    · obtain ⟨m, _, rfl⟩ := Option.map_eq_some_iff.1 h
      exact Nat.succ_pos m

theorem blockCommentLength?_same (found : blockCommentLength? t = some n) (h : Same n t t') :
    blockCommentLength? t' = some n := by
  induction t generalizing t' n with
  | nil => cases found
  | cons c rest ih =>
    rw [blockCommentLength?] at found
    split at found
    · rename_i closes
      cases found
      obtain ⟨later, rfl, h₁⟩ := h.cons
      have same := h₁.head_eq (by decide)
      rw [blockCommentLength?, if_pos (by rwa [← same])]
    · rename_i plain
      obtain ⟨m, hm, rfl⟩ := Option.map_eq_some_iff.1 found
      obtain ⟨later, rfl, h₁⟩ := h.cons
      have same := h₁.head_eq (blockCommentLength?_pos hm)
      rw [blockCommentLength?, if_neg (by rwa [← same]), ih hm h₁]
      rfl

section String

variable {quote c d e : CodePoint} {rest : Text}

theorem stringLength?_quote : stringLength? quote (quote :: rest) = some 1 := by
  rw [stringLength?.eq_def]
  simp

theorem stringLength?_break (other : c ≠ quote) (breaks : (c = '\n' || c = '\r') = true) :
    stringLength? quote (c :: rest) = none := by
  rw [stringLength?.eq_def]
  simp only [other, if_false, breaks, if_true]

theorem stringLength?_plain (other : c ≠ quote) (plain : ¬(c = '\n' || c = '\r') = true)
    (bare : c ≠ '\\') :
    stringLength? quote (c :: rest) = (stringLength? quote rest).map (· + 1) := by
  rw [stringLength?.eq_def]
  simp only [other, if_false, plain, Bool.false_eq_true, bare]

theorem stringLength?_escape (other : CodePoint.ofChar '\\' ≠ quote) :
    stringLength? quote ('\\' :: d :: e :: rest) =
      if d = '\r' && e = '\n' then (stringLength? quote rest).map (· + 3)
      else (stringLength? quote (e :: rest)).map (· + 2) := by
  have plain : ¬(CodePoint.ofChar '\\' = '\n' || CodePoint.ofChar '\\' = '\r') = true := by decide
  rw [stringLength?.eq_def]
  simp only [other, if_false, plain, Bool.false_eq_true, if_true]

theorem stringLength?_pos (h : stringLength? quote t = some n) : 0 < n := by
  rw [stringLength?.eq_def] at h
  repeat' split at h
  all_goals first
    | contradiction
    | cases h; decide
    | obtain ⟨m, _, rfl⟩ := Option.map_eq_some_iff.1 h; exact Nat.succ_pos _

theorem stringLength?_same (found : stringLength? quote t = some n) (h : Same n t t') :
    stringLength? quote t' = some n := by
  induction t using stringLength?.induct quote generalizing t' n with
  | case1 => cases found
  | case2 rest =>
    rw [stringLength?_quote] at found
    cases found
    obtain ⟨later, rfl, _⟩ := h.cons
    exact stringLength?_quote
  | case3 c rest other breaks =>
    rw [stringLength?_break other breaks] at found
    cases found
  | case4 other plain =>
    rw [stringLength?.eq_def] at found
    simp only [other, if_false, plain, Bool.false_eq_true, if_true] at found
    cases found
  | case5 d other plain =>
    rw [stringLength?.eq_def] at found
    simp only [other, if_false, plain, Bool.false_eq_true, if_true] at found
    cases found
  | case6 d e rest crlf other plain ih =>
    rw [stringLength?_escape other, if_pos crlf] at found
    obtain ⟨m, hm, rfl⟩ := Option.map_eq_some_iff.1 found
    obtain ⟨later₁, rfl, h₁⟩ := h.cons
    obtain ⟨later₂, rfl, h₂⟩ := h₁.cons
    obtain ⟨later₃, rfl, h₃⟩ := h₂.cons
    rw [stringLength?_escape other, if_pos crlf, ih hm h₃]
    rfl
  | case7 d e rest crlf other plain ih =>
    rw [stringLength?_escape other, if_neg crlf] at found
    obtain ⟨m, hm, rfl⟩ := Option.map_eq_some_iff.1 found
    obtain ⟨later₁, rfl, h₁⟩ := h.cons
    obtain ⟨later₂, rfl, h₂⟩ := h₁.cons
    obtain ⟨m, rfl⟩ := Nat.exists_eq_succ_of_ne_zero (Nat.ne_of_gt (stringLength?_pos hm))
    obtain ⟨later₃, rfl, h₃⟩ := h₂.cons
    rw [stringLength?_escape other, if_neg crlf, ih hm h₂]
    rfl
  | case8 c rest other plain bare ih =>
    rw [stringLength?_plain other plain bare] at found
    obtain ⟨m, hm, rfl⟩ := Option.map_eq_some_iff.1 found
    obtain ⟨later, rfl, h₁⟩ := h.cons
    rw [stringLength?_plain other plain bare, ih hm h₁]
    rfl

end String

theorem chunkLength?_pos {chunk : Nat × ChunkEnd} (h : chunkLength? t = some chunk) :
    0 < chunk.1 := by
  rw [chunkLength?.eq_def] at h
  repeat' split at h
  all_goals first
    | contradiction
    | cases h; decide
    | obtain ⟨m, _, rfl⟩ := Option.map_eq_some_iff.1 h; exact Nat.succ_pos _

theorem chunkLength?_same {chunk : Nat × ChunkEnd} (found : chunkLength? t = some chunk)
    (h : Same chunk.1 t t') : chunkLength? t' = some chunk := by
  induction t using chunkLength?.induct generalizing t' chunk with
  | case1 => cases found
  | case2 => cases found
  | case3 d rest ih =>
    rw [chunkLength?.eq_def] at found
    obtain ⟨m, hm, rfl⟩ := Option.map_eq_some_iff.1 found
    obtain ⟨later₁, rfl, h₁⟩ := h.cons
    obtain ⟨later₂, rfl, h₂⟩ := h₁.cons
    rw [chunkLength?.eq_def]
    simp only [if_true, ih hm h₂]
    rfl
  | case4 rest other =>
    rw [chunkLength?.eq_def] at found
    simp only [other, if_false, if_true] at found
    cases found
    obtain ⟨later, rfl, _⟩ := h.cons
    rw [chunkLength?.eq_def]
    simp only [other, if_false, if_true]
  | case5 c rest other open_ closes =>
    rw [chunkLength?.eq_def] at found
    simp only [other, open_, closes, if_false, if_true] at found
    cases found
    obtain ⟨later, rfl, h₁⟩ := h.cons
    have same := h₁.head_eq (by decide)
    rw [same] at closes
    rw [chunkLength?.eq_def]
    simp only [other, open_, closes, if_false, if_true]
  | case6 c rest other open_ plain ih =>
    rw [chunkLength?.eq_def] at found
    simp only [other, open_, plain, if_false] at found
    obtain ⟨m, hm, rfl⟩ := Option.map_eq_some_iff.1 found
    obtain ⟨later, rfl, h₁⟩ := h.cons
    have same := h₁.head_eq (chunkLength?_pos hm)
    rw [same] at plain
    rw [chunkLength?.eq_def]
    simp only [other, open_, plain, if_false, ih hm h₁]
    rfl

theorem regexBodyLength?_same {inClass : Bool} (found : regexBodyLength? inClass t = some n)
    (h : Same n t t') : regexBodyLength? inClass t' = some n := by
  induction inClass, t using regexBodyLength?.induct generalizing t' n with
  | case1 => cases found
  | case2 inClass c rest ends => simp [regexBodyLength?.eq_def inClass (c :: rest), ends] at found
  | case3 inClass plain => simp [regexBodyLength?.eq_def inClass [_]] at found
  | case4 inClass d rest plain ih =>
    rw [regexBodyLength?.eq_def] at found
    simp only [plain, Bool.false_eq_true, if_false, if_true] at found
    obtain ⟨m, hm, rfl⟩ := Option.map_eq_some_iff.1 found
    obtain ⟨later₁, rfl, h₁⟩ := h.cons
    obtain ⟨later₂, rfl, h₂⟩ := h₁.cons
    rw [regexBodyLength?.eq_def]
    simp only [plain, Bool.false_eq_true, if_false, if_true, ih hm h₂]
    rfl
  | case5 inClass c rest plain bare closes =>
    rw [regexBodyLength?.eq_def] at found
    simp only [plain, bare, closes, Bool.false_eq_true, if_false, if_true] at found
    cases found
    obtain ⟨later, rfl, _⟩ := h.cons
    rw [regexBodyLength?.eq_def]
    simp only [plain, bare, closes, Bool.false_eq_true, if_false, if_true]
  | case6 inClass c rest plain bare inside ih =>
    rw [regexBodyLength?.eq_def] at found
    simp only [plain, bare, inside, Bool.false_eq_true, if_false] at found
    obtain ⟨m, hm, rfl⟩ := Option.map_eq_some_iff.1 found
    obtain ⟨later, rfl, h₁⟩ := h.cons
    rw [regexBodyLength?.eq_def]
    simp only [plain, bare, inside, Bool.false_eq_true, if_false, ih hm h₁]
    rfl

theorem regexLength?_alike (found : regexLength? t = some n) (h : Alike n t t') :
    regexLength? t' = some n := by
  obtain ⟨body, hb, rfl⟩ := Option.map_eq_some_iff.1 found
  have flags := partsLength_alike h.drop
  rw [regexLength?, regexBodyLength?_same hb h.same.left]
  simp [flags]

/-- Whether something follows a number that may not. -/
def runsOn (t : Text) : Bool := t.head?.any fun c => c.isIdentifierStart || c.isDigit

theorem runsOn_cons {c : CodePoint} : runsOn (c :: t) = (c.isIdentifierStart || c.isDigit) := rfl

/-- Two texts agree in their first characters, and in the one behind these but for the case that the
second text goes on there with something that may follow a number. -/
def Agree (n : Nat) (t t' : Text) : Prop :=
  Same n t t' ∧ ((t.drop n).head? = (t'.drop n).head? ∨ runsOn (t'.drop n) = false)

namespace Agree

variable {k : Nat} {c : CodePoint}

theorem of_alike (h : Alike n t t') (plain : Text.startsWord (t.drop n) = false) :
    Agree n t t' :=
  ⟨h.same, .inl ((Alike.drop (n := 0) h).head_eq plain)⟩

theorem head (h : Agree n t t') : t.head? = t'.head? ∨ n = 0 ∧ runsOn t' = false := by
  cases n with
  | zero => exact h.2.imp_right fun stops => ⟨rfl, stops⟩
  | succ n => exact .inl (h.1.head_eq (Nat.succ_pos n))

theorem head_of_pos (h : Agree n t t') (positive : 0 < n) : t.head? = t'.head? :=
  h.1.head_eq positive

theorem drop (h : Agree (k + n) t t') : Agree n (t.drop k) (t'.drop k) :=
  ⟨h.1.drop, by simpa only [List.drop_drop] using h.2⟩

theorem left (h : Agree (k + n) t t') : Agree k t t' :=
  ⟨h.1.left, h.drop.head.imp_right And.right⟩

theorem cons (h : Agree (n + 1) (c :: t) t') : ∃ later, t' = c :: later ∧ Agree n t later := by
  obtain ⟨later, rfl, same⟩ := h.1.cons
  exact ⟨later, rfl, same, h.2⟩

end Agree

variable {isDigit : CodePoint → Bool} {afterDigit : Bool}

/-- All characters of some sort run on behind a number. -/
def RunsOn (test : CodePoint → Bool) : Prop :=
  ∀ c, test c = true → (c.isIdentifierStart || c.isDigit) = true

theorem RunsOn.head {test : CodePoint → Bool} (runs : RunsOn test) (stops : runsOn t = false) :
    t.head?.any test = false := by
  cases t with
  | nil => rfl
  | cons c t =>
    rw [runsOn_cons] at stops
    exact Bool.eq_false_iff.2 fun holds => by simp [runs c holds] at stops

theorem RunsOn.head_ne {d : CodePoint} (runs : (d.isIdentifierStart || d.isDigit) = true)
    (stops : runsOn t = false) : t.head? ≠ some d := by
  intro front
  rw [runsOn, front] at stops
  exact Bool.false_ne_true (stops.symm.trans runs)

theorem digitsLength_pos (h : t.head?.any isDigit = true) :
    0 < digitsLength isDigit afterDigit t := by
  cases t with
  | nil => cases h
  | cons c rest =>
    have digit : isDigit c = true := by simpa using h
    simp [digitsLength, digit]

theorem digitsLength_stops (runs : RunsOn isDigit) (stops : runsOn t = false) :
    digitsLength isDigit afterDigit t = 0 := by
  have digit := runs.head stops
  have bar := RunsOn.head_ne (d := '_') (by decide) stops
  cases t with
  | nil => rfl
  | cons c rest => simp_all [digitsLength]

theorem digitsLength_agree (runs : RunsOn isDigit)
    (h : Agree (digitsLength isDigit afterDigit t) t t')
    (plain : (t.drop (digitsLength isDigit afterDigit t)).head? ≠ some (ofChar '_')) :
    digitsLength isDigit afterDigit t' = digitsLength isDigit afterDigit t := by
  induction t generalizing t' afterDigit with
  | nil =>
    rcases h.head with same | ⟨_, stops⟩
    · rw [List.head?_eq_none_iff.1 same.symm]
    · exact digitsLength_stops runs stops
  | cons c rest ih =>
    by_cases digit : isDigit c = true
    · simp only [digitsLength, digit, if_true] at h plain ⊢
      obtain ⟨later, rfl, agree⟩ := h.cons
      simp only [digitsLength, digit, if_true, ih agree plain]
    by_cases joins : (c = '_' && afterDigit && rest.head?.any isDigit) = true
    · simp only [digitsLength, digit, Bool.false_eq_true, if_false, joins, if_true] at h plain ⊢
      obtain ⟨later, rfl, agree⟩ := h.cons
      have more : 0 < digitsLength isDigit afterDigit rest :=
        digitsLength_pos (Bool.and_eq_true_iff.1 joins).2
      rw [agree.head_of_pos more] at joins
      simp only [digitsLength, digit, Bool.false_eq_true, if_false, joins, if_true, ih agree plain]
    · simp only [digitsLength, digit, Bool.false_eq_true, if_false, joins] at h plain ⊢
      rcases h.head with same | ⟨_, stops⟩
      · cases t' with
        | nil => rfl
        | cons c' later =>
          obtain rfl : c = c' := by simpa using same
          have bare : c ≠ '_' := by simpa using plain
          simp [digitsLength, digit, bare]
      · exact digitsLength_stops runs stops

theorem runsOn_isDigit : RunsOn CodePoint.isDigit := fun c digit => by simp [digit]

theorem isIdentifierStart_of_isAsciiLetter {c : CodePoint} (letter : c.isAsciiLetter = true) :
    c.isIdentifierStart = true := by
  have ascii : c.isAscii = true := by
    simp only [isAsciiLetter, Bool.or_eq_true, Bool.and_eq_true, decide_eq_true_eq] at letter
    simp only [isAscii, decide_eq_true_eq]
    omega
  simp [isIdentifierStart, ascii, letter]

theorem Radix.runsOn_isDigit (radix : Radix) : RunsOn radix.isDigit := by
  intro c digit
  rw [Bool.or_eq_true]
  cases radix with
  | hexadecimal =>
    by_cases decimal : c.isDigit = true
    · exact .inr decimal
    · refine .inl (isIdentifierStart_of_isAsciiLetter ?_)
      simp only [Radix.isDigit, hexDigit?, CodePoint.isDigit, isAsciiLetter, Bool.and_eq_true,
        Bool.or_eq_true, decide_eq_true_eq] at digit decimal ⊢
      split at digit
      · omega
      split at digit
      · omega
      split at digit
      · omega
      · cases digit
  | octal =>
    simp only [Radix.isDigit, CodePoint.isDigit, Bool.and_eq_true, decide_eq_true_eq] at digit ⊢
    omega
  | binary =>
    refine .inr ?_
    simp only [Radix.isDigit, Bool.or_eq_true, decide_eq_true_eq] at digit
    obtain rfl | rfl := digit <;> decide

/-- Whether a text is digits and bars alone. -/
def isWhole (t : Text) : Bool := t.all fun (c : CodePoint) => c.isDigit || c = '_'

theorem isWhole_digits : isWhole (t.take (digitsLength CodePoint.isDigit afterDigit t)) = true := by
  induction t generalizing afterDigit with
  | nil => rfl
  | cons c rest ih =>
    rw [digitsLength]
    split
    · rename_i digit
      have later := @ih true
      simp only [isWhole, List.take_succ_cons, List.all_cons, digit, Bool.true_or,
        Bool.true_and] at later ⊢
      exact later
    split
    · rename_i bar
      simp only [Bool.and_eq_true, decide_eq_true_eq] at bar
      have later := @ih afterDigit
      simp only [isWhole, List.take_succ_cons, List.all_cons, bar.1.1, decide_true, Bool.or_true,
        Bool.true_and] at later ⊢
      exact later
    · rfl

theorem fractionLength_plain (h : t.head? ≠ some (ofChar '.')) : fractionLength t = 0 := by
  cases t with
  | nil => rfl
  | cons c rest =>
    have point : c ≠ '.' := by simpa using h
    rw [fractionLength, if_neg point]

theorem exponentLength_plain
    (h : (t.head?.any fun (c : CodePoint) => c = 'e' || c = 'E') = false) :
    exponentLength t = .ok 0 := by
  cases t with
  | nil => rfl
  | cons c rest =>
    rw [exponentLength, if_neg (by simpa using h)]

theorem fractionLength_agree (h : Agree (fractionLength t) t t')
    (plain : (t.drop (fractionLength t)).head? ≠ some (ofChar '_'))
    (points : t'.head? = some (ofChar '.') → t.head? = some (ofChar '.')) :
    fractionLength t' = fractionLength t := by
  by_cases point : t.head? = some (ofChar '.')
  · obtain ⟨rest, rfl⟩ : ∃ rest, t = ofChar '.' :: rest := by
      cases t <;> simp_all
    simp only [fractionLength, if_true] at h plain ⊢
    obtain ⟨later, rfl, agree⟩ := h.cons
    simp only [if_true, digitsLength_agree runsOn_isDigit agree plain]
  · rw [fractionLength_plain point, fractionLength_plain fun front => point (points front)]

theorem exponentLength_agree (found : exponentLength t = .ok n) (h : Agree n t t')
    (plain : (t.drop n).head? ≠ some (ofChar '_')) : exponentLength t' = .ok n := by
  cases letter : t.head?.any fun (c : CodePoint) => c = 'e' || c = 'E' with
  | false =>
    rw [exponentLength_plain letter] at found
    cases found
    refine exponentLength_plain ?_
    rcases h.head with same | ⟨_, stops⟩
    · rwa [← same]
    · refine RunsOn.head (fun c letter => ?_) stops
      obtain rfl | rfl : c = 'e' ∨ c = 'E' := by simpa using letter
      all_goals decide
  | true =>
    cases t with
    | nil => cases letter
    | cons c rest =>
    have letter : (c = 'e' || c = 'E') = true := by simpa using letter
    simp only [exponentLength, letter, if_true] at found
    generalize hs : (if rest.head?.any (fun (d : CodePoint) => d = '+' || d = '-') = true then 1
      else 0) = sign at found
    cases hd : digitsLength isDigit false (rest.drop sign) with
    | zero =>
      rw [hd] at found
      cases found
    | succ count =>
      rw [hd] at found
      cases found
      rw [show 1 + sign + (count + 1) = sign + (count + 1) + 1 by omega] at h plain
      obtain ⟨later, rfl, agree⟩ := h.cons
      have digits := digitsLength_agree runsOn_isDigit (hd ▸ agree.drop) (by
        rw [hd]
        simpa [List.drop_drop] using plain)
      simp only [exponentLength, letter, if_true]
      rw [← agree.head_of_pos (by omega), hs, digits, hd]
      rfl

/-- Where a number is whole, the second text has a point behind it only if the first one has. -/
def Points (n : Nat) (t t' : Text) : Prop :=
  (t'.drop n).head? = some (ofChar '.') → (t.drop n).head? = some (ofChar '.') ∨
    isWhole (t.take n) = false

theorem decimalLength_agree (found : decimalLength t = .ok n) (h : Agree n t t')
    (plain : (t.drop n).head? ≠ some (ofChar '_')) (points : Points n t t') :
    decimalLength t' = .ok n := by
  obtain ⟨exponent, he, hn⟩ : ∃ exponent, exponentLength (t.drop (digitsLength isDigit false t +
      fractionLength (t.drop (digitsLength isDigit false t)))) = .ok exponent ∧
      n = digitsLength isDigit false t + fractionLength (t.drop (digitsLength isDigit false t)) +
        exponent := by
    simp only [decimalLength, bind, Except.bind] at found
    split at found
    · cases found
    · rename_i exponent he
      cases found
      exact ⟨exponent, he, rfl⟩
  generalize hw : digitsLength isDigit false t = whole at he hn
  generalize hf : fractionLength (t.drop whole) = fraction at he hn
  subst hn
  have afterFraction : (t.drop (whole + fraction)).head? ≠ some (ofChar '_') := by
    intro bar
    rw [exponentLength_plain (by simp [bar, ofChar])] at he
    cases he
    exact plain bar
  have afterWhole : (t.drop whole).head? ≠ some (ofChar '_') := by
    intro bar
    rw [fractionLength_plain (by simp [bar, ofChar])] at hf
    subst hf
    exact afterFraction bar
  have whole' : digitsLength isDigit false t' = whole := by
    rw [← hw]
    exact digitsLength_agree runsOn_isDigit (hw ▸ h.left.left) (by rwa [hw])
  have pointed : (t'.drop whole).head? = some (ofChar '.') →
      (t.drop whole).head? = some (ofChar '.') := by
    intro point
    rcases (Nat.add_assoc .. ▸ h : Agree (whole + (fraction + exponent)) t t').drop.head with
      same | ⟨none, _⟩
    · rwa [same]
    · rw [Nat.add_assoc, none, Nat.add_zero] at points
      refine (points point).resolve_right fun mixed => ?_
      rw [← hw, isWhole_digits] at mixed
      cases mixed
  have fraction' : fractionLength (t'.drop whole) = fraction := by
    rw [← hf]
    exact fractionLength_agree (hf ▸ h.left.drop) (by rwa [hf, List.drop_drop]) pointed
  have exponent' : exponentLength (t'.drop (whole + fraction)) = .ok exponent :=
    exponentLength_agree he h.drop (by rwa [List.drop_drop])
  simp only [decimalLength, bind, Except.bind, whole', fraction', exponent']
  rfl

theorem radix?_agree (h : t.take 2 = t'.take 2) : radix? t' = radix? t := by
  rcases t with _ | ⟨c, _ | ⟨d, rest⟩⟩ <;> rcases t' with _ | ⟨c', _ | ⟨d', later⟩⟩ <;>
    simp_all [radix?]

theorem radix?_stops {c : CodePoint} (stops : runsOn t = false) : radix? (c :: t) = none := by
  cases t with
  | nil => rfl
  | cons d later =>
    rw [radix?]
    split
    · have other {e : Char} (runs : ((ofChar e).isIdentifierStart || (ofChar e).isDigit) = true) :
          d ≠ ofChar e := fun same => RunsOn.head_ne runs stops (by simp [same])
      simp [Radix.ofLetter?, other (e := 'x') (by decide), other (e := 'X') (by decide),
        other (e := 'o') (by decide), other (e := 'O') (by decide), other (e := 'b') (by decide),
        other (e := 'B') (by decide)]
    · rfl

theorem magnitudeLength_agree (found : magnitudeLength t = .ok n) (positive : 0 < n)
    (h : Agree n t t') (plain : (t.drop n).head? ≠ some (ofChar '_')) (points : Points n t t') :
    magnitudeLength t' = .ok n := by
  rw [magnitudeLength] at found
  cases hr : radix? t with
  | none =>
    rw [hr] at found
    have none' : radix? t' = none := by
      obtain ⟨n, rfl⟩ := Nat.exists_eq_succ_of_ne_zero (Nat.ne_of_gt positive)
      cases t with
      | nil =>
        obtain rfl : t' = [] := by simpa [Same] using h.1.symm
        rfl
      | cons c rest =>
        obtain ⟨later, rfl, agree⟩ := h.cons
        rcases agree.head with same | ⟨_, stops⟩
        · rw [← hr]
          refine radix?_agree ?_
          cases rest <;> cases later <;> simp_all
        · exact radix?_stops stops
    rw [magnitudeLength, none']
    exact decimalLength_agree found h plain points
  | some radix =>
    simp only [hr] at found
    cases hd : digitsLength radix.isDigit false (t.drop 2) with
    | zero =>
      rw [hd] at found
      cases found
    | succ count =>
      rw [hd] at found
      cases found
      have digits := digitsLength_agree radix.runsOn_isDigit (hd ▸ h.drop)
        (by rwa [hd, List.drop_drop])
      simp only [magnitudeLength, radix?_agree h.1.left, hr]
      rw [digits, hd]
      rfl

theorem magnitudeLength_pos {c : CodePoint} {rest : Text} (front : c.isDigit = true ∨ c = '.')
    (found : magnitudeLength (c :: rest) = .ok n) : 0 < n := by
  rw [magnitudeLength] at found
  split at found
  · split at found
    · cases found
    · cases found
      omega
  · simp only [decimalLength, bind, Except.bind] at found
    split at found
    · cases found
    cases found
    obtain digit | rfl := front
    · have : 0 < digitsLength CodePoint.isDigit false (c :: rest) :=
        digitsLength_pos (by simpa using digit)
      omega
    · have whole : digitsLength CodePoint.isDigit false (ofChar '.' :: rest) = 0 := by
        simp [digitsLength, CodePoint.isDigit, ofChar]
      simp only [whole, List.drop_zero, fractionLength, if_true]
      omega

/-- A number is its magnitude and perhaps a suffix, with nothing behind that would go on. -/
theorem number_eq {magnitude : Nat} (found : magnitudeLength t = .ok magnitude) {big : Bool}
    (suffix : decide ((t.drop magnitude).head? = some (ofChar 'n')) = big) :
    number t = if runsOn (t.drop (magnitude + big.toNat)) then .error .invalidNumberSuffix
      else .ok (if big then .bigInt else .number, magnitude + big.toNat) := by
  subst suffix
  simp only [number, bind, Except.bind, pure, Except.pure, found]
  by_cases big : (t.drop magnitude).head? = some (ofChar 'n')
  · simp only [big, if_true, decide_true, Bool.toNat_true]
    rfl
  · simp only [big, if_false, decide_false, Bool.toNat_false]
    rfl

/-- No number stands in front of something that may not follow it. -/
theorem number_ends {kind : TokenKind} (found : number t = .ok (kind, n)) :
    runsOn (t.drop n) = false := by
  cases hm : magnitudeLength t with
  | error cause =>
    simp only [number, bind, Except.bind, hm] at found
    cases found
  | ok magnitude =>
    rw [number_eq hm rfl] at found
    split at found
    · cases found
    rename_i ends
    cases found
    exact Bool.eq_false_iff.2 ends

theorem number_agree {kind : TokenKind} {c : CodePoint} {rest : Text}
    (front : c.isDigit = true ∨ c = '.')
    (found : number (c :: rest) = .ok (kind, n)) (h : Agree n (c :: rest) t')
    (points : Points n (c :: rest) t') : number t' = .ok (kind, n) := by
  generalize ht : c :: rest = t at found h points
  cases hm : magnitudeLength t with
  | error cause =>
    simp only [number, bind, Except.bind, hm] at found
    cases found
  | ok magnitude =>
    have positive := magnitudeLength_pos front (ht ▸ hm)
    generalize hb : decide ((t.drop magnitude).head? = some (ofChar 'n')) = big
    rw [number_eq hm hb] at found
    split at found
    · cases found
    rename_i ends
    cases found
    have plain : (t.drop magnitude).head? ≠ some (ofChar '_') := by
      intro bar
      obtain rfl : big = false := by rw [← hb, bar]; decide
      exact ends (by simp [runsOn, bar]; decide)
    have suffix : decide ((t'.drop magnitude).head? = some (ofChar 'n')) = big := by
      rcases (h.drop (k := magnitude)).head with same | ⟨none, stops⟩
      · rw [← same, hb]
      · obtain rfl : big = false := by cases big <;> simp_all
        exact decide_eq_false (RunsOn.head_ne (by decide) stops)
    have behind : ¬runsOn (t'.drop (magnitude + big.toNat)) = true := by
      rcases h.2 with same | stops
      · rwa [runsOn, ← same]
      · simp [stops]
    have pointed : Points magnitude t t' := by
      intro point
      rcases (h.drop (k := magnitude)).head with same | ⟨none, _⟩
      · exact .inl (same.trans point)
      · obtain rfl : big = false := by cases big <;> simp_all
        exact points point
    rw [number_eq (magnitudeLength_agree hm positive h.left plain pointed) suffix, if_neg behind]

theorem number_alike {kind : TokenKind} {c : CodePoint} {rest : Text}
    (front : c.isDigit = true ∨ c = '.')
    (found : number (c :: rest) = .ok (kind, n)) (h : Alike n (c :: rest) t') :
    number t' = .ok (kind, n) := by
  have plain : Text.startsWord ((c :: rest).drop n) = false := Bool.eq_false_iff.2 fun word => by
    obtain ⟨d, hd, start⟩ := (Option.any_eq_true _ _).1 word
    have ends : runsOn ((c :: rest).drop n) = false := number_ends found
    rw [runsOn, hd] at ends
    simp [start] at ends
  exact number_agree front found (.of_alike h plain) fun point =>
    .inl (((Alike.drop (n := 0) h).head_eq plain).trans point)

theorem take_alike {k : Nat} (h : Alike (t.take k).length t t') : t'.take k = t.take k := by
  induction k generalizing t t' with
  | zero => rfl
  | succ k ih =>
    cases t with
    | nil =>
      have empty := h.head_eq rfl
      rw [List.head?_eq_none_iff.1 empty.symm]
    | cons c rest =>
      obtain ⟨later, rfl, alike⟩ := h.cons
      simp [ih alike]

/-- A stretch and the character that ends it, or a stretch that the text ends. -/
theorem takeWhile_alike {p : CodePoint → Bool} (h : Alike ((t.takeWhile p).length +
      (if (t.takeWhile p).length < t.length then 1 else 0)) t t') :
    t'.takeWhile p = t.takeWhile p ∧
      ((t.takeWhile p).length < t'.length ↔ (t.takeWhile p).length < t.length) := by
  induction t generalizing t' with
  | nil =>
    have empty := h.head_eq rfl
    rw [List.head?_eq_none_iff.1 empty.symm]
    simp
  | cons c rest ih =>
    cases holds : p c with
    | true =>
      simp only [List.takeWhile_cons, holds, if_true, List.length_cons, Nat.add_lt_add_iff_right,
        Nat.add_right_comm _ 1] at h ⊢
      obtain ⟨later, rfl, alike⟩ := h.cons
      obtain ⟨same, longer⟩ := ih alike
      simpa [holds, same] using longer
    | false =>
      simp only [List.takeWhile_cons, holds, Bool.false_eq_true, if_false, List.length_nil,
        List.length_cons, Nat.zero_lt_succ, if_true] at h ⊢
      obtain ⟨later, rfl, _⟩ := h.cons
      simp [holds]

theorem escapeDigits?_alike {digits : Text} (found : escapeDigits? t = some (digits, n))
    (h : Alike n t t') : escapeDigits? t' = some (digits, n) := by
  cases t with
  | nil => cases found
  | cons c rest =>
    by_cases letter : c = 'u'
    case neg => simp [escapeDigits?, letter] at found
    subst letter
    by_cases brace : rest.head? = some (ofChar '{')
    · obtain ⟨rest, rfl⟩ : ∃ inner, rest = ofChar '{' :: inner := by
        cases rest <;> simp_all
      simp only [escapeDigits?, if_true, List.head?_cons, List.tail_cons, Option.some.injEq,
        Prod.mk.injEq] at found
      obtain ⟨rfl, rfl⟩ := found
      rw [Nat.add_assoc, Nat.add_comm 2] at h
      obtain ⟨later₁, rfl, h₁⟩ := h.cons
      obtain ⟨later₂, rfl, h₂⟩ := h₁.cons
      obtain ⟨same, longer⟩ := takeWhile_alike h₂
      simp only [escapeDigits?, if_true, List.head?_cons, List.tail_cons, same, longer]
      congr
    · simp only [escapeDigits?, if_true, brace, if_false, Option.some.injEq, Prod.mk.injEq] at found
      obtain ⟨rfl, rfl⟩ := found
      rw [Nat.add_comm] at h
      obtain ⟨later, rfl, h₁⟩ := h.cons
      have same : rest.head? = later.head? := by
        cases rest with
        | nil => exact h₁.head_eq rfl
        | cons d rest => exact h₁.head_eq_of_pos (by simp)
      rw [same] at brace
      simp only [escapeDigits?, if_true, brace, if_false, take_alike h₁]

theorem escape_alike {d : CodePoint} (found : escape t = .ok (d, n)) (h : Alike n t t') :
    escape t' = .ok (d, n) := by
  cases hd : escapeDigits? t with
  | none =>
    simp only [escape, hd] at found
    cases found
  | some digits =>
    obtain ⟨digits, length⟩ := digits
    have : length = n := by
      simp only [escape, hd] at found
      repeat' split at found
      all_goals first
        | contradiction
        | (cases found; rfl)
    subst this
    rw [← found, escape, escapeDigits?_alike hd h, escape, hd]

theorem name_alike {found : Name} (read : name t = .ok found) (h : Alike found.length t t') :
    name t' = .ok found := by
  induction t using name.induct generalizing t' found with
  | case1 =>
    rw [name] at read
    cases read
    have empty := h.head_eq rfl
    rw [List.head?_eq_none_iff.1 empty.symm, name]
  | case2 rest fault failed =>
    rw [name, if_pos rfl, failed] at read
    cases read
  | case3 rest d length escaped fault failed =>
    rw [name, if_pos rfl, escaped] at read
    simp only [failed] at read
    cases read
  | case4 rest d length escaped later read' ih =>
    rw [name, if_pos rfl, escaped] at read
    simp only [read', Except.ok.injEq] at read
    subst read
    obtain ⟨behind, rfl, h₁⟩ := h.cons
    rw [Nat.add_comm] at h₁
    rw [name, if_pos rfl, escape_alike escaped h₁.left]
    simp only [ih read' h₁.drop]
  | case5 c rest bare part fault failed =>
    rw [name, if_neg bare, if_pos part, failed] at read
    cases read
  | case6 c rest bare part later read' ih =>
    rw [name, if_neg bare, if_pos part, read'] at read
    cases read
    obtain ⟨behind, rfl, h₁⟩ := h.cons
    rw [name, if_neg bare, if_pos part, ih read' h₁]
  | case7 c rest bare part =>
    rw [name, if_neg bare, if_neg part] at read
    cases read
    have plain : c.isIdentifierStart = false :=
      Bool.eq_false_iff.2 fun start => part (isIdentifierPart_of_isIdentifierStart start)
    have same := h.head_eq (by simp [startsWord, plain])
    obtain ⟨behind, rfl⟩ : ∃ behind, t' = c :: behind := by
      cases t' <;> simp_all
    rw [name, if_neg bare, if_neg part]

end Lexeme

end Uncurry
