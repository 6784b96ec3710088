import Uncurry.Proofs.Lexical.Locality

/-!
# Lexemes end where the text ends

Every recogniser counts characters that are there.
-/
namespace Uncurry.Lexeme

variable {t rest : Text} {n : Nat} {c : CodePoint}

theorem lineCommentLength_le (t : Text) : lineCommentLength t ≤ t.length := by
  rw [lineCommentLength_eq]
  exact (List.takeWhile_prefix _).length_le

theorem partsLength_le (t : Text) : partsLength t ≤ t.length := by
  rw [partsLength_eq]
  exact (List.takeWhile_prefix _).length_le

theorem stringLength?_le {quote : CodePoint} (h : stringLength? quote t = some n) :
    n ≤ t.length := by
  fun_induction stringLength? quote t generalizing n
  all_goals first
    | contradiction
    | (cases h; simp)
    | rename_i ih
      obtain ⟨m, hm, rfl⟩ := Option.map_eq_some_iff.1 h
      have := ih hm
      simp only [List.length_cons] at this ⊢
      omega

theorem chunkLength?_le {chunk : Nat × ChunkEnd} (h : chunkLength? t = some chunk) :
    chunk.1 ≤ t.length := by
  fun_induction chunkLength? t generalizing chunk
  case case5 c rest _ _ closes =>
    cases h
    cases rest with
    | nil => simp at closes
    | cons d rest => simp
  all_goals first
    | contradiction
    | (cases h; simp)
    | rename_i ih
      obtain ⟨m, hm, rfl⟩ := Option.map_eq_some_iff.1 h
      have := ih hm
      simp only [List.length_cons]
      omega

theorem regexLength?_le (h : regexLength? t = some n) : n ≤ t.length := by
  have body {inClass : Bool} {t : Text} {n : Nat} (h : regexBodyLength? inClass t = some n) :
      n ≤ t.length := by
    fun_induction regexBodyLength? inClass t generalizing n
    all_goals first
      | contradiction
      | (cases h; simp)
      | rename_i ih
        obtain ⟨m, hm, rfl⟩ := Option.map_eq_some_iff.1 h
        have := ih hm
        simp only [List.length_cons]
        omega
  obtain ⟨m, hm, rfl⟩ := Option.map_eq_some_iff.1 h
  have := body hm
  have := partsLength_le (t.drop m)
  rw [List.length_drop] at this
  omega

theorem digitsLength_le (isDigit : CodePoint → Bool) (afterDigit : Bool) (t : Text) :
    digitsLength isDigit afterDigit t ≤ t.length := by
  induction t generalizing afterDigit with
  | nil => exact Nat.le_refl 0
  | cons c rest ih =>
    have := ih true
    have := ih afterDigit
    simp only [digitsLength, List.length_cons]
    repeat' split
    all_goals omega

theorem fractionLength_le (t : Text) : fractionLength t ≤ t.length := by
  cases t with
  | nil => exact Nat.le_refl 0
  | cons c rest =>
    have := digitsLength_le CodePoint.isDigit false rest
    simp only [fractionLength, List.length_cons]
    split <;> omega

theorem exponentLength_le (h : exponentLength t = .ok n) : n ≤ t.length := by
  cases t with
  | nil =>
    cases h
    exact Nat.le_refl 0
  | cons c rest =>
    simp only [exponentLength] at h
    generalize (if rest.head?.any (fun (d : CodePoint) => d = '+' || d = '-') = true then 1
      else 0) = sign at h
    have digits := digitsLength_le CodePoint.isDigit false (rest.drop sign)
    split at h
    · cases hd : digitsLength CodePoint.isDigit false (rest.drop sign) with
      | zero =>
        rw [hd] at h
        cases h
      | succ count =>
        rw [hd] at h digits
        cases h
        simp only [List.length_drop, List.length_cons] at digits ⊢
        omega
    · cases h
      exact Nat.zero_le _

theorem magnitudeLength_le (h : magnitudeLength t = .ok n) : n ≤ t.length := by
  rw [magnitudeLength] at h
  split at h
  · rename_i radix _
    have digits := digitsLength_le radix.isDigit false (t.drop 2)
    cases hd : digitsLength radix.isDigit false (t.drop 2) with
    | zero =>
      rw [hd] at h
      cases h
    | succ count =>
      rw [hd] at h digits
      cases h
      simp only [List.length_drop] at digits
      omega
  · simp only [decimalLength, bind, Except.bind] at h
    split at h
    · cases h
    · rename_i he
      cases h
      have := digitsLength_le CodePoint.isDigit false t
      have := fractionLength_le (t.drop (digitsLength CodePoint.isDigit false t))
      have := exponentLength_le he
      simp only [List.length_drop] at *
      omega

theorem number_le {kind : TokenKind} (h : number t = .ok (kind, n)) : n ≤ t.length := by
  cases hm : magnitudeLength t with
  | error cause =>
    simp only [number, bind, Except.bind, hm] at h
    cases h
  | ok magnitude =>
    have within := magnitudeLength_le hm
    generalize hb : decide ((t.drop magnitude).head? = some (CodePoint.ofChar 'n')) = big
    rw [number_eq hm hb] at h
    split at h
    · cases h
    cases h
    cases big with
    | false => exact within
    | true =>
      rw [decide_eq_true_eq, List.head?_drop] at hb
      exact (List.getElem?_eq_some_iff.1 hb).1

theorem escapeDigits?_le {digits : Text} (h : escapeDigits? t = some (digits, n)) :
    n ≤ t.length := by
  cases t with
  | nil => cases h
  | cons c rest =>
    simp only [escapeDigits?] at h
    split at h
    · split at h
      · rename_i brace
        cases h
        have inner := (List.takeWhile_prefix (· != CodePoint.ofChar '}') (l := rest.tail)).length_le
        have whole := List.length_tail (l := rest)
        have nonempty : 0 < rest.length := by
          cases rest with
          | nil => cases brace
          | cons => exact Nat.succ_pos _
        rw [List.length_cons]
        split <;> omega
      · cases h
        simp only [List.length_take, List.length_cons]
        omega
    · cases h

theorem escape_le {d : CodePoint} (h : escape t = .ok (d, n)) : n ≤ t.length := by
  rw [escape] at h
  split at h
  · cases h
  rename_i digits length hd
  have within := escapeDigits?_le hd
  repeat' split at h
  all_goals first
    | contradiction
    | (cases h; exact within)

theorem name_le {found : Name} (h : name t = .ok found) : found.length ≤ t.length := by
  fun_induction name t generalizing found
  case case4 rest d length escaped later read ih =>
    cases h
    have := escape_le escaped
    have := ih read
    simp only [List.length_drop, List.length_cons] at *
    omega
  case case6 c rest bare part later read ih =>
    cases h
    have := ih read
    simp only [List.length_cons]
    omega
  all_goals first
    | contradiction
    | (cases h; simp)

end Uncurry.Lexeme
