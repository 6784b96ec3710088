import Uncurry.Proofs.Lexical.Failures
import Uncurry.Proofs.Lexical.Regexes
import Uncurry.Proofs.Lexical.Templates

/-!
# Texts that blank lines follow

Blank lines behind a text change neither the kinds of its tokens (`Reads.spaced`) nor the fault that
it has, unless more lines could mend it (`Lexeme.scan_spaced_error`). An escape that the end of the
text cut off may take some of the blanks along, but these are no digits of its number.
-/
namespace Uncurry

open CodePoint

/-- Whether more text could mend a fault. -/
def LexemeFault.isOpen : LexemeFault → Bool
  | .malformed cause _ => cause.isOpen
  | .escapeOverflow => false

/-- There is nothing in a text but spaces and line feeds. -/
def Text.IsSpacing (t : Text) : Prop := ∀ c ∈ t, c = ofChar ' ' ∨ c = ofChar '\n'

namespace Text.IsSpacing

variable {pad taken behind t : Text} {c : CodePoint} {d : Char}

theorem cons_iff : IsSpacing (c :: pad) ↔ (c = ofChar ' ' ∨ c = ofChar '\n') ∧ IsSpacing pad :=
  List.forall_mem_cons

theorem append_iff : IsSpacing (taken ++ behind) ↔ IsSpacing taken ∧ IsSpacing behind :=
  List.forall_mem_append

theorem spaced (h : IsSpacing pad) (some : pad ≠ []) : Spaced pad := by
  obtain ⟨c, later, rfl⟩ := List.exists_cons_of_ne_nil some
  exact ⟨c, later, rfl, (cons_iff.1 h).1⟩

/-- No other character is one of spacing. -/
theorem ne (h : IsSpacing pad) (other : d ≠ ' ' ∧ d ≠ '\n') : ∀ c ∈ pad, c ≠ ofChar d := by
  rintro c member rfl
  exact (h _ member).elim (fun same => other.1 (ofChar_injective same))
    fun same => other.2 (ofChar_injective same)

/-- A test that holds of no space and no line feed tells nothing about spacing. -/
theorem any_head (h : IsSpacing pad) {test : CodePoint → Bool} (free : Lexeme.SpaceFree test) :
    (t ++ pad).head?.any test = t.head?.any test := by
  cases t with
  | cons c t => rfl
  | nil =>
    cases pad with
    | nil => rfl
    | cons c pad =>
      obtain ⟨rfl | rfl, -⟩ := cons_iff.1 h
      · exact free.1
      · exact free.2

theorem head_iff (h : IsSpacing pad) (other : d ≠ ' ' ∧ d ≠ '\n') :
    (t ++ pad).head? = some (ofChar d) ↔ t.head? = some (ofChar d) := by
  cases t with
  | cons c t => rfl
  | nil =>
    have free : pad.head? ≠ some (ofChar d) := fun head =>
      h.ne other _ (List.mem_of_mem_head? head) rfl
    simpa using free

end Text.IsSpacing

/-- Spacing behind a number does not matter. -/
theorem Text.HexInteger.read_spacing {pad : Text} (t : Text) (spacing : pad.IsSpacing) :
    read (t ++ pad) = read t := by
  induction pad generalizing t with
  | nil => rw [List.append_nil]
  | cons c pad ih =>
    obtain ⟨blank, later⟩ := Text.IsSpacing.cons_iff.1 spacing
    have own : read (t ++ [c]) = read t := by
      obtain rfl | rfl := blank <;> exact read_padded t (by decide) (by decide) (by decide)
    rw [← List.singleton_append, ← List.append_assoc, ih _ later, own]

namespace Lexeme

open Text

variable {context context' : LexContext} {first : Bool} {c quote : CodePoint}
  {t pad rest written : Text} {lexeme : Lexeme} {cause : LexCause} {fault : LexemeFault} {n : Nat}

section

variable (spacing : IsSpacing pad)

include spacing

theorem digitsLength_spacing {isDigit : CodePoint → Bool} (free : SpaceFree isDigit)
    (afterDigit : Bool) (t : Text) :
    digitsLength isDigit afterDigit (t ++ pad) = digitsLength isDigit afterDigit t := by
  induction t generalizing afterDigit with
  | cons c t ih => simp only [List.cons_append, digitsLength, spacing.any_head free, ih]
  | nil =>
    cases pad with
    | nil => rfl
    | cons c pad =>
      have plain : isDigit c = false ∧ c ≠ ofChar '_' := by
        obtain ⟨rfl | rfl, -⟩ := IsSpacing.cons_iff.1 spacing
        · exact ⟨free.1, by decide⟩
        · exact ⟨free.2, by decide⟩
      simp [digitsLength, plain]

theorem fractionLength_spacing (t : Text) : fractionLength (t ++ pad) = fractionLength t := by
  cases t with
  | cons c t =>
    simp only [List.cons_append, fractionLength,
      digitsLength_spacing spacing spaceFree_isDigit]
  | nil =>
    cases pad with
    | nil => rfl
    | cons c pad =>
      have point : c ≠ ofChar '.' := spacing.ne (by decide) c List.mem_cons_self
      simp [fractionLength, point]

theorem exponentLength_spacing (t : Text) : exponentLength (t ++ pad) = exponentLength t := by
  cases t with
  | nil =>
    cases pad with
    | nil => rfl
    | cons c pad =>
      have letter : c ≠ ofChar 'e' ∧ c ≠ ofChar 'E' :=
        ⟨spacing.ne (by decide) c List.mem_cons_self, spacing.ne (by decide) c List.mem_cons_self⟩
      simp [exponentLength, letter]
  | cons c t =>
    have sign : (t ++ pad).head?.any (fun (d : CodePoint) => d = '+' || d = '-') =
        t.head?.any (fun (d : CodePoint) => d = '+' || d = '-') :=
      spacing.any_head ⟨by decide, by decide⟩
    have behind : ∀ n, (n = 1 → t.head?.any (fun (d : CodePoint) => d = '+' || d = '-') = true) →
        n ≤ 1 → digitsLength CodePoint.isDigit false ((t ++ pad).drop n) =
          digitsLength CodePoint.isDigit false (t.drop n) := by
      intro n signed small
      rw [List.drop_append_of_le_length, digitsLength_spacing spacing spaceFree_isDigit]
      cases t with
      | nil => simp at signed; omega
      | cons d t => simp; omega
    rw [List.cons_append, exponentLength, exponentLength, sign]
    dsimp only
    rw [behind _ (fun one => by split at one; assumption; cases one) (by split <;> decide)]

theorem decimalLength_spacing (t : Text) : decimalLength (t ++ pad) = decimalLength t := by
  have whole := digitsLength_le CodePoint.isDigit false t
  have fraction := fractionLength_le (t.drop (digitsLength CodePoint.isDigit false t))
  rw [List.length_drop] at fraction
  simp only [decimalLength, digitsLength_spacing spacing spaceFree_isDigit,
    List.drop_append_of_le_length whole, fractionLength_spacing spacing]
  rw [List.drop_append_of_le_length (by omega), exponentLength_spacing spacing]

theorem radix?_spacing (t : Text) : radix? (t ++ pad) = radix? t := by
  rcases t with _ | ⟨c, _ | ⟨d, t⟩⟩
  · rcases pad with _ | ⟨c, _ | ⟨d, pad⟩⟩
    · rfl
    · rfl
    · have zero : c ≠ ofChar '0' := spacing.ne (by decide) c List.mem_cons_self
      simp [radix?, zero]
  · cases pad with
    | nil => rfl
    | cons d pad =>
      have letter : Radix.ofLetter? d = none := by
        obtain ⟨rfl | rfl, -⟩ := IsSpacing.cons_iff.1 spacing <;> decide
      simp [radix?, letter]
  · rfl

theorem magnitudeLength_spacing (t : Text) : magnitudeLength (t ++ pad) = magnitudeLength t := by
  rw [magnitudeLength, magnitudeLength, radix?_spacing spacing, decimalLength_spacing spacing]
  cases chosen : radix? t with
  | none => rfl
  | some radix =>
    have long : 2 ≤ t.length := by
      rcases t with _ | ⟨c, _ | ⟨d, t⟩⟩
      · cases chosen
      · cases chosen
      · simp
    have free : SpaceFree radix.isDigit := by cases radix <;> constructor <;> decide
    dsimp only
    rw [List.drop_append_of_le_length long, digitsLength_spacing spacing free]

/-- Spacing behind a number, or behind what is meant to be one, does not matter. -/
theorem number_spacing (t : Text) : number (t ++ pad) = number t := by
  cases hm : magnitudeLength t with
  | error fault =>
    have padded := (magnitudeLength_spacing spacing t).trans hm
    simp only [number, bind, Except.bind, hm, padded]
  | ok magnitude =>
    have within := magnitudeLength_le hm
    have padded := (magnitudeLength_spacing spacing t).trans hm
    have suffix : decide (((t ++ pad).drop magnitude).head? = some (ofChar 'n')) =
        decide ((t.drop magnitude).head? = some (ofChar 'n')) := by
      rw [List.drop_append_of_le_length within, decide_eq_decide]
      exact spacing.head_iff (by decide)
    have inside : magnitude + (decide ((t.drop magnitude).head? = some (ofChar 'n'))).toNat ≤
        t.length := by
      by_cases big : (t.drop magnitude).head? = some (ofChar 'n')
      · obtain ⟨later, behind⟩ := List.head?_eq_some_iff.1 big
        have count := congrArg List.length behind
        rw [List.length_drop, List.length_cons] at count
        simp only [big, decide_true, Bool.toNat_true]
        omega
      · simpa only [big, decide_false, Bool.toNat_false, Nat.add_zero] using within
    rw [number_eq padded suffix, number_eq hm rfl, List.drop_append_of_le_length inside, runsOn,
      spacing.any_head ⟨by decide, by decide⟩, ← runsOn]

theorem stringLength?_spacing_nil (quoted : quote = '"' ∨ quote = '\'') :
    stringLength? quote pad = none := by
  induction pad with
  | nil => rfl
  | cons c pad ih =>
    obtain ⟨rfl | rfl, later⟩ := IsSpacing.cons_iff.1 spacing
    · have plain : ofChar ' ' ≠ quote ∧ ofChar ' ' ≠ ofChar '\n' ∧ ofChar ' ' ≠ ofChar '\r' ∧
          ofChar ' ' ≠ ofChar '\\' := by
        obtain rfl | rfl := quoted <;> decide
      rw [stringLength?.eq_def]
      simp [plain, ih later]
    · have other : ofChar '\n' ≠ quote := by obtain rfl | rfl := quoted <;> decide
      rw [stringLength?.eq_def]
      simp [other]

/-- A string without an end does not get one from spacing, not even behind a backslash. -/
theorem stringLength?_spacing (quoted : quote = '"' ∨ quote = '\'')
    (lacking : stringLength? quote t = none) : stringLength? quote (t ++ pad) = none := by
  fun_induction stringLength? quote t with
  | case1 => exact stringLength?_spacing_nil spacing quoted
  | case2 => cases lacking
  | case3 c rest other line =>
    rw [List.cons_append, stringLength?.eq_def]
    simp [other, line]
  | case4 other line =>
    rw [List.cons_append, List.nil_append, stringLength?.eq_def]
    simp only [other, line, if_true, if_false]
    rcases pad with _ | ⟨d, _ | ⟨e, pad⟩⟩
    · rfl
    · rfl
    · have plain : d ≠ ofChar '\r' := spacing.ne (by decide) d List.mem_cons_self
      have later := stringLength?_spacing_nil (IsSpacing.cons_iff.1 spacing).2 quoted
      simp [plain, later]
  | case5 d other line =>
    rw [List.cons_append, List.cons_append, List.nil_append, stringLength?.eq_def]
    simp only [other, line, if_true, if_false]
    cases pad with
    | nil => rfl
    | cons e pad =>
      have later := stringLength?_spacing_nil (IsSpacing.cons_iff.1 spacing).2 quoted
      have all := stringLength?_spacing_nil spacing quoted
      simp [later, all]
  | case6 d e later both other line ih =>
    rw [Option.map_eq_none_iff] at lacking
    simp only [List.cons_append]
    rw [stringLength?.eq_def]
    simp [other, line, both, ih lacking]
  | case7 d e later both other line ih =>
    rw [Option.map_eq_none_iff] at lacking
    have again := ih lacking
    simp only [List.cons_append] at again ⊢
    rw [stringLength?.eq_def]
    simp [other, line, both, again]
  | case8 c rest other line bare ih =>
    rw [Option.map_eq_none_iff] at lacking
    rw [List.cons_append, stringLength?.eq_def]
    simp [other, line, bare, ih lacking]

end

theorem escapeDigits?_none (spacing : IsSpacing pad) (none : escapeDigits? t = .none) :
    escapeDigits? (t ++ pad) = .none := by
  cases t with
  | nil =>
    cases pad with
    | nil => rfl
    | cons c pad =>
      have letter : c ≠ ofChar 'u' := spacing.ne (by decide) c List.mem_cons_self
      simp [escapeDigits?, letter]
  | cons c t =>
    by_cases letter : c = 'u'
    · simp only [escapeDigits?, letter, if_true] at none
      split at none <;> cases none
    · simp [escapeDigits?, letter]

/-- An escape depends on its digits by the number that they are. -/
theorem escape_digits {t' digits digits' : Text} {n' : Nat}
    (found : escapeDigits? t = some (digits, n)) (found' : escapeDigits? t' = some (digits', n'))
    (same : HexInteger.read digits' = HexInteger.read digits) :
    escape t' = (escape t).map fun read => (read.1, n') := by
  simp only [escape, found, found', same]
  cases HexInteger.read digits with
  | none => rfl
  | some value =>
    dsimp only
    repeat' split
    all_goals rfl

/-- Spacing behind an escape is no part of it, or some of it is taken along since the text ends
within the escape. -/
theorem escape_spacing (spacing : IsSpacing pad) (t : Text) : escape (t ++ pad) = escape t ∨
    ∃ d taken behind, pad = taken ++ behind ∧ escape t = .ok (d, t.length) ∧
      escape (t ++ pad) = .ok (d, t.length + taken.length) := by
  cases hd : escapeDigits? t with
  | none => exact .inl (by simp only [escape, hd, escapeDigits?_none spacing hd])
  | some found =>
    obtain ⟨digits, n⟩ := found
    rcases escapeDigits?_spaced hd with complete | ⟨rfl, along⟩
    · have same : Same n t (t ++ pad) := by
        rw [Same, List.take_append_of_le_length (escapeDigits?_le hd)]
      exact .inl (by simp only [escape, hd, complete _ same])
    · obtain ⟨taken, ⟨behind, rfl⟩, -, cut⟩ := along pad fun c member =>
        ⟨spacing.ne (by decide) c member, spacing.ne (by decide) c member⟩
      have padded := escape_digits hd cut
        (HexInteger.read_spacing digits (IsSpacing.append_iff.1 spacing).1)
      cases read : escape t with
      | error fault =>
        rw [read] at padded
        exact .inl padded
      | ok found =>
        obtain ⟨d, n⟩ := found
        obtain ⟨_, _, hd', -⟩ := escape_ok.1 read
        obtain ⟨-, rfl⟩ := Prod.mk.inj (Option.some.inj (hd.symm.trans hd'))
        rw [read] at padded
        exact .inr ⟨d, taken, behind, rfl, rfl, padded⟩

theorem name_spacing_nil (spacing : IsSpacing pad) : name pad = .ok ⟨[], 0, false⟩ :=
  name_none (spacing.any_head (t := []) ⟨by decide, by decide⟩)

/-- A word is the same if spacing follows, or its last escape takes some of this along. -/
theorem name_spacing (spacing : IsSpacing pad) (t : Text) : name (t ++ pad) = name t ∨
    ∃ found taken behind, pad = taken ++ behind ∧ name t = .ok found ∧ found.length = t.length ∧
      name (t ++ pad) = .ok { found with length := t.length + taken.length } := by
  induction t using name.induct with
  | case1 =>
    left
    rw [List.nil_append, name_spacing_nil spacing, name]
  | case2 rest fault failed =>
    rcases escape_spacing spacing rest with same | ⟨d, taken, behind, -, read, -⟩
    · left
      rw [List.cons_append, name, if_pos rfl, name, if_pos rfl, same, failed]
    · rw [failed] at read
      cases read
  | case3 rest d length escaped fault failed ih =>
    have within := escape_le escaped
    rcases escape_spacing spacing rest with same | ⟨_, taken, behind, -, read, -⟩
    · rcases ih with same' | ⟨found, taken, behind, -, read, -⟩
      · left
        rw [List.cons_append, name, if_pos rfl, name, if_pos rfl, same, escaped]
        simp only [List.drop_append_of_le_length within, same']
      · rw [failed] at read
        cases read
    · obtain ⟨-, rfl⟩ := Prod.mk.inj (Except.ok.inj (escaped.symm.trans read))
      rw [List.drop_length, name] at failed
      cases failed
  | case4 rest d length escaped later read ih =>
    have within := escape_le escaped
    have own : name (ofChar '\\' :: rest) =
        .ok ⟨d :: later.spelling, later.length + length + 1, true⟩ := by
      rw [name, if_pos rfl, escaped]
      simp only [read]
    rcases escape_spacing spacing rest with same | ⟨_, taken, behind, rfl, whole, along⟩
    · rcases ih with same' | ⟨found, taken, behind, rfl, read', count, along⟩
      · left
        rw [own, List.cons_append, name, if_pos rfl, same, escaped]
        simp only [List.drop_append_of_le_length within, same', read]
      · obtain rfl := Except.ok.inj (read.symm.trans read')
        rw [List.length_drop] at count along
        refine .inr ⟨_, taken, behind, rfl, own, ?_, ?_⟩
        · rw [List.length_cons]
          dsimp only
          omega
        · rw [List.cons_append, name, if_pos rfl, same, escaped]
          simp only [List.drop_append_of_le_length within, along, Except.ok.injEq, Name.mk.injEq,
            true_and, and_true, List.length_cons]
          omega
    · obtain ⟨rfl, rfl⟩ := Prod.mk.inj (Except.ok.inj (escaped.symm.trans whole))
      rw [List.drop_length, name] at read
      cases read
      have none : name ((rest ++ (taken ++ behind)).drop (rest.length + taken.length)) =
          .ok ⟨[], 0, false⟩ := by
        rw [← List.append_assoc, List.drop_left' (by simp)]
        exact name_spacing_nil (IsSpacing.append_iff.1 spacing).2
      refine .inr ⟨_, taken, behind, rfl, own, by simp, ?_⟩
      rw [List.cons_append, name, if_pos rfl, along]
      simp only [none, Except.ok.injEq, Name.mk.injEq, true_and, and_true, List.length_cons]
      omega
  | case5 c rest bare part fault failed ih =>
    rcases ih with same | ⟨found, taken, behind, -, read, -⟩
    · left
      rw [List.cons_append, name, if_neg bare, if_pos part, name, if_neg bare, if_pos part, same]
    · rw [failed] at read
      cases read
  | case6 c rest bare part later read ih =>
    rcases ih with same | ⟨found, taken, behind, rfl, read', count, along⟩
    · left
      rw [List.cons_append, name, if_neg bare, if_pos part, name, if_neg bare, if_pos part, same]
    · obtain rfl := Except.ok.inj (read.symm.trans read')
      refine .inr ⟨⟨c :: later.spelling, later.length + 1, later.escaped⟩, taken, behind, rfl, ?_,
        by simpa using count, ?_⟩
      · rw [name, if_neg bare, if_pos part, read]
      · rw [List.cons_append, name, if_neg bare, if_pos part, along]
        simp only [Except.ok.injEq, Name.mk.injEq, true_and, and_true, List.length_cons]
        omega
  | case7 c rest bare part =>
    left
    rw [List.cons_append, name, if_neg bare, if_neg part, name, if_neg bare, if_neg part]

/-- A pattern without spaces does not reach into spacing. -/
theorem isPrefixOf_spacing (spacing : IsSpacing pad) {pattern : Text}
    (free : ∀ c ∈ pattern, c ≠ ofChar ' ' ∧ c ≠ ofChar '\n') :
    pattern.isPrefixOf (t ++ pad) = pattern.isPrefixOf t := by
  rw [Bool.eq_iff_iff, List.isPrefixOf_iff_prefix, List.isPrefixOf_iff_prefix]
  refine ⟨fun opens => ?_, fun opens => opens.trans (List.prefix_append ..)⟩
  by_cases none : pad = []
  · rwa [none, List.append_nil] at opens
  · have spaced := spacing.spaced none
    exact spaced.of_prefix free opens

theorem punctuator?_spacing (spacing : IsSpacing pad) (none : punctuator? t = .none) :
    punctuator? (t ++ pad) = .none := by
  rw [punctuator?, Option.map_eq_none_iff, List.find?_eq_none] at none ⊢
  intro entry member
  have front := @isPrefixOf_spacing t pad spacing _ (punctuators_spaceFree entry member)
  have refused := none entry member
  by_cases opens : (Text.ofString entry.1).isPrefixOf t = true
  · simp only [opens, Bool.true_and, Bool.not_eq_true, Bool.not_eq_false', Bool.and_eq_true,
      decide_eq_true_eq, front] at refused ⊢
    obtain ⟨chain, digit⟩ := refused
    refine ⟨chain, ?_⟩
    obtain rfl := optionalChain_entry entry member chain
    have long : 2 ≤ t.length := (List.isPrefixOf_iff_prefix.1 opens).length_le
    rwa [List.drop_append_of_le_length long, spacing.any_head spaceFree_isDigit]
  · simp [front, opens]

/-- A fault that no further lines could mend remains one if spacing follows. -/
theorem scan_spacing_error (spacing : IsSpacing pad) (closed : fault.isOpen = false)
    (h : scan context first c rest = .error fault) :
    scan context first c (rest ++ pad) = .error fault := by
  have next {d : Char} (other : d ≠ ' ' ∧ d ≠ '\n') : ((rest ++ pad).head? = some (ofChar d)) =
      (rest.head? = some (ofChar d)) := propext (spacing.head_iff other)
  have markup := @isPrefixOf_spacing rest pad spacing (Text.ofString "!--") (by decide)
  have digit := spacing.any_head (t := rest) spaceFree_isDigit
  have word : (rest ++ pad).head?.any isIdentifierStart = rest.head?.any isIdentifierStart :=
    spacing.any_head ⟨by decide, by decide⟩
  revert h
  rw [scan, scan]
  simp only [next (d := '!') (by decide), next (d := '/') (by decide),
    next (d := '*') (by decide), markup, digit, word]
  refine ite_imp (fun _ h => by cases h) fun _ => ite_imp (fun _ h => by cases h) fun _ =>
    ite_imp (fun _ h => by cases h) fun _ => ite_imp (fun _ h => by cases h) fun _ =>
    ite_imp (fun block h => ?_) fun _ => ite_imp (fun _ h => by cases h) fun _ =>
    ite_imp (fun quote h => ?_) fun _ => ite_imp (fun tick h => ?_) fun _ =>
    ite_imp (fun front h => ?_) fun _ => ite_imp (fun front h => ?_) fun _ =>
    ite_imp (fun hash h => ?_) fun _ => ite_imp (fun slash h => ?_) fun _ =>
    ite_imp (fun brace h => ?_) fun _ h => ?_
  all_goals simp only [Bool.and_eq_true, Bool.or_eq_true, decide_eq_true_eq] at *
  · split at h
    · cases h
    · cases h
      cases closed
  · cases lacking : stringLength? c rest with
    | none =>
      rw [lacking] at h
      rw [stringLength?_spacing spacing quote lacking, ← h]
    | some => simp [orFault, lacking] at h
  · cases lacking : chunkLength? rest with
    | none =>
      simp only [chunk, lacking] at h
      cases h
      cases closed
    | some => simp [chunk, lacking] at h
  · rw [← List.cons_append, number_spacing spacing]
    exact h
  · rcases name_spacing spacing (c :: rest) with same | ⟨found, _, _, -, read, -⟩
    · rw [← List.cons_append, same]
      exact h
    · rw [read] at h
      cases h
  · exact ite_imp (fun _ h => by cases h) (fun _ h => h) h
  · cases lacking : regexLength? rest with
    | none =>
      rw [lacking] at h
      cases h
      cases closed
    | some => simp [orFault, lacking] at h
  · cases lacking : chunkLength? rest with
    | none =>
      simp only [chunk, lacking] at h
      cases h
      cases closed
    | some => simp [chunk, lacking] at h
  · cases none : punctuator? (c :: rest) with
    | none =>
      rw [none] at h
      rw [← List.cons_append, punctuator?_spacing spacing none]
      exact h
    | some =>
      rw [none] at h
      cases h

/-- A lexeme that reaches to the end of a text is the same if blank lines follow, but for a word
whose last escape takes some of them along. -/
theorem scan_spacing_ok (spacing : IsSpacing pad)
    (h : scan context first c written = .ok (lexeme, written.length)) :
    ∃ taken behind, ofChar '\n' :: pad = taken ++ behind ∧
      scan context first c (written ++ (taken ++ behind)) =
        .ok (lexeme, (written ++ taken).length) := by
  have all : IsSpacing (ofChar '\n' :: pad) := IsSpacing.cons_iff.2 ⟨.inr rfl, spacing⟩
  have same (found : scan context first c (written ++ ofChar '\n' :: pad) =
      .ok (lexeme, written.length)) : ∃ taken behind, ofChar '\n' :: pad = taken ++ behind ∧
      scan context first c (written ++ (taken ++ behind)) =
        .ok (lexeme, (written ++ taken).length) :=
    ⟨[], _, rfl, by rwa [List.append_nil]⟩
  cases lexeme with
  | word kind text =>
    obtain ⟨front, found, read, rfl, rfl, length⟩ := scan_eq_word h
    have positive := name_pos front read
    have word {rest : Text} {found' : Name} (read : name (c :: rest) = .ok found')  :
        scan context first c rest = .ok (.word found'.kind found'.spelling, found'.length - 1) := by
      rw [scan_wordStart front, read]
    rcases name_spacing all (c :: written) with unchanged | ⟨_, taken, behind, split, own, _, along⟩
    · rw [read] at unchanged
      exact same ((word unchanged).trans (by rw [length]))
    · obtain rfl := Except.ok.inj (read.symm.trans own)
      rw [split] at along ⊢
      refine ⟨taken, behind, rfl, (word along).trans (congrArg (fun n => Except.ok (_, n)) ?_)⟩
      rw [List.length_cons, List.length_append]
      dsimp only
      omega
  | token kind =>
    have own : scan context first c (written ++ []) = .ok (.token kind, written.length) := by
      rwa [List.append_nil]
    exact same (scan_token_spaced own ⟨_, pad, rfl, .inr rfl⟩ rfl rfl)
  | newline =>
    generalize written.length = length at h same
    cases scanned_of_scan h with
    | newline line => exact same (scan_newline line)
  | blank =>
    generalize written.length = length at h same
    cases scanned_of_scan h with
    | blank line blank => exact same (scan_blank line blank)
  | comment => exact same (scan_comment_feed h pad)

end Lexeme

variable {context context' : LexContext} {first : Bool} {items : List Item} {pad : Text}

/-- Spacing is read without a token. -/
theorem Reads.ofSpacing (spacing : pad.IsSpacing) (context : LexContext) (first : Bool) :
    ∃ items context', Item.textOf items = pad ∧ Reads context first items [] context' ∧
      items.filterMap (Item.kind? .skip) = [] := by
  induction pad generalizing context first with
  | nil => exact ⟨[], context, rfl, .nil .., rfl⟩
  | cons c pad ih =>
    obtain ⟨blank, later⟩ := Text.IsSpacing.cons_iff.1 spacing
    obtain ⟨lexeme, scanned, none⟩ : ∃ lexeme,
        (∀ t, Lexeme.scan context first c t = .ok (lexeme, 0)) ∧
          Item.kind? .skip ⟨lexeme, [c]⟩ = none := by
      obtain rfl | rfl := blank
      · exact ⟨.blank, fun t => Lexeme.scan_blank (by decide) (by decide), rfl⟩
      · exact ⟨.newline, fun t => Lexeme.scan_newline (by decide), rfl⟩
    obtain ⟨items, context', text, reads, kinds⟩ := ih later (context.behind ⟨lexeme, [c]⟩) false
    refine ⟨⟨lexeme, [c]⟩ :: items, context', by rw [Item.textOf_cons, text]; rfl,
      .cons (scanned _) reads, ?_⟩
    rw [List.filterMap_cons_none none, kinds]

/-- A text that is read to its end is read with tokens of the same kinds if blank lines follow. -/
theorem Reads.spaced (h : Reads context first items [] context') (spacing : pad.IsSpacing) :
    ∃ items' context'', Item.textOf items' = Item.textOf items ++ ofChar '\n' :: pad ∧
      Reads context first items' [] context'' ∧
      items'.filterMap (Item.kind? .skip) = items.filterMap (Item.kind? .skip) := by
  have all : Text.IsSpacing (ofChar '\n' :: pad) := Text.IsSpacing.cons_iff.2 ⟨.inr rfl, spacing⟩
  generalize nothing : ([] : Text) = tail at h
  induction h with
  | nil context first =>
    obtain ⟨items, context', text, reads, kinds⟩ := Reads.ofSpacing all context first
    exact ⟨items, context', text, nothing ▸ reads, kinds⟩
  | @cons context _ _ lexeme c rest _ items scanned reads ih =>
    subst nothing
    rw [List.append_nil] at scanned
    have kind (written : Text) : Item.kind? .skip ⟨lexeme, written⟩ =
        Item.kind? .skip ⟨lexeme, c :: rest⟩ := by
      cases lexeme <;> rfl
    cases items with
    | cons item items =>
      have nonempty : Item.textOf (item :: items) ≠ [] := fun none =>
        reads.written_ne_nil item (by simp)
          (List.append_eq_nil_iff.1 (Item.textOf_cons .. ▸ none)).1
      obtain ⟨items', context'', text, reads', kinds⟩ := ih rfl
      refine ⟨⟨lexeme, c :: rest⟩ :: items', context'', ?_, .cons ?_ reads', ?_⟩
      · rw [Item.textOf_cons, text, ← List.append_assoc]
        rfl
      · rw [List.append_nil, text]
        exact Lexeme.scan_continued scanned pad nonempty
      · rw [List.filterMap_cons, List.filterMap_cons, kinds]
    | nil =>
      rw [Item.textOf_nil, List.append_nil] at scanned
      obtain ⟨taken, behind, split, scanned'⟩ := Lexeme.scan_spacing_ok spacing scanned
      have later := (Text.IsSpacing.append_iff.1 (split ▸ all)).2
      obtain ⟨items', context'', text, reads', kinds⟩ :=
        Reads.ofSpacing later (context.behind ⟨lexeme, c :: (rest ++ taken)⟩) false
      refine ⟨⟨lexeme, c :: (rest ++ taken)⟩ :: items', context'', ?_, .cons ?_ reads', ?_⟩
      · rw [Item.textOf_cons, text, split]
        simp
      · rwa [List.append_nil, text, List.append_assoc]
      · rw [List.filterMap_cons, List.filterMap_cons, kinds, kind]
        rfl

/-- Whether a template is open behind some items is told by the kinds of their tokens. -/
theorem Reads.insideTemplate_eq {first' : Bool} {items' : List Item} {tail tail' : Text}
    {context'' : LexContext} (h : Reads context first items tail context')
    (h' : Reads context first' items' tail' context'')
    (kinds : items'.filterMap (Item.kind? .skip) = items.filterMap (Item.kind? .skip)) :
    context''.insideTemplate = context'.insideTemplate := by
  have openings : Opening.behindAll context.openings (items'.filterMap (Item.kind? .skip)) =
      some context''.openings := h'.behindAll_openings
  rw [kinds, h.behindAll_openings, Option.some.injEq] at openings
  rw [Bool.eq_iff_iff, LexContext.insideTemplate_iff, LexContext.insideTemplate_iff, openings]

variable {text : Text} {tokens : List Token} {error : LexError}

/-- A text with tokens has tokens of the same kinds if blank lines follow. -/
theorem tokenize_spaced (accepted : tokenize .skip text = .ok tokens) (spacing : pad.IsSpacing) :
    ∃ tokens', tokenize .skip (text ++ ofChar '\n' :: pad) = .ok tokens' ∧
      tokens'.map Token.kind = tokens.map Token.kind := by
  obtain ⟨items, context', rfl, reads, closed, rfl⟩ := Token.exists_reads accepted
  obtain ⟨items', context'', same, reads', kinds⟩ := reads.spaced spacing
  refine ⟨Item.tokens .skip .initial .origin items', ?_, ?_⟩
  · rw [← same]
    exact Token.readFrom_of_reads reads' ((reads.insideTemplate_eq reads' kinds).trans closed)
  · rw [Item.tokens_kind, Item.tokens_kind, kinds]

/-- A text with a fault that more text could not mend has the same one if blank lines follow. -/
theorem tokenize_spaced_error (failed : tokenize .skip text = .error (.malformed error))
    (closed : error.cause.isOpen = false) (spacing : pad.IsSpacing) :
    Token.Fails .initial true (text ++ ofChar '\n' :: pad) error.cause := by
  obtain ⟨items, tail, context', rfl, reads, ⟨-, -, same⟩ | ⟨c, rest, fault, rfl, scanned, same⟩⟩ :=
    Token.exists_reads_error failed
  · cases same
    cases closed
  · have all : Text.IsSpacing (ofChar '\n' :: pad) :=
      Text.IsSpacing.cons_iff.2 ⟨.inr rfl, spacing⟩
    cases fault with
    | escapeOverflow => cases same
    | malformed cause n =>
      cases same
      rw [List.append_assoc]
      exact .append (reads.continued (by simp) _)
        (.ofScan (Lexeme.scan_spacing_error all closed scanned))

end Uncurry
