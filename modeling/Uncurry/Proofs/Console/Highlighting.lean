import Uncurry.Highlight
import Uncurry.Proofs.Lexical.Coverage

/-!
# Highlighted lines are the lines

The fragments of a highlighted line tile it. Each token of the line is one of them, and between the
tokens nothing but layout is left, as every character that is no layout is one of a token. A line is
highlighted by itself, wherever in a text it was cut out, and one without tokens is one fragment, so
`lineAt?_tiles` holds of each line of each text.
-/
namespace Uncurry

open CodePoint

/-- The lines of a text are what its line feeds split it into. -/
theorem Text.lines_eq_splitOn (t : Text) : t.lines = t.splitOn (ofChar '\n') := by
  induction t with
  | nil => rfl
  | cons c rest ih =>
    simp only [lines, List.splitOn_cons_eq_if_modifyHead, ← ih, beq_iff_eq]
    split
    · rfl
    · cases own : lines rest with
      | nil => exact absurd own (lines_ne_nil rest)
      | cons line later => rfl

namespace Highlight

/-- Fragments tile a line from an offset on, where some tokens are left: a token is the fragment
that starts and stops where it does, and a fragment that is no token is layout without a style. -/
inductive Tiles (line : Text) : Nat → List Token → List Fragment → Prop
  | done : Tiles line line.length [] []
  | layout {start : Nat} {tokens : List Token} {fragment : Fragment} {later : List Fragment}
      (own : fragment.text <+: line.drop start)
      (style : fragment.style = "")
      (blank : ∀ c ∈ fragment.text, c.isLayout = true)
      (rest : Tiles line (start + fragment.text.length) tokens later) :
      Tiles line start tokens (fragment :: later)
  | token {start : Nat} {token : Token} {tokens : List Token} {fragment : Fragment}
      {later : List Fragment}
      (own : fragment.text <+: line.drop start)
      (style : fragment.style = tokenStyle token)
      (starts : token.start.offset = start)
      (stops : token.stop.offset = start + fragment.text.length)
      (rest : Tiles line (start + fragment.text.length) tokens later) :
      Tiles line start (token :: tokens) (fragment :: later)

variable {line t text : Text} {start stop number : Nat} {tokens : List Token}
  {fragments : List Fragment}

/-- What is taken off the front of a rest goes on with what is behind it. -/
theorem append_drop_eq {own : Text} (h : own <+: line.drop start) :
    own ++ line.drop (start + own.length) = line.drop start := by
  obtain ⟨later, whole⟩ := h
  rw [← List.drop_drop, ← whole, List.drop_left]

/-- The texts of fragments that tile a line are the line. -/
theorem Tiles.flatMap_text (tiles : Tiles line start tokens fragments) :
    fragments.flatMap Fragment.text = line.drop start := by
  induction tiles with
  | done => simp
  | layout own _ _ _ ih => rw [List.flatMap_cons, ih, append_drop_eq own]
  | token own _ _ _ _ ih => rw [List.flatMap_cons, ih, append_drop_eq own]

theorem isPrefix_slice (line : Text) (start stop : Nat) :
    slice line start stop <+: line.drop start := by
  rw [slice, List.drop_take]
  exact List.take_prefix ..

theorem length_slice (start : Nat) (within : stop ≤ line.length) :
    (slice line start stop).length = stop - start := by
  rw [slice, List.length_drop, List.length_take_of_le within]

/-- A gap of layout between two offsets is tiled by at most one fragment. -/
theorem Tiles.gap (ordered : start ≤ stop) (within : stop ≤ t.length)
    (blank : ∀ offset c, start ≤ offset → offset < stop → t[offset]? = some c →
      c.isLayout = true)
    (rest : Tiles t stop tokens fragments) :
    Tiles t start tokens (plainUnlessEmpty (slice t start stop) ++ fragments) := by
  have length := length_slice start within
  have reached : start + (slice t start stop).length = stop := by omega
  rw [plainUnlessEmpty]
  split
  next empty =>
    rw [List.isEmpty_iff.1 empty] at reached
    rwa [List.nil_append, show start = stop from reached]
  next =>
    refine .layout (isPrefix_slice ..) rfl (fun c member => ?_) (reached.symm ▸ rest)
    obtain ⟨i, inside, own⟩ := List.mem_iff_getElem.1 member
    rw [length] at inside
    refine blank (start + i) c (by omega) (by omega) ?_
    rw [← own, List.getElem?_eq_getElem (by omega)]
    simp [slice]

/-- The token at the end of a line has no fragment. -/
theorem fragmentsFrom_filter (line : Text) (start : Nat) (tokens : List Token) :
    fragmentsFrom line start (tokens.filter (·.kind ≠ .endOfInput)) =
      fragmentsFrom line start tokens := by
  induction tokens generalizing start with
  | nil => rfl
  | cons token later ih =>
    by_cases last : token.kind = .endOfInput
    · rw [List.filter_cons_of_neg (by simpa using last), fragmentsFrom, if_pos last, ih]
    · rw [List.filter_cons_of_pos (by simpa using last), fragmentsFrom, fragmentsFrom, if_neg last,
        if_neg last, ih]

/-- Tokens in order that leave only layout uncovered are tiled by their fragments. -/
theorem fragmentsFrom_tiles (ordered : Token.Ordered t.length start tokens)
    (present : ∀ token ∈ tokens, token.kind ≠ .endOfInput)
    (covered : ∀ offset c, start ≤ offset → t[offset]? = some c →
      (∃ token ∈ tokens, token.Covers offset) ∨ c.isLayout = true) :
    Tiles t start tokens (fragmentsFrom t start tokens) := by
  induction tokens generalizing start with
  | nil =>
    have gap := Tiles.gap ordered (Nat.le_refl _) (fun offset c behind _ found => ?_) .done
    · rwa [List.append_nil, slice, List.take_length] at gap
    · exact (covered offset c behind found).resolve_left (by simp)
  | cons token later ih =>
    obtain ⟨starts, ranged, rest⟩ := ordered
    have within := rest.start_le
    have first : Token.Ordered t.length token.start.offset (token :: later) :=
      ⟨Nat.le_refl _, ranged, rest⟩
    rw [fragmentsFrom, if_neg (present token List.mem_cons_self)]
    refine .gap starts (by omega) (fun offset c behind before found => ?_) ?_
    · refine (covered offset c behind found).resolve_left ?_
      rintro ⟨other, member, covers⟩
      have := (first.mem member).1
      have := covers.1
      omega
    · have length := length_slice token.start.offset within
      have reached : token.start.offset +
          (slice t token.start.offset token.stop.offset).length = token.stop.offset := by omega
      refine .token (isPrefix_slice ..) rfl rfl reached.symm (reached.symm ▸ ih rest ?_ ?_)
      · exact fun other member => present other (List.mem_cons_of_mem _ member)
      · intro offset c behind found
        refine (covered offset c (by omega) found).imp_left ?_
        rintro ⟨other, member, covers⟩
        rcases List.mem_cons.1 member with rfl | member
        · exact absurd covers.2 (by omega)
        · exact ⟨other, member, covers⟩

/-- A line that has tokens is tiled by its fragments. -/
theorem tiles_of_tokenize (accepted : tokenize .keep line = .ok tokens) :
    Tiles line 0 (tokens.filter (·.kind ≠ .endOfInput)) (fragmentsFrom line 0 tokens) := by
  obtain ⟨items, context, rfl, reads, _, rfl⟩ := Token.exists_reads accepted
  obtain ⟨stop, newline, _, same⟩ := Item.tokens_eq .keep .initial .origin items
  have present : ∀ token ∈ Item.code .keep .initial .origin items, token.kind ≠ .endOfInput :=
    Item.code_ne_endOfInput reads.isRead
  have filtered : (Item.tokens .keep .initial .origin items).filter (·.kind ≠ .endOfInput) =
      Item.code .keep .initial .origin items := by
    rw [same, List.filter_append, List.filter_eq_self.2 (by simpa using present)]
    exact List.append_nil _
  rw [← fragmentsFrom_filter, filtered]
  have origin : Location.origin.offset = ([] : Text).length := rfl
  refine fragmentsFrom_tiles (Item.code_within reads.written_ne_nil) present
    fun offset c _ found => ?_
  exact Item.code_covers origin reads.isRead (Nat.zero_le offset) found

/-- The fragments of a line are the line, and tile it if it has tokens. -/
theorem line?_tiles (h : line? line = some fragments) :
    fragments.flatMap Fragment.text = line ∧
      ∀ tokens, tokenize .keep line = .ok tokens →
        Tiles line 0 (tokens.filter (·.kind ≠ .endOfInput)) fragments := by
  rw [line?] at h
  split at h
  next empty =>
    cases h
    obtain rfl := List.isEmpty_iff.1 empty
    refine ⟨rfl, fun tokens accepted => ?_⟩
    obtain ⟨_, rfl⟩ := Token.readFrom_nil.1 accepted
    exact .layout List.nil_prefix rfl nofun .done
  next =>
    split at h
    next tokens accepted =>
      cases h
      have tiles := tiles_of_tokenize accepted
      refine ⟨tiles.flatMap_text, fun tokens' again => ?_⟩
      obtain rfl := Except.ok.inj (accepted.symm.trans again)
      exact tiles
    next failed =>
      cases h
      exact ⟨List.append_nil line, fun _ accepted => by simp [failed] at accepted⟩
    next => cases h

/-- The fragments of a line of a text are the line: what the line feeds before and behind it leave,
or nothing beyond the end of the text. If the line has tokens by itself then each of them, the
comments among them, is one fragment, and the other fragments are layout without a style. -/
theorem lineAt?_tiles (h : lineAt? text number = some fragments) :
    fragments.flatMap Fragment.text = (text.splitOn (ofChar '\n')).getD number [] ∧
      ∀ tokens, tokenize .keep ((text.splitOn (ofChar '\n')).getD number []) = .ok tokens →
        Tiles ((text.splitOn (ofChar '\n')).getD number []) 0
          (tokens.filter (·.kind ≠ .endOfInput)) fragments := by
  rw [lineAt?, Text.lines_eq_splitOn] at h
  exact line?_tiles h

/-- A text whose second line is cut out of a template, and read as a call and a comment. -/
def cutTemplate : Text := Text.ofString "`a\nF2(b); // c`"

def cutFragments : List Fragment :=
  [⟨"bold ansiyellow", .ofString "F2"⟩, ⟨"", .ofString "("⟩, ⟨"", .ofString "b"⟩,
    ⟨"", .ofString ")"⟩, ⟨"", .ofString ";"⟩, ⟨"", .ofString " "⟩,
    ⟨"italic ansigray", .ofString "// c`"⟩]

theorem lineAt?_tiles_cut : lineAt? cutTemplate 1 = some cutFragments ∧
    cutFragments.flatMap Fragment.text = (cutTemplate.splitOn (ofChar '\n')).getD 1 [] ∧
    ∃ tokens, tokenize .keep ((cutTemplate.splitOn (ofChar '\n')).getD 1 []) = .ok tokens ∧
      Tiles ((cutTemplate.splitOn (ofChar '\n')).getD 1 []) 0
        (tokens.filter (·.kind ≠ .endOfInput)) cutFragments := by
  have highlighted : lineAt? cutTemplate 1 = some cutFragments := by decide +kernel
  have evaluated : (tokenize .keep
      ((cutTemplate.splitOn (ofChar '\n')).getD 1 [])).toOption.isSome = true := by
    decide +kernel
  obtain ⟨tokens, found⟩ := Option.isSome_iff_exists.1 evaluated
  have accepted := eq_ok_of_toOption found
  obtain ⟨text, tiles⟩ := lineAt?_tiles highlighted
  exact ⟨highlighted, text, tokens, accepted, tiles tokens accepted⟩

end Highlight

end Uncurry
