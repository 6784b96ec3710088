import Uncurry.Proofs.Curry.Naming
import Uncurry.Proofs.Curry.StubItems

/-!
# Items with the changes made

`Rewritten` makes the changes of a program in its items. What comes of this is the text of the
output, and it is read like the items that it is made of.
-/
namespace Uncurry.Curry

/-- The items that a call begins with, up to its second argument: the callee, the parenthesis, the
first argument and the comma, with blanks and comments behind each of them. -/
structure CallItems where
  applied : Text
  gap : List Item
  paren : Text
  inner : List Item
  name : Text
  rear : List Item
  comma : Text
  later : List Item

namespace CallItems

variable (call : CallItems)

/-- The items in front of the first argument, but for the callee. -/
def opening : List Item := call.gap ++ ⟨.token .leftParen, call.paren⟩ :: call.inner

/-- The items from the first argument up to the second. -/
def dropped : List Item :=
  .ofName call.name :: (call.rear ++ ⟨.token .comma, call.comma⟩ :: call.later)

/-- The first argument is a name, what is called is the name of an application, and there are blanks
and comments alone between the tokens. -/
structure Sound : Prop where
  applied : call.applied.IsName
  arity : (applicationArity? call.applied).isSome = true
  name : call.name.IsName
  gap : ∀ item ∈ call.gap, item.isTrivia = true
  inner : ∀ item ∈ call.inner, item.isTrivia = true
  rear : ∀ item ∈ call.rear, item.isTrivia = true
  later : ∀ item ∈ call.later, item.isTrivia = true

/-- A site starts where the items of its call are. -/
structure At (offset : Nat) (site : Site Span) : Prop where
  name : site.name = call.name
  callee_start : site.callee.start.offset = offset
  callee_stop : site.callee.stop.offset = offset + call.applied.length
  first : site.first.start.offset =
    offset + call.applied.length + (Item.textOf call.opening).length
  second : site.second.start.offset = offset + call.applied.length +
    (Item.textOf call.opening).length + (Item.textOf call.dropped).length

end CallItems

/-- Whether a token of this kind and text changes no more of a context than any other word. -/
def isPlainWord (kind : TokenKind) (text : Text) : Bool :=
  kind != .leftParen && kind != .leftBrace && text ≠ Text.ofString "await"

/-- The changes are made in the items from some offset on. -/
inductive Rewritten (source : Text) : Nat → List Item → List Change → List Item → Prop
  | nil (offset : Nat) : Rewritten source offset [] [] []
  | keep {offset : Nat} (item : Item) {items new : List Item} {changes : List Change} :
      Rewritten source (offset + item.written.length) items changes new →
      Rewritten source offset (item :: items) changes (item :: new)
  | stub {offset : Nat} {start : Location} {kind : TokenKind} {text written : Text}
      {items new : List Item} {changes : List Change} :
      start.offset = offset → isPlainWord kind text = true → written.startsWord = true →
      Rewritten source (offset + written.length) items changes new →
      Rewritten source offset (⟨.word kind text, written⟩ :: items) (.stub start :: changes)
        (stubItems (margin source offset) ++ ⟨.word kind text, written⟩ :: new)
  | call {offset : Nat} {site : Site Span} (call : CallItems) {items new : List Item}
      {changes : List Change} :
      call.Sound → call.At offset site → Rewritten source site.second.start.offset items changes new →
      Rewritten source offset
        (.ofName call.applied :: (call.opening ++ (call.dropped ++ items)))
        (.call site :: changes) (calleeItems call.name ++ (call.opening ++ new))

variable {source : Text} {offset : Nat} {items new : List Item} {changes : List Change}
  {context context' other : LexContext} {first : Bool}

namespace Rewritten

/-- Items in front of all changes are kept. -/
theorem keeps (gap : List Item)
    (h : Rewritten source (offset + (Item.textOf gap).length) items changes new) :
    Rewritten source offset (gap ++ items) changes (gap ++ new) := by
  induction gap generalizing offset with
  | nil => exact h
  | cons item gap ih =>
    refine .keep item (ih ?_)
    rwa [Item.textOf_cons, List.length_append, ← Nat.add_assoc] at h

end Rewritten

/-- The item of the first of some tokens, behind those that are no tokens. -/
theorem code_split {here : Location} {token : Token} {tokens : List Token}
    (h : Item.code .skip context here items = token :: tokens) :
    ∃ gap item later context' place, items = gap ++ item :: later ∧
      (∀ item ∈ gap, item.isTrivia = true) ∧
      place.offset = here.offset + (Item.textOf gap).length ∧
      item.token? .skip context'
        ⟨place, place.advance item.written (Item.textOf later)⟩ = some token ∧
      Item.code .skip (context'.behind item) (place.advance item.written (Item.textOf later))
        later = tokens := by
  induction items generalizing context here with
  | nil => cases h
  | cons item items ih =>
    rw [Item.code] at h
    cases found : item.token? .skip context
        ⟨here, here.advance item.written (Item.textOf items)⟩ with
    | some own =>
      rw [found] at h
      obtain ⟨rfl, rfl⟩ := List.cons.inj h
      exact ⟨[], item, items, context, here, rfl, by simp, rfl, found, rfl⟩
    | none =>
      rw [found] at h
      obtain ⟨gap, first, later, context', place, rfl, trivia, offset, rest⟩ := ih h
      refine ⟨item :: gap, first, later, context', place, rfl, List.forall_mem_cons.2 ⟨?_, trivia⟩,
        ?_, rest⟩
      · obtain ⟨lexeme, written⟩ := item
        cases lexeme <;> first | rfl | cases found
      · rw [offset, Location.advance_offset, Item.textOf_cons, List.length_append, Nat.add_assoc]

theorem code_eq_nil {here : Location} (h : Item.code .skip context here items = []) :
    ∀ item ∈ items, item.isTrivia = true := by
  induction items generalizing context here with
  | nil => simp
  | cons item items ih =>
    obtain ⟨first, later⟩ := List.append_eq_nil_iff.1 h
    refine List.forall_mem_cons.2 ⟨?_, ih later⟩
    obtain ⟨lexeme, written⟩ := item
    cases lexeme <;> first | rfl | cases first

/-- Where some tokens start, the items behind what is no token start as well. -/
theorem startOf_split {here behind : Location} {tokens : List Token}
    (h : Item.code .skip context here items = tokens)
    (ends : behind.offset = here.offset + (Item.textOf items).length) :
    ∃ gap later context' place, items = gap ++ later ∧ (∀ item ∈ gap, item.isTrivia = true) ∧
      place.offset = here.offset + (Item.textOf gap).length ∧
      (startOf tokens behind).offset = place.offset ∧
      Item.code .skip context' place later = tokens := by
  cases tokens with
  | nil =>
    exact ⟨items, [], .initial, behind, by simp, code_eq_nil h, ends, rfl, rfl⟩
  | cons token tokens =>
    obtain ⟨gap, item, later, context', place, rfl, trivia, offset, found, rest⟩ := code_split h
    refine ⟨gap, item :: later, context', place, rfl, trivia, offset, ?_, ?_⟩
    · rw [startOf_cons, Token.start, Item.token?_span found]
    · rw [Item.code, found, rest]
      rfl

/-- A token that opens a declaration is a plain word. -/
theorem opensDeclaration_word {item : Item} {token : Token} {span : Span} (read : item.IsRead)
    (plain : ∀ text, item.lexeme = .word .identifier text → item.written = text)
    (found : item.token? .skip context span = some token)
    (opens : token.opensDeclaration = true) :
    item.lexeme = .word token.kind token.text ∧ isPlainWord token.kind token.text = true ∧
      item.written.startsWord = true := by
  have cases : token.kind.isReservedWord = true ∧ token.kind ≠ .leftParen ∧
      token.kind ≠ .leftBrace ∨
      token.kind = .identifier ∧ token.text ≠ Text.ofString "await" := by
    simp only [Token.opensDeclaration, Bool.or_eq_true, List.contains_iff_mem] at opens
    rcases opens with (keyword | word) | word
    · left
      have keywords : ∀ kind ∈ [TokenKind.kwVar, .kwConst, .kwFunction, .kwClass, .kwImport,
          .kwExport], kind.isReservedWord = true ∧ kind ≠ .leftParen ∧ kind ≠ .leftBrace := by
        decide
      exact keywords _ keyword
    · right
      simp only [Token.isWord, Bool.and_eq_true, decide_eq_true_eq] at word
      exact ⟨word.1, by rw [word.2]; decide⟩
    · right
      simp only [Token.isWord, Bool.and_eq_true, decide_eq_true_eq] at word
      exact ⟨word.1, by rw [word.2]; decide⟩
  rcases cases with ⟨reserved, noParen, noBrace⟩ | ⟨identifier, noAwait⟩
  · obtain ⟨word, starts, noAwait⟩ := read.reserved found reserved
    exact ⟨word, by simp [isPlainWord, noParen, noBrace, noAwait], starts⟩
  · have word := read.word found identifier
    have written := plain _ word
    refine ⟨identifier ▸ word, by simp [isPlainWord, identifier, noAwait], ?_⟩
    exact written ▸ (read.isName word written).starts

/-- An identifier that is written as it is spelled is the item of a name. -/
theorem identifier_item {item : Item} {token : Token} {span : Span} (read : item.IsRead)
    (plain : ∀ text, item.lexeme = .word .identifier text → item.written = text)
    (found : item.token? .skip context span = some token) (kind : token.kind = .identifier) :
    item = .ofName token.text ∧ token.text.IsName := by
  have word := read.word found kind
  have written := plain _ word
  refine ⟨?_, read.isName word written⟩
  obtain ⟨lexeme, _⟩ := item
  obtain rfl : lexeme = .word .identifier token.text := word
  obtain rfl := written
  rfl

/-- The items that the call of a site begins with. -/
theorem exists_call {here behind : Location} {site : Site Span}
    {applied opening name comma : Token} {tokens : List Token}
    (code : Item.code .skip context here items = applied :: opening :: name :: comma :: tokens)
    (begins : site.Begins applied opening name comma)
    (second : site.second.start = startOf tokens behind)
    (ends : behind.offset = here.offset + (Item.textOf items).length)
    (read : ∀ item ∈ items, item.IsRead) (plain : Item.Plain items) :
    ∃ (front : List Item) (call : CallItems) (later : List Item) (context' : LexContext)
      (place : Location),
      items = front ++ .ofName call.applied :: (call.opening ++ (call.dropped ++ later)) ∧
      call.Sound ∧ call.At (here.offset + (Item.textOf front).length) site ∧
      place.offset = site.second.start.offset ∧
      Item.code .skip context' place later = tokens := by
  obtain ⟨front, first, items, _, place₁, rfl, _, offset₁, found₁, code₁⟩ := code_split code
  obtain ⟨gap, second', items, _, place₂, rfl, gapTrivia, offset₂, found₂, code₂⟩ :=
    code_split code₁
  obtain ⟨inner, third, items, _, place₃, rfl, innerTrivia, offset₃, found₃, code₃⟩ :=
    code_split code₂
  obtain ⟨rear, fourth, items, _, place₄, rfl, rearTrivia, offset₄, found₄, code₄⟩ :=
    code_split code₃
  rw [Location.advance_offset] at offset₂ offset₃ offset₄
  obtain ⟨later, items, context', place₅, rfl, laterTrivia, offset₅, start, code₅⟩ :=
    @startOf_split _ _ _ behind _ code₄ (by
      simp only [Location.advance_offset, ends, offset₁, offset₂, offset₃, offset₄,
        Item.textOf_append, Item.textOf_cons, List.length_append]
      omega)
  rw [Location.advance_offset] at offset₅
  obtain ⟨rfl, appliedName⟩ := identifier_item (read first (by simp)) (plain first (by simp))
    found₁ begins.applied_kind
  obtain ⟨rfl, name_name⟩ := identifier_item (read third (by simp)) (plain third (by simp)) found₃
    begins.name_kind
  obtain ⟨lexeme, paren⟩ := second'
  obtain rfl : lexeme = .token .leftParen :=
    ((read _ (by simp)).mark found₂ (.inl begins.opening_kind)).trans (by rw [begins.opening_kind])
  obtain ⟨lexeme, comma'⟩ := fourth
  obtain rfl : lexeme = .token .comma :=
    ((read _ (by simp)).mark found₄ (.inr begins.comma_kind)).trans (by rw [begins.comma_kind])
  have span₁ := Item.token?_span found₁
  have span₃ := Item.token?_span found₃
  refine ⟨front, ⟨applied.text, gap, paren, inner, name.text, rear, comma', later⟩, items,
    context', place₅, by simp [CallItems.opening, CallItems.dropped], ⟨appliedName,
    begins.applied_text, name_name, gapTrivia, innerTrivia, rearTrivia, laterTrivia⟩,
    ⟨begins.name_text, ?_, ?_, ?_, ?_⟩, by rw [second, start], code₅⟩
  · rw [begins.callee, span₁, offset₁]
  · rw [begins.callee, span₁, Location.advance_offset, offset₁]
    rfl
  · rw [begins.first, span₃]
    simp only [CallItems.opening, Item.textOf_append, Item.textOf_cons, List.length_append,
      Item.ofName] at *
    omega
  · rw [second, start]
    simp only [CallItems.opening, CallItems.dropped, Item.textOf_append, Item.textOf_cons,
      List.length_append, Item.ofName] at *
    omega

/-- The changes that are found among the tokens can be made in the items. -/
theorem exists_rewritten {tokens : List Token} {here behind : Location}
    (sited : Sited tokens behind changes) (code : Item.code .skip context here items = tokens)
    (ends : behind.offset = here.offset + (Item.textOf items).length)
    (read : ∀ item ∈ items, item.IsRead) (plain : Item.Plain items) :
    ∃ new, Rewritten source here.offset items changes new := by
  induction sited generalizing items context here with
  | nil => exact ⟨items, by simpa using Rewritten.keeps items (.nil _)⟩
  | skip token _ ih =>
    obtain ⟨gap, item, later, context', place, rfl, _, offset, _, rest⟩ := code_split code
    obtain ⟨new, made⟩ := ih rest (by
      simp only [Location.advance_offset, ends, offset, Item.textOf_append, Item.textOf_cons,
        List.length_append]
      omega) (fun other member => read other (by simp [member]))
      (fun other member => plain other (by simp [member]))
    rw [Location.advance_offset, offset] at made
    exact ⟨_, .keeps gap (.keep item made)⟩
  | @stub token _ _ _ opens _ ih =>
    obtain ⟨gap, item, later, context', place, rfl, _, offset, found, rest⟩ := code_split code
    obtain ⟨new, made⟩ := ih rest (by
      simp only [Location.advance_offset, ends, offset, Item.textOf_append, Item.textOf_cons,
        List.length_append]
      omega) (fun other member => read other (by simp [member]))
      (fun other member => plain other (by simp [member]))
    rw [Location.advance_offset, offset] at made
    obtain ⟨word, plainWord, starts⟩ := opensDeclaration_word (read item (by simp))
      (plain item (by simp)) found opens
    have start : token.start.offset = here.offset + (Item.textOf gap).length := by
      rw [Token.start, Item.token?_span found]
      exact offset
    obtain ⟨lexeme, written⟩ := item
    obtain rfl : lexeme = .word token.kind token.text := word
    exact ⟨_, .keeps gap (.stub start plainWord starts made)⟩
  | @call site applied opening name comma tokens behind _ begins second _ ih =>
    obtain ⟨front, call, later, context', place, rfl, sound, at_site, offset, rest⟩ :=
      exists_call code begins second ends read plain
    obtain ⟨new, made⟩ := ih rest (by
      rw [ends, offset, at_site.second]
      simp only [Item.textOf_append, Item.textOf_cons, List.length_append, Item.ofName]
      omega) (fun other member => read other (by simp [member]))
      (fun other member => plain other (by simp [member]))
    rw [offset] at made
    exact ⟨_, .keeps front (.call call sound at_site made)⟩

theorem CallItems.textOf_dropped (call : CallItems) :
    Item.textOf call.dropped = call.name ++ Item.textOf
      (call.rear ++ ⟨.token .comma, call.comma⟩ :: call.later) := rfl

theorem textOf_calleeItems (name : Text) : Item.textOf (calleeItems name) = direct name := rfl

namespace Rewritten

/-- All changes are made behind the offset that the items start at. -/
theorem start_le (h : Rewritten source offset items changes new) :
    ∀ patch ∈ changes.flatMap (Change.patches source), offset ≤ patch.range.start := by
  induction h with
  | nil => simp
  | keep item _ ih => exact fun patch member => Nat.le_of_add_right_le (ih patch member)
  | stub start _ _ _ ih =>
    intro patch member
    rcases List.mem_cons.1 member with rfl | member
    · exact Nat.le_of_eq start.symm
    · exact Nat.le_of_add_right_le (ih patch member)
  | call call _ at_site _ ih =>
    intro patch member
    have first := at_site.first
    have second := at_site.second
    rcases List.mem_append.1 member with member | member
    · rcases List.mem_cons.1 member with rfl | member
      · exact Nat.le_of_eq at_site.callee_start.symm
      · rw [List.mem_singleton.1 member]
        simp only
        omega
    · have := ih patch member
      omega

/-- What becomes of the text of the items is the text of what comes of them. -/
theorem text (h : Rewritten source offset items changes new) :
    Patch.edited (changes.flatMap (Change.patches source)) offset (Item.textOf items) =
      Item.textOf new := by
  induction h with
  | nil => rfl
  | keep item made ih =>
    rw [Item.textOf_cons, Patch.edited_kept made.start_le, ih, Item.textOf_cons]
  | @stub offset start kind text written items new changes starts _ word made ih =>
    have positive : 0 < written.length := by
      cases written with
      | nil => cases word
      | cons => exact Nat.succ_pos _
    have behind := made.start_le
    have stubs : Patch.edited (stubPatch source start :: changes.flatMap (Change.patches source))
        offset ([] ++ (written ++ Item.textOf items)) = _ :=
      Patch.edited_replaced starts starts fun other member => by
        have := behind other member
        simp only [stubPatch]
        omega
    refine stubs.trans ?_
    rw [List.length_nil, Nat.add_zero, Patch.edited_kept behind, ih, Item.textOf_append,
      textOf_stubItems, Item.textOf_cons, ← starts]
    rfl
  | @call offset site call items new changes sound at_site made ih =>
    have behind := made.start_le
    have first := at_site.first
    have second := at_site.second
    have stop := at_site.callee_stop
    have applied := sound.applied.length_pos
    have name := sound.name.length_pos
    have dropped : call.name.length ≤ (Item.textOf call.dropped).length := by
      rw [call.textOf_dropped, List.length_append]
      omega
    have callee : Patch.edited
        (⟨⟨site.callee.start.offset, site.callee.stop.offset⟩, direct site.name⟩ ::
          ⟨⟨site.first.start.offset, site.second.start.offset⟩, []⟩ ::
            changes.flatMap (Change.patches source)) offset
        (call.applied ++ Item.textOf (call.opening ++ (call.dropped ++ items))) = _ :=
      Patch.edited_replaced at_site.callee_start stop fun other member => by
        rcases List.mem_cons.1 member with rfl | member
        · simp only
          omega
        · have := behind other member
          simp only
          omega
    have opening : Patch.edited (⟨⟨site.first.start.offset, site.second.start.offset⟩, []⟩ ::
          changes.flatMap (Change.patches source)) (offset + call.applied.length)
        (Item.textOf call.opening ++ (Item.textOf call.dropped ++ Item.textOf items)) = _ :=
      Patch.edited_kept fun other member => by
        rcases List.mem_cons.1 member with rfl | member
        · simp only
          omega
        · have := behind other member
          omega
    refine callee.trans ?_
    rw [Item.textOf_append, Item.textOf_append, opening, Patch.edited_replaced first second
      fun other member => by have := behind other member; simp only; omega, ← second, ih,
      Item.textOf_append, textOf_calleeItems, Item.textOf_append, at_site.name]
    rfl

end Rewritten

namespace CallItems

variable {call : CallItems} {tail tail' : Text}

theorem foldl_opening (sound : call.Sound) (context : LexContext) : ∃ newline,
    call.opening.foldl LexContext.behind context =
      { context.after .leftParen call.paren with newline := newline } := by
  obtain ⟨_, gap⟩ := context.foldl_trivia sound.gap
  obtain ⟨newline, inner⟩ := (context.after .leftParen call.paren).foldl_trivia sound.inner
  refine ⟨newline, ?_⟩
  rw [opening, List.foldl_append, gap, List.foldl_cons]
  exact inner

theorem foldl_dropped (sound : call.Sound) (context : LexContext) : ∃ newline,
    call.dropped.foldl LexContext.behind context =
      { (context.after .identifier call.name).after .comma call.comma with newline := newline } := by
  obtain ⟨_, rear⟩ := (context.after .identifier call.name).foldl_trivia sound.rear
  obtain ⟨newline, later⟩ :=
    ((context.after .identifier call.name).after .comma call.comma).foldl_trivia sound.later
  refine ⟨newline, ?_⟩
  change List.foldl _ (context.after .identifier call.name) (call.rear ++ _ :: call.later) = _
  rw [List.foldl_append, rear, List.foldl_cons]
  exact later

theorem Sound.not_operator (sound : call.Sound) : call.applied ∉ LexContext.operatorWords := by
  have arity := sound.arity
  intro operator
  simp only [LexContext.operatorWords, List.mem_cons, List.not_mem_nil, or_false] at operator
  rcases operator with same | same | same <;> rw [same] at arity <;> cases arity

/-- In front of the second argument contexts agree with what they are behind the new call. -/
theorem Sound.agrees (sound : call.Sound) (agrees : context.Agrees other) :
    (call.dropped.foldl LexContext.behind (call.opening.foldl LexContext.behind
      (context.after .identifier call.applied))).Agrees
    (call.opening.foldl LexContext.behind (((other.after .identifier call.name).after .dot
      (Text.ofString ".")).after .identifier (Text.ofString "f"))) := by
  obtain ⟨before, opening⟩ := foldl_opening sound (context.after .identifier call.applied)
  obtain ⟨newline, dropped⟩ := foldl_dropped sound
    { (context.after .identifier call.applied).after .leftParen call.paren with newline := before }
  obtain ⟨newline', opening'⟩ := foldl_opening sound (((other.after .identifier call.name).after .dot
      (Text.ofString ".")).after .identifier (Text.ofString "f"))
  rw [opening, dropped, opening']
  have callee : (context.after .identifier call.applied).Agrees
      (((other.after .identifier call.name).after .dot (Text.ofString ".")).after .identifier
        (Text.ofString "f")) :=
    LexContext.agrees_identifier agrees.parens agrees.enclosures sound.not_operator (by decide)
  have paren := callee.after .leftParen call.paren
  have operand : ((_ : LexContext).after .identifier call.name |>.after .comma call.comma).Agrees _ :=
    LexContext.agrees_operand paren.parens paren.enclosures
  exact operand.newline newline newline'

/-- A parenthesis is read in front of every text. -/
theorem scan_leftParen {c : CodePoint} {rest t : Text}
    (h : Lexeme.scan context first c (rest ++ t) = .ok (.token .leftParen, rest.length)) :
    c = '(' ∧ rest = [] := by
  rcases Lexeme.scan_eq_token h with literal | found
  · exact absurd literal (by decide)
  · obtain ⟨entry, member, kind, fits, length⟩ := Lexeme.punctuator?_mem found
    have only : ∀ entry ∈ TokenKind.punctuators, entry.2 = .leftParen →
        entry = ("(", .leftParen) := by
      decide
    obtain rfl := only entry member kind
    have empty : rest = [] := List.length_eq_zero_iff.1 (Nat.succ.inj length).symm
    obtain ⟨later, same⟩ := List.isPrefixOf_iff_prefix.1 fits
    exact ⟨(List.cons.inj same).1.symm, empty⟩

/-- What stands between the callee and a word is read in front of every text. -/
theorem Sound.reads_opening (sound : call.Sound)
    (h : Reads context false call.opening tail context') (word : tail.startsWord = true) :
    Reads other false call.opening tail' (call.opening.foldl LexContext.behind other) := by
  obtain ⟨gap, later⟩ := h.split
  obtain ⟨c, rest, written, scanned, inner⟩ := later.of_cons
  obtain ⟨rfl, rfl⟩ := scan_leftParen scanned
  have paren : call.paren = [CodePoint.ofChar '('] := written
  rw [opening, List.foldl_append, List.foldl_cons]
  refine .append (.trivia sound.gap (.inl ?_) gap) (.to_cons written ?_ ?_)
  · simp [paren]
  · cases (false && call.gap.isEmpty) <;> rfl
  · exact .trivia sound.inner (.inr word) inner

/-- What stands behind the callee has the same first character whatever follows. -/
theorem continuesWord_opening (h : Reads context false call.opening tail context') (t t' : Text) :
    Text.continuesWord (Item.textOf call.opening ++ t) =
      Text.continuesWord (Item.textOf call.opening ++ t') := by
  have nonempty : Item.textOf call.opening ≠ [] := by
    cases found : call.opening with
    | nil => simp [opening] at found
    | cons item items =>
      have := h.written_ne_nil item (by simp [found])
      simp [this]
  obtain ⟨c, rest, same⟩ := List.exists_cons_of_ne_nil nonempty
  rw [same]
  rfl

end CallItems

theorem startsWord_append {t : Text} (h : t.startsWord = true) (t' : Text) :
    Text.startsWord (t ++ t') = true := by
  cases t with
  | nil => cases h
  | cons => exact h

/-- Where words start texts look alike. -/
theorem of_startsWord {t t' : Text} (h : t.startsWord = true) (h' : t'.startsWord = true) :
    t.Seamed t' := ⟨[], t, t', rfl, rfl, .inr (.inl ⟨h, h'⟩)⟩

namespace Rewritten

/-- The first change is made where a word starts, and what it makes starts with a word. -/
theorem seamed (h : Rewritten source offset items changes new) :
    (Item.textOf items).Seamed (Item.textOf new) := by
  induction h with
  | nil => exact .refl _
  | keep item _ ih => exact ih.append item.written
  | stub _ _ word _ _ =>
    refine of_startsWord (startsWord_append word _) ?_
    rw [Item.textOf_append]
    exact stubItems_startsWord _ _
  | call call sound _ _ _ =>
    refine of_startsWord (startsWord_append sound.applied.starts _) ?_
    rw [Item.textOf_append, textOf_calleeItems, direct, List.append_assoc]
    exact startsWord_append sound.name.starts _

/-- What comes of the items is read where they are, and leaves a context that agrees. -/
theorem reads (h : Rewritten source offset items changes new)
    (reads : Reads context first items [] context') (agrees : context.Agrees other) :
    ∃ other', Reads other first new [] other' ∧ context'.Agrees other' := by
  induction h generalizing context other first with
  | nil =>
    cases reads
    exact ⟨other, .nil .., agrees⟩
  | keep item made ih =>
    obtain ⟨c, rest, written, scanned, later⟩ := reads.of_cons
    obtain ⟨other', reads', agrees'⟩ := ih later (agrees.behind item)
    refine ⟨other', .to_cons written (Lexeme.scan_seamed scanned ?_ (.inl rfl) ?_ ?_) reads', agrees'⟩
    · simpa using made.seamed
    · exact fun _ => agrees.regexMayStart.symm
    · exact fun _ => agrees.closesSubstitution
  | @stub offset start kind text written items new changes _ plain word made ih =>
    obtain ⟨c, rest, rfl, scanned, later⟩ := reads.of_cons
    have starts : c.isIdentifierStart = true := word
    have unlike {d : Char} (bare : (CodePoint.ofChar d).isIdentifierStart = false) :
        c ≠ CodePoint.ofChar d := CodePoint.ne_ofChar_of_isIdentifierStart starts bare
    simp only [isPlainWord, Bool.and_eq_true, bne_iff_ne, decide_eq_true_eq] at plain
    have blank : ∀ c ∈ margin source offset, c.isBlank = true :=
      fun c member => (mem_margin member).2
    obtain ⟨mid, stubs, parens, enclosures⟩ := reads_stubs blank
      other first (Item.textOf (⟨.word kind text, c :: rest⟩ :: new) ++ [])
    -- Between the stubs and the token in front of them only the brackets need to be the same.
    obtain ⟨other', reads', agrees'⟩ := ih later (LexContext.agrees_after
      (agrees.parens.trans parens.symm) (agrees.enclosures.trans enclosures.symm)
      (fun paren => absurd paren plain.1.1) (fun brace => absurd brace plain.1.2)
      fun await => absurd await plain.2)
    refine ⟨other', stubs.append (.to_cons rfl (Lexeme.scan_seamed scanned ?_ (.inr ?_) ?_ ?_)
      reads'), agrees'⟩
    · simpa using made.seamed
    · exact unlike (by decide)
    · exact fun slash => absurd slash (unlike (by decide))
    · exact fun brace => absurd brace (unlike (by decide))
  | @call offset site call items new changes sound _ made ih =>
    obtain ⟨c, rest, written, scanned, later⟩ := reads.of_cons
    have applied : call.applied = c :: rest := written
    have ends := (Lexeme.isName_of_scan (by rw [← applied]; exact scanned)).2
    obtain ⟨opening, behind⟩ := later.split
    obtain ⟨-, behind⟩ := behind.split
    obtain ⟨other', reads', agrees'⟩ := ih behind (sound.agrees agrees)
    have word : (Item.textOf (call.dropped ++ items) ++ []).startsWord = true :=
      startsWord_append (startsWord_append sound.name.starts _) _
    refine ⟨other', calleeItems_reads sound.name ?_ (.append (sound.reads_opening opening word)
      reads'), agrees'⟩
    rw [Item.textOf_append, List.append_assoc] at ends ⊢
    rw [CallItems.continuesWord_opening opening, ends]

end Rewritten

end Uncurry.Curry
