import Uncurry.Proofs.Lexical.Balance

/-!
# Templates and braces

The chunks of templates and the braces inside templates nest. `templates_nest` says so in two ways,
both by the kinds of the tokens alone: the tokens can be read with a stack of what is open, and they
are put together by the rules of `Nests`. What carries the proof is that this stack is the one that
the lexemes are scanned with.
-/
namespace Uncurry

/-- What tokens leave open: a brace, or a substitution of a template. -/
inductive Opening
  | brace
  | substitution
  deriving DecidableEq

namespace Opening

/-- The kinds of tokens that open or close something. -/
def kinds : List TokenKind :=
  [.leftBrace, .rightBrace, .templateHead, .templateMiddle, .templateTail]

/-- What is open behind a token, from the inside out, if the token may stand where it does. A
closing brace closes the innermost brace unless a substitution was opened since, and closes nothing
where nothing is open. The middle and the tail of a template end the innermost substitution, in
which all braces have to be closed, and the middle opens another one. -/
def behind (opened : List Opening) (kind : TokenKind) : Option (List Opening) :=
  match kind with
  | .leftBrace => some (.brace :: opened)
  | .rightBrace => if opened.head? = some .substitution then none else some opened.tail
  | .templateHead => some (.substitution :: opened)
  | .templateMiddle =>
    if opened.head? = some .substitution then some (.substitution :: opened.tail) else none
  | .templateTail => if opened.head? = some .substitution then some opened.tail else none
  | _ => some opened

/-- What is open behind some tokens, if each of them may stand where it does. -/
def behindAll (opened : List Opening) (read : List TokenKind) : Option (List Opening) :=
  read.foldlM behind opened

/-- The steps of reading with a stack. -/
inductive Step : List Opening → TokenKind → List Opening → Prop
  | leftBrace {opened : List Opening} : Step opened .leftBrace (.brace :: opened)
  | rightBrace {outer : List Opening} : Step (.brace :: outer) .rightBrace outer
  | stray : Step [] .rightBrace []
  | head {opened : List Opening} : Step opened .templateHead (.substitution :: opened)
  | middle {outer : List Opening} :
      Step (.substitution :: outer) .templateMiddle (.substitution :: outer)
  | tail {outer : List Opening} : Step (.substitution :: outer) .templateTail outer
  | plain {opened : List Opening} {kind : TokenKind} : kind ∉ kinds → Step opened kind opened

variable {opened opened' unclosed : List Opening} {kind : TokenKind}
  {read more : List TokenKind}

theorem behind_plain (plain : kind ∉ kinds) : behind opened kind = some opened := by
  unfold behind
  split <;> first | rfl | exact absurd (by decide) plain

theorem step_iff : behind opened kind = some opened' ↔ Step opened kind opened' := by
  refine ⟨fun step => ?_, fun step => ?_⟩
  · by_cases plain : kind ∉ kinds
    · cases (behind_plain plain).symm.trans step
      exact .plain plain
    simp only [kinds, not_not, List.mem_cons, List.not_mem_nil, or_false] at plain
    rcases plain with rfl | rfl | rfl | rfl | rfl
    all_goals rcases opened with _ | ⟨_ | _, opened⟩ <;> cases step <;> constructor
  · cases step with
    | plain plain => exact behind_plain plain
    | _ => rfl

/-- Only the head of a template opens a substitution where none is open. -/
theorem Step.outside (step : Step opened kind opened') (other : kind ≠ .templateHead)
    (outside : .substitution ∉ opened) : .substitution ∉ opened' := by
  cases step with
  | leftBrace => simpa using outside
  | rightBrace => exact fun member => outside (List.mem_cons_of_mem _ member)
  | head => exact absurd rfl other
  | middle | tail => exact absurd (List.mem_cons_self ..) outside
  | stray | plain => exact outside

theorem behindAll_cons : behindAll opened (kind :: read) = some unclosed ↔
    ∃ opened', Step opened kind opened' ∧ behindAll opened' read = some unclosed := by
  simp only [← step_iff]
  exact Option.bind_eq_some_iff

theorem behindAll_append : behindAll opened (read ++ more) = some unclosed ↔
    ∃ between, behindAll opened read = some between ∧ behindAll between more = some unclosed := by
  rw [behindAll, List.foldlM_append]
  exact Option.bind_eq_some_iff

end Opening

/-- Where some tokens stand: outside of all templates, or right between two braces, or right between
the head and the tail of a template. -/
inductive Surroundings
  | program
  | braces
  | template

/-- Tokens that nest. Braces come in pairs with tokens that nest between them, and so do the heads
and the tails of templates. Middles stand right between a head and a tail; braces outside of all
templates may do without their pairs. -/
inductive Nests : Surroundings → List TokenKind → Prop
  | nil {place : Surroundings} : Nests place []
  | plain {place : Surroundings} {kind : TokenKind} {later : List TokenKind} :
      kind ∉ Opening.kinds → Nests place later → Nests place (kind :: later)
  | braces {place : Surroundings} {inside later : List TokenKind} :
      Nests .braces inside → Nests place later →
      Nests place (.leftBrace :: (inside ++ .rightBrace :: later))
  | template {place : Surroundings} {inside later : List TokenKind} :
      Nests .template inside → Nests place later →
      Nests place (.templateHead :: (inside ++ .templateTail :: later))
  | middle {later : List TokenKind} :
      Nests .template later → Nests .template (.templateMiddle :: later)
  | stray {kind : TokenKind} {later : List TokenKind} :
      kind = .leftBrace ∨ kind = .rightBrace → Nests .program later → Nests .program (kind :: later)

namespace Opening

variable {opened opened' unclosed : List Opening} {kind : TokenKind}
  {read later : List TokenKind} {place : Surroundings}

/-- Tokens that nest in some place are read there, where they close what they open. -/
theorem behindAll_inside (h : Nests place read) (inside : place ≠ .program)
    (substitution : place = .template → opened.head? = some .substitution) :
    behindAll opened read = some opened := by
  induction h generalizing opened with
  | nil => rfl
  | plain plain _ ih => exact behindAll_cons.2 ⟨opened, .plain plain, ih inside substitution⟩
  | braces _ _ ihInside ih =>
    exact behindAll_cons.2 ⟨_, .leftBrace, behindAll_append.2 ⟨_, ihInside nofun nofun,
      behindAll_cons.2 ⟨opened, .rightBrace, ih inside substitution⟩⟩⟩
  | template _ _ ihInside ih =>
    exact behindAll_cons.2 ⟨_, .head, behindAll_append.2 ⟨_, ihInside nofun fun _ => rfl,
      behindAll_cons.2 ⟨opened, .tail, ih inside substitution⟩⟩⟩
  | middle _ ih =>
    obtain ⟨outer, rfl⟩ := List.head?_eq_some_iff.1 (substitution rfl)
    exact behindAll_cons.2 ⟨_, .middle, ih inside substitution⟩
  | stray => exact absurd rfl inside

/-- Tokens that nest outside of all templates are read there and leave no substitution open. -/
theorem behindAll_program (h : Nests place read) (program : place = .program)
    (outside : .substitution ∉ opened) :
    ∃ unclosed, behindAll opened read = some unclosed ∧ .substitution ∉ unclosed := by
  induction h generalizing opened with
  | nil => exact ⟨opened, rfl, outside⟩
  | plain plain _ ih =>
    obtain ⟨unclosed, read, closed⟩ := ih program outside
    exact ⟨unclosed, behindAll_cons.2 ⟨opened, .plain plain, read⟩, closed⟩
  | braces inside _ _ ih =>
    obtain ⟨unclosed, read, closed⟩ := ih program outside
    exact ⟨unclosed, behindAll_cons.2 ⟨_, .leftBrace, behindAll_append.2
      ⟨_, behindAll_inside inside nofun nofun, behindAll_cons.2 ⟨_, .rightBrace, read⟩⟩⟩, closed⟩
  | template inside _ _ ih =>
    obtain ⟨unclosed, read, closed⟩ := ih program outside
    exact ⟨unclosed, behindAll_cons.2 ⟨_, .head, behindAll_append.2
      ⟨_, behindAll_inside inside nofun fun _ => rfl, behindAll_cons.2 ⟨_, .tail, read⟩⟩⟩, closed⟩
  | middle => cases program
  | @stray kind _ brace _ ih =>
    obtain ⟨opened', step⟩ : ∃ opened', Step opened kind opened' := by
      rcases brace with rfl | rfl
      · exact ⟨_, .leftBrace⟩
      · rcases opened with _ | ⟨_ | _, outer⟩
        · exact ⟨_, .stray⟩
        · exact ⟨_, .rightBrace⟩
        · exact absurd (List.mem_cons_self ..) outside
    have other : kind ≠ .templateHead := by rcases brace with rfl | rfl <;> decide
    obtain ⟨unclosed, read, closed⟩ := ih program (step.outside other outside)
    exact ⟨unclosed, behindAll_cons.2 ⟨opened', step, read⟩, closed⟩

/-- Tokens that close what is open, from the inside out, with tokens that nest in between. -/
inductive Completes : List Opening → List TokenKind → Prop
  | program {opened : List Opening} {later : List TokenKind} :
      .substitution ∉ opened → Nests .program later → Completes opened later
  | brace {outer : List Opening} {inside later : List TokenKind} :
      Nests .braces inside → Completes outer later →
      Completes (.brace :: outer) (inside ++ .rightBrace :: later)
  | substitution {outer : List Opening} {inside later : List TokenKind} :
      Nests .template inside → Completes outer later →
      Completes (.substitution :: outer) (inside ++ .templateTail :: later)

theorem Completes.nests (h : Completes [] later) : Nests .program later := by
  cases h with
  | program _ nests => exact nests

/-- Tokens that may be put in front of others in every place may also be put in front of those that
close what is open. -/
theorem Completes.prepend (h : Completes opened later) (front : List TokenKind)
    (closed : ∀ place later, Nests place later → Nests place (front ++ later)) :
    Completes opened (front ++ later) := by
  cases h with
  | program outside nests => exact .program outside (closed _ _ nests)
  | brace inside outer =>
    rw [← List.append_assoc]
    exact .brace (closed _ _ inside) outer
  | substitution inside outer =>
    rw [← List.append_assoc]
    exact .substitution (closed _ _ inside) outer

/-- What is open before a token is closed by it and the tokens behind it if these close what is open
there. -/
theorem Completes.cons (h : Completes opened' later) (step : Step opened kind opened') :
    Completes opened (kind :: later) := by
  cases step with
  | plain plain => exact h.prepend [kind] fun _ _ => .plain plain
  | leftBrace =>
    cases h with
    | program outside nests =>
      exact .program (fun member => outside (List.mem_cons_of_mem _ member))
        (.stray (.inl rfl) nests)
    | @brace _ inside _ closed outer =>
      have pair := outer.prepend (.leftBrace :: (inside ++ [.rightBrace]))
        fun _ _ nests => by simpa using Nests.braces closed nests
      simpa using pair
  | rightBrace => exact .brace .nil h
  | stray => exact .program List.not_mem_nil (.stray (.inr rfl) h.nests)
  | head =>
    cases h with
    | program outside => exact absurd (List.mem_cons_self ..) outside
    | @substitution _ inside _ closed outer =>
      have pair := outer.prepend (.templateHead :: (inside ++ [.templateTail]))
        fun _ _ nests => by simpa using Nests.template closed nests
      simpa using pair
  | middle =>
    cases h with
    | program outside => exact absurd (List.mem_cons_self ..) outside
    | substitution inside outer => exact .substitution (.middle inside) outer
  | tail => exact .substitution .nil h

/-- Tokens that are read and leave no substitution open close those that are open before. -/
theorem completes_of_behindAll (h : behindAll opened read = some unclosed)
    (closed : .substitution ∉ unclosed) : Completes opened read := by
  -- from the last token back, so that what closes an opening is known where the opening is met
  induction read generalizing opened with
  | nil =>
    cases h
    exact .program closed .nil
  | cons kind read ih =>
    obtain ⟨opened', step, rest⟩ := behindAll_cons.1 h
    exact (ih rest).cons step

/-- Tokens nest just if they can be read with a stack and leave no substitution open. -/
theorem nests_iff : Nests .program read ↔
    ∃ unclosed, behindAll [] read = some unclosed ∧ .substitution ∉ unclosed :=
  ⟨fun nests => behindAll_program nests rfl List.not_mem_nil,
    fun ⟨_, read, closed⟩ => (completes_of_behindAll read closed).nests⟩

end Opening

/-- What an enclosure is to the tokens inside it. -/
def Enclosure.opening : Enclosure → Opening
  | .block | .object => .brace
  | .substitution => .substitution

namespace LexContext

/-- What is open in a context. -/
def openings (context : LexContext) : List Opening := context.enclosures.map Enclosure.opening

variable {context : LexContext} {kind : TokenKind}

theorem opening_eq_substitution (enclosure : Enclosure) :
    enclosure.opening = .substitution ↔ enclosure = .substitution := by
  cases enclosure <;> simp [Enclosure.opening]

theorem insideTemplate_iff : context.insideTemplate = true ↔ .substitution ∈ context.openings := by
  simp [openings, insideTemplate, opening_eq_substitution]

theorem closesSubstitution_iff :
    context.closesSubstitution = true ↔ context.openings.head? = some .substitution := by
  simp [openings, closesSubstitution, opening_eq_substitution]

theorem openings_after_plain (text : Text) (plain : kind ∉ Opening.kinds) :
    (context.after kind text).openings = context.openings := by
  rw [openings, after_enclosures]
  split <;> first | rfl | exact absurd (by decide) plain

theorem step_leftBrace (text : Text) :
    Opening.Step context.openings .leftBrace (context.after .leftBrace text).openings := by
  have opened : (context.after .leftBrace text).openings = .brace :: context.openings := by
    rw [openings, after_enclosures]
    cases context.opensObject <;> rfl
  rw [opened]
  exact .leftBrace

/-- A closing brace may stand where it ends no substitution. -/
theorem step_rightBrace (text : Text) (free : context.closesSubstitution = false) :
    Opening.Step context.openings .rightBrace (context.after .rightBrace text).openings := by
  rw [closesSubstitution, decide_eq_false_iff_not] at free
  rw [openings, openings, after_enclosures]
  generalize context.enclosures = enclosures at free
  rcases enclosures with _ | ⟨_ | _ | _, outer⟩
  · exact .stray
  · exact .rightBrace
  · exact .rightBrace
  · exact absurd rfl free

end LexContext

namespace Lexeme

variable {context : LexContext} {first : Bool} {c : CodePoint} {rest : Text} {lexeme : Lexeme}
  {kind : TokenKind} {n : Nat}

theorem punctuators_openings : ∀ entry ∈ TokenKind.punctuators,
    entry.2 ∉ Opening.kinds ∨ entry = ("\x7b", .leftBrace) ∨ entry = ("\x7d", .rightBrace) := by
  decide

theorem reservedWords_openings : ∀ entry ∈ TokenKind.reservedWords, entry.2 ∉ Opening.kinds := by
  decide

/-- A token may stand where it is scanned, and changes what is open as it does in the context. -/
theorem scan_step (h : scan context first c rest = .ok (lexeme, n)) (text : Text)
    (isKind : lexeme.kind? = some kind) :
    Opening.Step context.openings kind (context.after kind text).openings := by
  have plain (plain : kind ∉ Opening.kinds) :
      Opening.Step context.openings kind (context.after kind text).openings := by
    rw [LexContext.openings_after_plain text plain]
    exact .plain plain
  cases scanned_of_scan h with
  | hashbang | newline | blank | lineComment | blockComment | markupComment => cases isKind
  | string | privateName | regex =>
    cases isKind
    exact plain (by decide)
  | number _ found =>
    cases isKind
    rcases number_kind found with rfl | rfl <;> exact plain (by decide)
  | word =>
    cases isKind
    rcases name_kind _ with same | ⟨_, entry, member, same, _⟩
    · exact plain (by rw [same]; decide)
    · exact plain (by rw [same]; exact reservedWords_openings entry member)
  | @template _ stop =>
    cases isKind
    cases stop with
    | backtick => exact plain (by decide)
    | substitution => exact .head
  | @chunk _ stop _ closes =>
    obtain ⟨outer, enclosures⟩ := List.head?_eq_some_iff.1 (of_decide_eq_true closes)
    cases isKind
    rw [LexContext.openings, LexContext.openings, LexContext.after_enclosures, enclosures]
    cases stop with
    | backtick => exact .tail
    | substitution => exact .middle
  | punctuator _ free found =>
    cases isKind
    obtain ⟨entry, member, rfl, written, _⟩ := punctuator?_mem found
    rcases punctuators_openings entry member with other | rfl | rfl
    · exact plain other
    · exact LexContext.step_leftBrace text
    · have brace : c = CodePoint.ofChar '}' :=
        (List.cons_prefix_cons.1 (List.isPrefixOf_iff_prefix.1 written)).1.symm
      exact LexContext.step_rightBrace text (Bool.eq_false_iff.2 fun closes => free ⟨brace, closes⟩)

end Lexeme

variable {comments : CommentPolicy} {context context' : LexContext} {first : Bool}
  {items : List Item} {source tail : Text} {tokens : List Token}

/-- The kind of the token that an item is, if it is one. -/
def Item.kind? (comments : CommentPolicy) (item : Item) : Option TokenKind :=
  (item.face? comments).map (·.1)

/-- Items can be read with a stack, which is that of the contexts all along. -/
theorem Reads.behindAll_openings (reads : Reads context first items tail context') :
    Opening.behindAll context.openings (items.filterMap (Item.kind? comments)) =
      some context'.openings := by
  induction reads with
  | nil => rfl
  | @cons context _ _ lexeme c rest _ _ scanned _ ih =>
    cases lexeme with
    | blank => exact ih
    | newline => exact ih
    | comment =>
      have same : (context.behind ⟨.comment, c :: rest⟩).openings = context.openings := by
        simp only [LexContext.behind]
        split <;> rfl
      rw [same] at ih
      cases comments with
      | skip => exact ih
      | keep =>
        have comment : TokenKind.comment ∉ Opening.kinds := by decide
        exact Opening.behindAll_cons.2 ⟨_, .plain comment, ih⟩
    | word kind text =>
      exact Opening.behindAll_cons.2 ⟨_, Lexeme.scan_step scanned text rfl, ih⟩
    | token kind =>
      exact Opening.behindAll_cons.2 ⟨_, Lexeme.scan_step scanned (c :: rest) rfl, ih⟩

theorem Item.tokens_kind (here : Location) :
    (Item.tokens comments context here items).map Token.kind =
      items.filterMap (Item.kind? comments) ++ [.endOfInput] := by
  have faces := congrArg (List.map (·.1)) (Item.tokens_face comments context here items)
  rw [List.map_map, List.map_append, List.map_filterMap] at faces
  exact faces

/-- The tokens of a source can be read with a stack, which leaves no substitution open. -/
theorem tokenize_behindAll (read : tokenize comments source = .ok tokens) :
    ∃ unclosed, Opening.behindAll [] (tokens.map Token.kind) = some unclosed ∧
      .substitution ∉ unclosed := by
  obtain ⟨items, context, rfl, reads, closed, rfl⟩ := Token.exists_reads read
  have final : Opening.Step context.openings .endOfInput context.openings := .plain (by decide)
  refine ⟨context.openings, ?_, fun member => ?_⟩
  · rw [Item.tokens_kind]
    exact Opening.behindAll_append.2
      ⟨_, reads.behindAll_openings, Opening.behindAll_cons.2 ⟨_, final, rfl⟩⟩
  · rw [← LexContext.insideTemplate_iff, closed] at member
    cases member

/-- How many braces were opened more than closed, and how many that was where each open substitution
began, from the inside out. -/
structure BraceCount where
  depth : Int
  marks : List Int

namespace BraceCount

/-- The count behind a token. -/
def behind (count : BraceCount) : TokenKind → BraceCount
  | .leftBrace => ⟨count.depth + 1, count.marks⟩
  | .rightBrace => ⟨count.depth - 1, count.marks⟩
  | .templateHead => ⟨count.depth, count.depth :: count.marks⟩
  | .templateMiddle => ⟨count.depth, count.depth :: count.marks.tail⟩
  | .templateTail => ⟨count.depth, count.marks.tail⟩
  | _ => count

/-- A count agrees with a stack of what is open. -/
inductive Agrees : BraceCount → List Opening → Prop
  | nil {depth : Int} : Agrees ⟨depth, []⟩ []
  | brace {depth : Int} {marks : List Int} {outer : List Opening} :
      Agrees ⟨depth, marks⟩ outer → Agrees ⟨depth + 1, marks⟩ (.brace :: outer)
  | substitution {depth : Int} {marks : List Int} {outer : List Opening} :
      Agrees ⟨depth, marks⟩ outer → Agrees ⟨depth, depth :: marks⟩ (.substitution :: outer)

variable {count : BraceCount} {opened opened' unclosed : List Opening} {kind : TokenKind}
  {read : List TokenKind}

theorem behind_plain (plain : kind ∉ Opening.kinds) : count.behind kind = count := by
  unfold behind
  split <;> first | rfl | exact absurd (by decide) plain

/-- No substitution began deeper than where the tokens are. -/
theorem Agrees.mark_le (h : count.Agrees opened) :
    ∀ mark ∈ count.marks.head?, mark ≤ count.depth := by
  induction h with
  | nil => nofun
  | brace _ ih => exact fun mark first => Int.le_of_lt (Int.lt_add_one_of_le (ih mark first))
  | substitution => rintro _ ⟨⟩; exact Int.le_refl _

/-- What is innermost is a substitution if no brace was opened since one began. -/
theorem Agrees.substitution_iff (h : count.Agrees opened) :
    opened.head? = some .substitution ↔ count.marks.head? = some count.depth := by
  cases h with
  | nil => simp
  | @brace depth _ _ outer =>
    refine iff_of_false nofun fun deepest => ?_
    have : depth + 1 ≤ depth := outer.mark_le _ deepest
    omega
  | substitution => simp

theorem Agrees.behind (h : count.Agrees opened) (step : Opening.Step opened kind opened') :
    (count.behind kind).Agrees opened' := by
  cases step with
  | leftBrace => exact .brace h
  | rightBrace =>
    cases h with
    | @brace depth _ _ outer =>
      rw [BraceCount.behind, Int.add_sub_cancel]
      exact outer
  | stray =>
    cases h
    exact .nil
  | head => exact .substitution h
  | middle =>
    cases h with
    | substitution outer => exact .substitution outer
  | tail =>
    cases h with
    | substitution outer => exact outer
  | plain plain =>
    rw [behind_plain plain]
    exact h

theorem Agrees.behindAll (h : count.Agrees opened)
    (all : Opening.behindAll opened read = some unclosed) :
    (read.foldl BraceCount.behind count).Agrees unclosed := by
  induction read generalizing count opened with
  | nil =>
    cases all
    exact h
  | cons kind read ih =>
    obtain ⟨opened', step, rest⟩ := Opening.behindAll_cons.1 all
    exact ih (h.behind step) rest

end BraceCount

/-- A closing brace ends the substitution of a template just where the count of braces is what it
was where the innermost substitution began. So the count, with one mark for each open substitution,
does for the stack of a context, also where stray braces make it negative. -/
theorem Reads.closesSubstitution_iff (reads : Reads .initial first items tail context) :
    context.closesSubstitution = true ↔
      let count := (items.filterMap (Item.kind? .skip)).foldl BraceCount.behind ⟨0, []⟩
      count.marks.head? = some count.depth := by
  have agrees : BraceCount.Agrees ⟨0, []⟩ LexContext.initial.openings := .nil
  rw [LexContext.closesSubstitution_iff]
  exact (agrees.behindAll reads.behindAll_openings).substitution_iff

/-- The kind of a brace. -/
def CodePoint.braceKind (c : CodePoint) : TokenKind :=
  if c = ofChar '{' then .leftBrace else .rightBrace

/-- A brace is read as such where no substitution can be closed. -/
theorem Lexeme.scan_brace {c : CodePoint} (first : Bool) (rest : Text)
    (free : context.closesSubstitution = false)
    (brace : c = CodePoint.ofChar '{' ∨ c = CodePoint.ofChar '}') :
    scan context first c rest = .ok (.token c.braceKind, 0) := by
  have punctuator : punctuator? (c :: rest) = some (c.braceKind, 1) := by
    rcases brace with rfl | rfl <;> rfl
  have plain : c ≠ '#' ∧ c ≠ '/' ∧ c ≠ '<' ∧ c ≠ '"' ∧ c ≠ '\'' ∧ c ≠ '`' ∧ c ≠ '.' ∧ c ≠ '\\' ∧
      c.isLineTerminator = false ∧ c.isBlank = false ∧ c.val ≠ 0xFEFF ∧ c.isDigit = false ∧
      c.isIdentifierStart = false := by
    rcases brace with rfl | rfl <;> decide
  simp [scan, plain, free, punctuator]

/-- A brace as an item. -/
def Item.ofBrace (c : CodePoint) : Item := ⟨.token c.braceKind, [c]⟩

/-- Braces are read as such where no substitution is open, and open none. -/
theorem Reads.ofBraces (outside : .substitution ∉ context.openings)
    (braces : ∀ c ∈ source, c = CodePoint.ofChar '{' ∨ c = CodePoint.ofChar '}') :
    ∃ context', Reads context first (source.map Item.ofBrace) [] context' ∧
      .substitution ∉ context'.openings := by
  induction source generalizing context first with
  | nil => exact ⟨context, .nil .., outside⟩
  | cons c source ih =>
    obtain ⟨brace, braces⟩ := List.forall_mem_cons.1 braces
    have free : context.closesSubstitution = false := by
      rw [← Bool.not_eq_true, LexContext.closesSubstitution_iff]
      exact fun first => outside (List.mem_of_mem_head? first)
    have other : c.braceKind ≠ .templateHead := by rcases brace with rfl | rfl <;> decide
    have scanned (rest : Text) := Lexeme.scan_brace first rest free brace
    have step := Lexeme.scan_step (scanned []) [c] rfl
    obtain ⟨context', reads, outside'⟩ := ih (step.outside other outside) braces
    exact ⟨context', .cons (scanned _) reads, outside'⟩

/-- A source of braces alone has them for its tokens, whether they are balanced or not. -/
theorem tokenize_braces (comments : CommentPolicy)
    (braces : ∀ c ∈ source, c = CodePoint.ofChar '{' ∨ c = CodePoint.ofChar '}') :
    ∃ tokens, tokenize comments source = .ok tokens ∧
      tokens.map Token.kind = source.map CodePoint.braceKind ++ [.endOfInput] := by
  obtain ⟨context, reads, outside⟩ : ∃ context,
      Reads .initial true (source.map Item.ofBrace) [] context ∧
        .substitution ∉ context.openings := Reads.ofBraces List.not_mem_nil braces
  have closed : context.insideTemplate = false := by
    rwa [← Bool.not_eq_true, LexContext.insideTemplate_iff]
  have text : Item.textOf (source.map Item.ofBrace) = source := by
    simp [Item.textOf, List.flatMap_map, Item.ofBrace]
  have read : Token.readFrom comments .initial .origin (Item.textOf (source.map Item.ofBrace)) =
      .ok _ := Token.readFrom_of_reads reads closed
  rw [text] at read
  refine ⟨_, read, ?_⟩
  rw [Item.tokens_kind, List.filterMap_map]
  simp [Item.ofBrace, Item.kind?, Item.face?, Function.comp_def]

/-- Along the tokens of a source, a closing brace closes no brace that was opened before the
innermost open substitution, and the middle and the tail of a template stand where all braces of the
innermost substitution are closed; at the end no substitution is open. So the chunks of templates
nest, with braces in pairs between them. Braces outside of all templates need not: in a source of
nothing but braces any sequence of them is read. -/
theorem templates_nest (comments : CommentPolicy) :
    (∀ source tokens, tokenize comments source = .ok tokens →
      (∃ unclosed, Opening.behindAll [] (tokens.map Token.kind) = some unclosed ∧
        .substitution ∉ unclosed) ∧
      Nests .program (tokens.map Token.kind)) ∧
    ∀ source : Text, (∀ c ∈ source, c = CodePoint.ofChar '{' ∨ c = CodePoint.ofChar '}') →
      ∃ tokens, tokenize comments source = .ok tokens ∧
        tokens.map Token.kind = source.map CodePoint.braceKind ++ [.endOfInput] := by
  refine ⟨fun _ _ read => ?_, fun _ => tokenize_braces comments⟩
  have stack := tokenize_behindAll read
  exact ⟨stack, Opening.nests_iff.2 stack⟩

/-- A source with a template in a template and with stray braces around both. -/
def strayBraces : Text := Text.ofString "\x7d `a$\x7b \x7b\x7d \x7db$\x7b`c$\x7bd\x7d`\x7de` \x7b"

theorem templates_nest_strayBraces :
    (∃ tokens, tokenize .keep strayBraces = .ok tokens ∧
      tokens.map Token.kind = [.rightBrace, .templateHead, .leftBrace, .rightBrace, .templateMiddle,
        .templateHead, .identifier, .templateTail, .templateTail, .leftBrace, .endOfInput] ∧
      Opening.behindAll [] (tokens.map Token.kind) = some [.brace] ∧
      Nests .program (tokens.map Token.kind)) ∧
    ∃ tokens, tokenize .keep (Text.ofString "\x7d\x7b") = .ok tokens ∧
      tokens.map Token.kind = [.rightBrace, .leftBrace, .endOfInput] := by
  have kinds : (tokenize .keep strayBraces).toOption.map (List.map Token.kind) =
      some [.rightBrace, .templateHead, .leftBrace, .rightBrace, .templateMiddle,
        .templateHead, .identifier, .templateTail, .templateTail, .leftBrace, .endOfInput] := by
    decide +kernel
  obtain ⟨tokens, found, same⟩ := Option.map_eq_some_iff.1 kinds
  have read := eq_ok_of_toOption found
  have nests := ((templates_nest .keep).1 strayBraces tokens read).2
  exact ⟨⟨tokens, read, same, by rw [same]; rfl, nests⟩,
    (templates_nest .keep).2 (Text.ofString "\x7d\x7b") (by decide)⟩

end Uncurry
