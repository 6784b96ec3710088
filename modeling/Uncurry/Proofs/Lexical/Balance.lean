import Uncurry.Proofs.Lexical.Agreement

/-!
# Items that are read alike everywhere

Items without slashes whose brackets are balanced can be put in any context: they are read in the
same way there, and leave the brackets that are open as they were.
-/
namespace Uncurry

/-- The kind and the text of a token, without its place. -/
def Token.face (token : Token) : TokenKind × Text := (token.kind, token.text)

/-- The kind and the text of the token that an item is, if it is one. -/
def Item.face? (comments : CommentPolicy) (item : Item) : Option (TokenKind × Text) :=
  match item.lexeme with
  | .blank | .newline => none
  | .comment =>
    match comments with
    | .skip => none
    | .keep => some (.comment, item.written)
  | .word kind text => some (kind, text)
  | .token kind => some (kind, item.written)

theorem Item.token?_face (comments : CommentPolicy) (context : LexContext) (span : Span)
    (item : Item) :
    (item.token? comments context span).map Token.face = item.face? comments := by
  obtain ⟨lexeme, written⟩ := item
  cases lexeme with
  | comment => cases comments <;> rfl
  | _ => rfl

/-- Which tokens a sequence of items has does not depend on the context. -/
theorem Item.tokens_face (comments : CommentPolicy) (context : LexContext) (here : Location)
    (items : List Item) : (Item.tokens comments context here items).map Token.face =
      items.filterMap (Item.face? comments) ++ [(.endOfInput, [])] := by
  induction items generalizing context here with
  | nil => rfl
  | cons item items ih =>
    rw [Item.tokens, List.map_append, ih, ← Option.toList_map, Item.token?_face,
      List.filterMap_cons]
    cases item.face? comments <;> rfl

/-- Whether all brackets that are closed were opened, given how many parentheses and braces are
open, and all that were opened are closed. No templates are allowed. -/
def balanced : (parens braces : Nat) → List TokenKind → Bool
  | parens, braces, [] => parens = 0 && braces = 0
  | parens, braces, kind :: later =>
    match kind with
    | .leftParen => balanced (parens + 1) braces later
    | .rightParen => 0 < parens && balanced (parens - 1) braces later
    | .leftBrace => balanced parens (braces + 1) later
    | .rightBrace => 0 < braces && balanced parens (braces - 1) later
    | .templateHead | .templateMiddle | .templateTail => false
    | _ => balanced parens braces later

namespace LexContext

/-- A context in which some more parentheses and braces are open. -/
structure Above (base : LexContext) (parens braces : Nat) (context : LexContext) : Prop where
  parens : ∃ opened, opened.length = parens ∧ context.parens = opened ++ base.parens
  enclosures : ∃ opened, opened.length = braces ∧ .substitution ∉ opened ∧
    context.enclosures = opened ++ base.enclosures

variable {base context : LexContext} {parens braces : Nat} {kind : TokenKind} {text : Text}
  {later : List TokenKind}

theorem Above.refl (base : LexContext) : base.Above 0 0 base :=
  ⟨⟨[], rfl, rfl⟩, ⟨[], rfl, by simp, rfl⟩⟩

/-- Where a brace was opened, a closing one ends no substitution. -/
theorem Above.closesSubstitution (h : base.Above parens braces context) (opened : 0 < braces) :
    context.closesSubstitution = false := by
  obtain ⟨_, enclosure, rfl, plain, same⟩ := h
  cases enclosure with
  | nil => cases opened
  | cons first enclosure =>
    simp only [List.mem_cons, not_or] at plain
    simp [LexContext.closesSubstitution, same, Ne.symm plain.1]

/-- A token of a balanced sequence opens or closes what is counted. -/
theorem Above.after (h : base.Above parens braces context)
    (balance : balanced parens braces (kind :: later) = true) : ∃ parens braces,
      base.Above parens braces (context.after kind text) ∧ balanced parens braces later = true := by
  obtain ⟨⟨parensOpen, rfl, hp⟩, ⟨bracesOpen, rfl, plain, hb⟩⟩ := h
  unfold balanced at balance
  split at balance
  · exact ⟨_, _, ⟨⟨context.opensHead :: parensOpen, rfl, by rw [after_parens, hp]; rfl⟩,
      ⟨bracesOpen, rfl, plain, hb⟩⟩, balance⟩
  · simp only [Bool.and_eq_true, decide_eq_true_eq] at balance
    obtain ⟨first, parensOpen, rfl⟩ :=
      List.exists_cons_of_ne_nil (List.length_pos_iff.1 balance.1)
    exact ⟨_, _, ⟨⟨parensOpen, rfl, by rw [after_parens, hp]; rfl⟩,
      ⟨bracesOpen, rfl, plain, hb⟩⟩, balance.2⟩
  · refine ⟨_, _, ⟨⟨parensOpen, rfl, hp⟩, ⟨(if context.opensObject then .object else .block) ::
      bracesOpen, rfl, ?_, by rw [after_enclosures, hb]; rfl⟩⟩, balance⟩
    cases context.opensObject <;> simp [plain]
  · simp only [Bool.and_eq_true, decide_eq_true_eq] at balance
    obtain ⟨first, bracesOpen, rfl⟩ :=
      List.exists_cons_of_ne_nil (List.length_pos_iff.1 balance.1)
    exact ⟨_, _, ⟨⟨parensOpen, rfl, hp⟩, ⟨bracesOpen, rfl, by simp_all, by
      rw [after_enclosures, hb]; rfl⟩⟩, balance.2⟩
  · cases balance
  · cases balance
  · cases balance
  · refine ⟨_, _, ⟨⟨parensOpen, rfl, ?_⟩, ⟨bracesOpen, rfl, plain, ?_⟩⟩, balance⟩
    · rw [after_parens, ← hp]
      split <;> first | contradiction | rfl
    · rw [after_enclosures, ← hb]
      split <;> first | contradiction | rfl

/-- What is no token neither opens nor closes anything. -/
theorem Above.trivia (h : base.Above parens braces context) {item : Item}
    (trivia : item.isTrivia = true) : base.Above parens braces (context.behind item) := by
  obtain ⟨newline, same⟩ : ∃ newline, [item].foldl behind context =
      { context with newline := newline } := context.foldl_trivia (by simpa using trivia)
  rw [List.foldl_cons, List.foldl_nil] at same
  rw [same]
  exact ⟨h.parens, h.enclosures⟩

end LexContext

/-- An item is read in front of a text in every context, if there a brace ends no substitution. -/
def Item.Firm (item : Item) (t : Text) : Prop :=
  ∀ context first, (item.lexeme = .token .rightBrace → context.closesSubstitution = false) →
    ∃ c rest, item.written = c :: rest ∧
      Lexeme.scan context first c (rest ++ t) = .ok (item.lexeme, rest.length)

/-- All items are firm in front of those behind them. -/
def Item.AllFirm : List Item → Text → Prop
  | [], _ => True
  | item :: items, tail => item.Firm (Item.textOf items ++ tail) ∧ AllFirm items tail

theorem Item.AllFirm.append {items more : List Item} {tail : Text}
    (h : AllFirm items (Item.textOf more ++ tail)) (h' : AllFirm more tail) :
    AllFirm (items ++ more) tail := by
  induction items with
  | nil => exact h'
  | cons item items ih =>
    refine ⟨?_, ih h.2⟩
    rw [List.append_eq, Item.textOf_append, List.append_assoc]
    exact h.1

/-- A test of an item for being firm, on the text in front of which it stands up to a line feed. -/
def Item.isFirm (t : Text) (item : Item) : Bool :=
  match item.written with
  | [] => false
  | c :: rest =>
    decide (Lexeme.scan .initial false c (rest ++ t) = .ok (item.lexeme, rest.length)) &&
      c != '#' && c != '/' && (c != '}' || item.lexeme = .token .rightBrace)

theorem Item.firm_of_isFirm {item : Item} {t t' : Text} (h : item.isFirm t = true)
    (seamed : t.Seamed t') : item.Firm t' := by
  obtain ⟨lexeme, written⟩ := item
  cases written with
  | nil => cases h
  | cons c rest =>
    simp only [isFirm, Bool.and_eq_true, decide_eq_true_eq, bne_iff_ne, ne_eq, Bool.or_eq_true] at h
    obtain ⟨⟨⟨scanned, hash⟩, slash⟩, brace⟩ := h
    intro context first closes
    refine ⟨c, rest, rfl, Lexeme.scan_seamed scanned seamed (.inr hash) (absurd · slash) ?_⟩
    intro closing
    exact closes (brace.resolve_left (not_not_intro closing))

/-- The same test of some items. -/
def Item.areFirm : List Item → Text → Bool
  | [], _ => true
  | item :: items, tail => item.isFirm (textOf items ++ tail) && areFirm items tail

theorem Item.allFirm_of_areFirm {items : List Item}
    (h : areFirm items [CodePoint.ofChar '\n'] = true) (tail : Text) :
    AllFirm items (CodePoint.ofChar '\n' :: tail) := by
  induction items with
  | nil => trivial
  | cons item items ih =>
    simp only [areFirm, Bool.and_eq_true] at h
    refine ⟨firm_of_isFirm h.1 ⟨textOf items ++ [CodePoint.ofChar '\n'], [], tail, ?_, ?_, ?_⟩, ih h.2⟩
    · simp
    · simp
    · exact .inr (.inr (by simp))

/-- Firm items with balanced brackets are read in every context, and leave the brackets that are
open there as they were. -/
theorem Reads.of_firm {base context : LexContext} {first : Bool} {items : List Item}
    {parens braces : Nat} {tail : Text} (above : base.Above parens braces context)
    (balance : balanced parens braces ((items.filterMap (Item.face? .skip)).map (·.1)) = true)
    (firm : Item.AllFirm items tail) :
    ∃ context', Reads context first items tail context' ∧ context'.parens = base.parens ∧
      context'.enclosures = base.enclosures := by
  induction items generalizing context first parens braces with
  | nil =>
    simp only [List.filterMap_nil, List.map_nil, balanced, Bool.and_eq_true,
      decide_eq_true_eq] at balance
    obtain ⟨⟨opened, length, parens⟩, ⟨opened', length', _, enclosures⟩⟩ := above
    obtain rfl := List.length_eq_zero_iff.1 (length.trans balance.1)
    obtain rfl := List.length_eq_zero_iff.1 (length'.trans balance.2)
    exact ⟨context, .nil .., parens, enclosures⟩
  | cons item items ih =>
    obtain ⟨lexeme, written⟩ := item
    have step {parens' braces' : Nat}
        (above' : base.Above parens' braces' (context.behind ⟨lexeme, written⟩))
        (balance' : balanced parens' braces' ((items.filterMap (Item.face? .skip)).map (·.1)) = true)
        (closes : lexeme = .token .rightBrace → context.closesSubstitution = false) :
        ∃ context', Reads context first (⟨lexeme, written⟩ :: items) tail context' ∧
          context'.parens = base.parens ∧ context'.enclosures = base.enclosures := by
      obtain ⟨c, rest, rfl, scanned⟩ := firm.1 context first closes
      obtain ⟨context', reads, same⟩ := ih above' balance' firm.2
      exact ⟨context', .cons scanned reads, same⟩
    have token {kind : TokenKind} {text : Text}
        (balance : balanced parens braces
          (kind :: (items.filterMap (Item.face? .skip)).map (·.1)) = true)
        (behind : context.behind ⟨lexeme, written⟩ = context.after kind text)
        (closing : lexeme = .token .rightBrace → kind = .rightBrace) :
        ∃ context', Reads context first (⟨lexeme, written⟩ :: items) tail context' ∧
          context'.parens = base.parens ∧ context'.enclosures = base.enclosures := by
      obtain ⟨parens', braces', above', balance'⟩ :=
        @LexContext.Above.after base context parens braces kind text _ above balance
      refine step (behind ▸ above') balance' fun brace => ?_
      obtain rfl := closing brace
      have opened : 0 < braces := by
        simp only [balanced, Bool.and_eq_true, decide_eq_true_eq] at balance
        exact balance.1
      exact above.closesSubstitution opened
    cases lexeme with
    | word kind text => exact token balance rfl nofun
    | token kind => exact token balance rfl fun brace => by cases brace; rfl
    | _ => exact step (above.trivia rfl) balance nofun

end Uncurry
