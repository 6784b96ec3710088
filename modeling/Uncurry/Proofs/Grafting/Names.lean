import Uncurry.Proofs.Curry.Rewriting
import Uncurry.Proofs.Grafting.Callees
import Uncurry.Proofs.Progress.Layout

/-!
# Dotted names in a text

A dotted name that is written in the place of a name is read as its names and the points between
them, and everything around it is read as before.
-/
namespace Uncurry

variable {context context' other : LexContext} {first : Bool} {items : List Item}
  {head name tail tail' : Text} {members : List Text}

/-- Names that are operators nowhere. -/
structure Text.IsPlainName (name : Text) : Prop extends name.IsName where
  not_operator : name ∉ LexContext.operatorWords

/-- Names with points between them. -/
def Text.dotted (head : Text) (members : List Text) : Text :=
  head ++ members.flatMap fun member => CodePoint.ofChar '.' :: member

/-- The items of a dotted name. -/
def Item.dotted (head : Text) (members : List Text) : List Item :=
  .ofName head :: members.flatMap fun member =>
    [⟨.token .dot, Text.ofString "."⟩, .ofName member]

theorem Item.textOf_dotted (head : Text) (members : List Text) :
    textOf (dotted head members) = Text.dotted head members := by
  have links (members : List Text) : textOf (members.flatMap fun member =>
      [⟨.token .dot, Text.ofString "."⟩, .ofName member]) =
      members.flatMap fun member => CodePoint.ofChar '.' :: member := by
    induction members with
    | nil => rfl
    | cons member members ih =>
      rw [List.flatMap_cons, List.flatMap_cons, textOf_append, ih, textOf_cons, textOf_cons,
        textOf_nil, List.append_nil]
      rfl
  rw [dotted, textOf_cons, links]
  rfl

/-- Items are read in front of a text that goes on alike, in a context that agrees. -/
theorem Reads.seamed (h : Reads context first items tail context') (agrees : context.Agrees other)
    (seam : tail.Seamed tail') :
    Reads other first items tail' (items.foldl LexContext.behind other) ∧
      context'.Agrees (items.foldl LexContext.behind other) := by
  induction h generalizing other with
  | nil => exact ⟨.nil .., agrees⟩
  | @cons _ _ _ lexeme c rest _ items scanned _ ih =>
    obtain ⟨later, behind⟩ := ih (agrees.behind _) seam
    refine ⟨.cons (Lexeme.scan_seamed scanned (seam.append _) (.inl rfl) (fun _ => ?_) fun _ => ?_)
      later, behind⟩
    · exact agrees.regexMayStart.symm
    · exact agrees.closesSubstitution

/-- A point is read in front of every name. -/
theorem scan_point (word : tail.startsWord = true) :
    Lexeme.scan context false '.' tail = .ok (.token .dot, 0) := by
  have known : Lexeme.scan context false '.' ([] ++ Text.ofString "f") = .ok (.token .dot, 0) := rfl
  have read : Lexeme.scan context false '.' ([] ++ tail) = .ok (.token .dot, ([] : Text).length) :=
    Lexeme.scan_seamed known (Curry.of_startsWord (by decide) word) (.inl rfl) nofun nofun
  exact read

theorem Reads.dotted (names : ∀ name ∈ head :: members, name.IsPlainName)
    (ends : Text.continuesWord (Item.textOf items ++ tail) = false)
    (later : Reads ((Item.dotted head members).foldl LexContext.behind context) false items tail
      context') : Reads context first (Item.dotted head members ++ items) tail context' := by
  induction members generalizing context first head with
  | nil => exact .name (names head List.mem_cons_self).toIsName ends later
  | cons member members ih =>
    obtain ⟨here, names⟩ := List.forall_mem_cons.1 names
    have word : (Item.textOf (Item.dotted member members ++ items) ++ tail).startsWord = true := by
      rw [Item.textOf_append, Item.textOf_dotted, Text.dotted, List.append_assoc, List.append_assoc]
      exact Curry.startsWord_append (names member List.mem_cons_self).starts _
    exact .name here.toIsName rfl (.cons (scan_point word) (ih names later))

/-- Contexts behind a name and a dotted name agree. -/
theorem LexContext.Agrees.dotted (parens : context.parens = other.parens)
    (enclosures : context.enclosures = other.enclosures) (plain : name.IsPlainName)
    (names : ∀ name ∈ head :: members, name.IsPlainName) :
    (context.behind (.ofName name)).Agrees
      ((Item.dotted head members).foldl LexContext.behind other) := by
  induction members generalizing other head with
  | nil =>
    exact agrees_identifier parens enclosures plain.not_operator
      (names head List.mem_cons_self).not_operator
  | cons member members ih =>
    obtain ⟨_, names⟩ := List.forall_mem_cons.1 names
    exact @ih ((other.after .identifier head).after .dot (Text.ofString ".")) member parens
      enclosures names

/-- A dotted name is read in the place of a name, and everything around it as before. -/
theorem Reads.replace_name {front : List Item} (plain : name ∉ LexContext.operatorWords)
    (names : ∀ name ∈ head :: members, name.IsPlainName)
    (reads : Reads context first (front ++ .ofName name :: items) [] context') :
    ∃ other, Reads context first (front ++ (Item.dotted head members ++ items)) [] other ∧
      context'.Agrees other := by
  obtain ⟨front_reads, behind_reads⟩ := reads.split
  generalize between : front.foldl LexContext.behind context = mid at front_reads behind_reads
  obtain ⟨c, rest, written, scanned, later_reads⟩ := behind_reads.of_cons
  have written : name = c :: rest := written
  obtain ⟨isName, ends⟩ := Lexeme.isName_of_scan (by rw [← written]; exact scanned)
  rw [← written] at isName
  have agrees : LexContext.Agrees (mid.behind (.ofName name))
      ((Item.dotted head members).foldl LexContext.behind mid) :=
    .dotted rfl rfl ⟨isName, plain⟩ names
  obtain ⟨later_reads, closes⟩ := later_reads.seamed agrees (.refl [])
  have seam : Text.Seamed (Item.textOf (.ofName name :: items) ++ [])
      (Item.textOf (Item.dotted head members ++ items) ++ []) := by
    refine Curry.of_startsWord ?_ ?_
    · exact Curry.startsWord_append (Curry.startsWord_append isName.starts _) _
    · rw [Item.textOf_append, Item.textOf_dotted, Text.dotted, List.append_assoc, List.append_assoc]
      exact Curry.startsWord_append (names head List.mem_cons_self).starts _
  have front_reads := (front_reads.seamed (.refl context) seam).1
  rw [between] at front_reads
  exact ⟨_, front_reads.append (.dotted names ends later_reads), closes⟩

/-- Of a context the contents of the tokens depend on the line terminators alone. -/
theorem Item.contents_congr (h : context.newline = other.newline) :
    contents context items = contents other items := by
  induction items generalizing context other with
  | nil => rw [contents, contents, h]
  | cons item items ih =>
    obtain ⟨lexeme, written⟩ := item
    rw [contents, contents]
    cases lexeme with
    | blank => exact ih h
    | newline => exact ih rfl
    | comment =>
      refine ih ?_
      cases breaks : written.any CodePoint.isLineTerminator <;>
        simp [LexContext.behind, breaks, h, LexContext.afterNewline]
    | word kind text =>
      have later : contents (context.behind ⟨.word kind text, written⟩) items =
          contents (other.behind ⟨.word kind text, written⟩) items := ih rfl
      simp only [token?, later, h]
    | token kind =>
      have later : contents (context.behind ⟨.token kind, written⟩) items =
          contents (other.behind ⟨.token kind, written⟩) items := ih rfl
      simp only [token?, later, h]

/-- The contents of the tokens of a dotted name. -/
theorem Item.contents_dotted (head : Text) (members : List Text) :
    contents context (dotted head members ++ items) =
      (.identifier, head, context.newline) :: ((members.flatMap fun member =>
        [(.dot, Text.ofString ".", false), (.identifier, member, false)]) ++
        contents ((dotted head members).foldl LexContext.behind context) items) := by
  induction members generalizing context head with
  | nil => rfl
  | cons member members ih =>
    have later := @ih ((context.after .identifier head).after .dot (Text.ofString ".")) member
    exact congrArg (_ :: _ :: ·) later

/-- No line terminator is passed behind a dotted name. -/
theorem Item.newline_dotted (context : LexContext) (head : Text) (members : List Text) :
    ((dotted head members).foldl LexContext.behind context).newline = false := by
  induction members generalizing context head with
  | nil => rfl
  | cons member members ih =>
    exact ih ((context.after .identifier head).after .dot (Text.ofString ".")) member

theorem Reads.tokenize (reads : Reads .initial true items [] context)
    (closed : context.insideTemplate = false) :
    ∃ tokens, Uncurry.tokenize .skip (Item.textOf items) = .ok tokens ∧
      tokens.map Token.content = Item.contents .initial items :=
  ⟨_, Token.readFrom_of_reads reads closed, Item.content_tokens ..⟩

/-- What is known of a token but its place does not depend on it. -/
theorem Item.content_token? (context : LexContext) (span span' : Span) (item : Item) :
    (item.token? .skip context span).map Token.content =
      (item.token? .skip context span').map Token.content := by
  obtain ⟨lexeme, written⟩ := item
  cases lexeme <;> rfl

/-- A token among those of some items is the token of one of them. -/
theorem Item.exists_split {here : Location} {before back : List Token} {token : Token}
    (code : code .skip context here items = before ++ token :: back) :
    ∃ front item later place context', items = front ++ item :: later ∧
      place.offset = here.offset + (textOf front).length ∧
      item.token? .skip context' ⟨place, place.advance item.written (textOf later)⟩ = some token ∧
      ∀ more, contents context (front ++ more) =
        before.map Token.content ++ contents (front.foldl LexContext.behind context) more := by
  induction items generalizing context here before with
  | nil => simp [Item.code] at code
  | cons item items ih =>
    let there := here.advance item.written (textOf items)
    have first := content_token? context default ⟨here, there⟩ item
    have place (front : List Item) : there.offset + (textOf front).length =
        here.offset + (textOf (item :: front)).length := by
      rw [Location.advance_offset, textOf_cons, List.length_append, Nat.add_assoc]
    rw [Item.code] at code
    cases found : item.token? .skip context ⟨here, there⟩ with
    | none =>
      rw [found] at code first
      obtain ⟨front, item', later, place', context', rfl, offset, token, known⟩ := ih code
      refine ⟨item :: front, item', later, place', context', rfl, offset.trans (place front), token,
        fun more => ?_⟩
      rw [List.cons_append, contents, first, known]
      rfl
    | some own =>
      rw [found] at code first
      cases before with
      | nil =>
        obtain ⟨rfl, _⟩ := List.cons.inj code
        exact ⟨[], item, items, here, context, rfl, rfl, found, fun _ => rfl⟩
      | cons other before =>
        obtain ⟨same, rest⟩ := List.cons.inj code
        obtain ⟨front, item', later, place', context', rfl, offset, token, known⟩ := ih rest
        subst same
        refine ⟨item :: front, item', later, place', context', rfl, offset.trans (place front),
          token, fun more => ?_⟩
        rw [List.cons_append, contents, first, known]
        rfl

namespace Parsed

variable {source : Text} {tree : SyntaxTree} {g : Graft} {before back : List Token}
  {token paren final : Token}

/-- A name among the tokens that is written as it is spelled is an item. -/
theorem exists_name (parsed : Parsed source tree) (code : parsed.code = before ++ token :: back)
    (named : g.names token = true) (written : token.writtenIn source = g.name) :
    ∃ front later, parsed.items = front ++ .ofName g.name :: later ∧
      g.span.start.offset = (Item.textOf front).length ∧
      g.span.stop.offset = (Item.textOf front).length + g.name.length ∧
      ∀ more, Item.contents .initial (front ++ more) = before.map Token.content ++
        Item.contents (front.foldl LexContext.behind .initial) more := by
  obtain ⟨front, item, later, place, context', items, offset, found, known⟩ :=
    Item.exists_split code
  have stands := Item.token?_span found
  rw [Graft.names_eq_true named] at written found stands
  have text := parsed.text
  rw [items, Item.textOf_append] at text
  have length : place.offset = (Item.textOf front).length := offset.trans (Nat.zero_add _)
  have word := (parsed.reads.isRead item (by simp [items])).word found rfl
  have plainly : item.written = g.name := by
    rw [← written, ← Item.writtenIn_eq length stands, text]
  obtain ⟨lexeme, _⟩ := item
  obtain rfl : lexeme = .word .identifier g.name := word
  obtain rfl := plainly
  have span : g.span = _ := stands
  refine ⟨front, later, items, by rw [span]; exact length, ?_, known⟩
  rw [span]
  exact (Location.advance_offset ..).trans (by rw [length])

/-- The source with a dotted name where a name is called has the tokens with the graft. -/
theorem exists_grafted (parsed : Parsed source tree)
    (code : parsed.code = before ++ token :: paren :: back) (named : g.names token = true)
    (opens : paren.kind = .leftParen) (written : token.writtenIn source = g.name)
    (names : ∀ name ∈ g.first :: g.members, name.IsPlainName)
    (read : tokenize .skip source = .ok (parsed.code ++ [final])) :
    ∃ tokens, tokenize .skip (source.take g.span.start.offset ++
        (Text.dotted g.first g.members ++ source.drop g.span.stop.offset)) = .ok tokens ∧
      tokens.map Token.content = (g.tokens parsed.code ++ [final]).map Token.content := by
  obtain ⟨front, later, items, start, stop, known⟩ := parsed.exists_name code named written
  have reads := parsed.reads
  rw [items] at reads
  obtain ⟨other, reads', agrees⟩ := reads.replace_name g.name_plain names
  have closed : other.insideTemplate = false := by
    rw [LexContext.insideTemplate, ← agrees.enclosures]
    exact parsed.closed
  obtain ⟨tokens, accepted, contents⟩ := reads'.tokenize closed
  refine ⟨tokens, ?_, contents.trans ?_⟩
  · have text : source = Item.textOf front ++ g.name ++ Item.textOf later := by
      rw [← parsed.text, items, Item.textOf_append, List.append_assoc]
      rfl
    rw [← accepted, start, stop, Item.textOf_append, Item.textOf_append, Item.textOf_dotted, text,
      ← List.length_append, List.drop_left, List.append_assoc, List.take_left]
  · obtain ⟨tokens', accepted', original⟩ := parsed.reads.tokenize parsed.closed
    obtain rfl : parsed.code ++ [final] = tokens' := by
      rw [parsed.text, read] at accepted'
      exact Except.ok.inj accepted'
    rw [items, known, code, List.append_assoc, List.map_append, List.append_cancel_left_eq]
      at original
    obtain ⟨here, behind⟩ := List.cons.inj original
    generalize front.foldl LexContext.behind .initial = mid at known here behind
    have newline : token.newlineBefore = mid.newline := congrArg (·.2.2) here
    have same : Item.contents (mid.behind (.ofName g.name)) later =
        Item.contents ((Item.dotted g.first g.members).foldl LexContext.behind mid) later :=
      Item.contents_congr (Item.newline_dotted mid g.first g.members).symm
    have links : (g.links g.members).map Token.content = g.members.flatMap fun member =>
        [(.dot, Text.ofString ".", false), (.identifier, member, false)] := List.map_flatMap
    rw [known, Item.contents_dotted, ← same, ← newline, code,
      Graft.tokens_eq (code ▸ parsed.code_ordered.nodup) named opens, List.append_assoc,
      List.map_append, List.cons_append, List.append_assoc, List.map_cons, List.map_append, links]
    exact congrArg (fun later => _ ++ _ :: (_ ++ later)) behind.symm

end Parsed

end Uncurry
