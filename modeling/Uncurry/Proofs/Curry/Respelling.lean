import Uncurry.Proofs.Curry.Rewriting

/-!
# The tokens of the output

`transform_tokens` says that the tokens of the output are those of the source, but for the callees
and first arguments of the sites and for the stubs.
-/
namespace Uncurry

namespace Item

variable {comments : CommentPolicy} {offset : Nat} {items more : List Item}
  {place : Nat × TokenKind × Text}

/-- The kinds and texts of the tokens of some items, with the offsets that they start at. -/
def placed (comments : CommentPolicy) : Nat → List Item → List (Nat × TokenKind × Text)
  | _, [] => []
  | offset, item :: items =>
    ((item.face? comments).map (offset, ·)).toList ++
      placed comments (offset + item.written.length) items

/-- The same with the end of the text behind them. -/
def placedToEnd (comments : CommentPolicy) (offset : Nat) (items : List Item) :
    List (Nat × TokenKind × Text) :=
  placed comments offset items ++ [(offset + (textOf items).length, .endOfInput, [])]

theorem placed_append (offset : Nat) (items more : List Item) :
    placed comments offset (items ++ more) =
      placed comments offset items ++ placed comments (offset + (textOf items).length) more := by
  induction items generalizing offset with
  | nil => rfl
  | cons item items ih =>
    rw [List.cons_append, placed, ih, placed, List.append_assoc, textOf_cons, List.length_append,
      Nat.add_assoc]

theorem placedToEnd_append (offset : Nat) (items more : List Item) :
    placedToEnd comments offset (items ++ more) = placed comments offset items ++
      placedToEnd comments (offset + (textOf items).length) more := by
  rw [placedToEnd, placed_append, placedToEnd, List.append_assoc, textOf_append,
    List.length_append, Nat.add_assoc]

theorem placedToEnd_cons (offset : Nat) (item : Item) (items : List Item) :
    placedToEnd comments offset (item :: items) =
      ((item.face? comments).map (offset, ·)).toList ++
        placedToEnd comments (offset + item.written.length) items := by
  simpa [placed] using @placedToEnd_append comments offset [item] items

theorem mem_placed (nonempty : ∀ item ∈ items, item.written ≠ [])
    (h : place ∈ placed comments offset items) :
    offset ≤ place.1 ∧ place.1 < offset + (textOf items).length := by
  induction items generalizing offset with
  | nil => cases h
  | cons item items ih =>
    obtain ⟨here, later⟩ := List.forall_mem_cons.1 nonempty
    have length := List.length_pos_iff.2 here
    rw [textOf_cons, List.length_append]
    rcases List.mem_append.1 h with own | behind
    · obtain ⟨face, _, rfl⟩ := Option.map_eq_some_iff.1 (Option.mem_toList.1 own)
      exact ⟨Nat.le_refl _, by simp only; omega⟩
    · have := ih later behind
      omega

theorem mem_placedToEnd (nonempty : ∀ item ∈ items, item.written ≠ [])
    (h : place ∈ placedToEnd comments offset items) : offset ≤ place.1 := by
  rcases List.mem_append.1 h with inside | final
  · exact (mem_placed nonempty inside).1
  · rw [List.mem_singleton.1 final]
    exact Nat.le_add_right ..

theorem placed_faces (offset : Nat) (items : List Item) :
    (placed comments offset items).flatMap (fun place => [place.2]) =
      items.filterMap (face? comments) := by
  induction items generalizing offset with
  | nil => rfl
  | cons item items ih =>
    rw [placed, List.flatMap_append, ih, List.filterMap_cons]
    cases item.face? comments <;> rfl

/-- The tokens of items start where the items are. -/
theorem tokens_placed (context : LexContext) (here : Location) (items : List Item) :
    (tokens comments context here items).map (fun token => (token.start.offset, token.face)) =
      placedToEnd comments here.offset items := by
  induction items generalizing context here with
  | nil => rfl
  | cons item items ih =>
    rw [tokens, List.map_append, ih, placedToEnd_cons, Location.advance_offset,
      ← token?_face comments context ⟨here, here.advance item.written (textOf items)⟩]
    cases found : item.token? comments context ⟨here, here.advance item.written (textOf items)⟩ with
    | none => rfl
    | some token =>
      have start : token.start.offset = here.offset := by rw [Token.start, token?_span found]
      simp [start]

end Item

namespace Curry

/-- The tokens of the new callee for a name. -/
def calleeFaces (name : Text) : List (TokenKind × Text) :=
  [(.identifier, name), (.dot, Text.ofString "."), (.identifier, Text.ofString "f")]

/-- What becomes of a token at some offset at some sites: a callee is replaced, and what stands
between the first argument and the second is left out. -/
def respelledCalls : List (Site Span) → Nat → TokenKind × Text → List (TokenKind × Text)
  | [], _, face => [face]
  | site :: later, offset, face =>
    if site.callee.start.offset = offset then calleeFaces site.name
    else if site.first.start.offset ≤ offset ∧ offset < site.second.start.offset then []
    else respelledCalls later offset face

/-- The same with the stubs in front of the token if they are put there. -/
def respelledAt (stubs : List Location) (sites : List (Site Span)) (offset : Nat)
    (face : TokenKind × Text) : List (TokenKind × Text) :=
  (if stubs.any (·.offset = offset) then stubFaces else []) ++ respelledCalls sites offset face

/-- What becomes of a token of a program. -/
def respelled (table : ArityTable) (program : SyntaxTree) (token : Token) :
    List (TokenKind × Text) :=
  respelledAt (((receiver? program).bind Tree.info?).map Span.start).toList (sites table program)
    token.start.offset token.face

variable {source : Text} {offset : Nat} {items new : List Item} {changes : List Change}
  {stubs : List Location} {among : List (Site Span)} {face : TokenKind × Text}
  {comments : CommentPolicy}

def Change.stub? : Change → Option Location
  | .stub start => some start
  | .call _ => none

def Change.site? : Change → Option (Site Span)
  | .stub _ => none
  | .call site => some site

theorem Change.mem_stubs {start : Location} :
    start ∈ changes.filterMap Change.stub? ↔ .stub start ∈ changes := by
  rw [List.mem_filterMap]
  refine ⟨fun ⟨change, inside, same⟩ => ?_, fun inside => ⟨_, inside, rfl⟩⟩
  cases change <;> cases same
  exact inside

theorem Change.mem_sites {site : Site Span} :
    site ∈ changes.filterMap Change.site? ↔ .call site ∈ changes := by
  rw [List.mem_filterMap]
  refine ⟨fun ⟨change, inside, same⟩ => ?_, fun inside => ⟨_, inside, rfl⟩⟩
  cases change <;> cases same
  exact inside

theorem respelledCalls_before (h : ∀ site ∈ among, offset < site.callee.start.offset ∧
    offset < site.first.start.offset) : respelledCalls among offset face = [face] := by
  induction among with
  | nil => rfl
  | cons site later ih =>
    obtain ⟨here, behind⟩ := List.forall_mem_cons.1 h
    rw [respelledCalls, if_neg (by omega), if_neg (by omega), ih behind]

theorem respelledAt_plain (h : ∀ start ∈ stubs, start.offset ≠ offset) :
    respelledAt stubs among offset face = respelledCalls among offset face := by
  rw [respelledAt, if_neg (by simpa using h), List.nil_append]

/-- Changes are made at or behind some offset. -/
structure Behind (offset : Nat) (changes : List Change) : Prop where
  stubs : ∀ start ∈ changes.filterMap Change.stub?, offset ≤ start.offset
  sites : ∀ site ∈ changes.filterMap Change.site?,
    offset ≤ site.callee.start.offset ∧ offset ≤ site.first.start.offset

theorem Rewritten.behind (h : Rewritten source offset items changes new) :
    Behind offset changes := by
  have starts (change : Change) (member : change ∈ changes) :
      ∀ patch ∈ change.patches source, offset ≤ patch.range.start :=
    fun patch inside => h.start_le patch (List.mem_flatMap.2 ⟨change, member, inside⟩)
  constructor
  · exact fun start member => starts _ (Change.mem_stubs.1 member) _ List.mem_cons_self
  · intro site member
    have both := List.forall_mem_cons.1 (starts _ (Change.mem_sites.1 member))
    exact ⟨both.1, both.2 _ List.mem_cons_self⟩

/-- In front of all changes tokens stay what they are. -/
theorem Behind.respelledCalls (h : Behind offset changes) {place : Nat} (before : place < offset) :
    respelledCalls (changes.filterMap Change.site?) place face = [face] :=
  respelledCalls_before fun site member =>
    ⟨Nat.lt_of_lt_of_le before (h.sites site member).1,
      Nat.lt_of_lt_of_le before (h.sites site member).2⟩

theorem Behind.respelledAt (h : Behind offset changes) {place : Nat} (before : place < offset) :
    respelledAt (changes.filterMap Change.stub?) (changes.filterMap Change.site?) place face =
      [face] := by
  rw [respelledAt_plain fun start member =>
    Nat.ne_of_gt (Nat.lt_of_lt_of_le before (h.stubs start member)), h.respelledCalls before]

theorem respelledAt_behind_stub {start : Location} (behind : start.offset ≠ offset) :
    respelledAt (start :: stubs) among offset face = respelledAt stubs among offset face := by
  rw [respelledAt, respelledAt, List.any_cons, decide_eq_false behind, Bool.false_or]

theorem respelledAt_behind_call {site : Site Span} (callee : site.callee.start.offset ≠ offset)
    (behind : site.second.start.offset ≤ offset) :
    respelledAt stubs (site :: among) offset face = respelledAt stubs among offset face := by
  have outside : ¬(site.first.start.offset ≤ offset ∧ offset < site.second.start.offset) := by omega
  rw [respelledAt, respelledAt, respelledCalls, if_neg callee, if_neg outside]

/-- The tokens of the items that a call begins with are those of the new callee and of what stands
between it and the first argument. -/
theorem CallItems.faces {call : CallItems} {site : Site Span} (sound : call.Sound)
    (at_site : call.At offset site) (behind : Behind site.second.start.offset changes)
    (nonempty : ∀ item ∈ call.opening ++ call.dropped, item.written ≠ []) :
    ((offset, TokenKind.identifier, call.applied) ::
        Item.placed comments (offset + call.applied.length) (call.opening ++ call.dropped)).flatMap
      (fun place => respelledAt (changes.filterMap Change.stub?)
        (site :: changes.filterMap Change.site?) place.1 place.2) =
      calleeFaces call.name ++ call.opening.filterMap (Item.face? comments) := by
  have applied := sound.applied.length_pos
  have callee := at_site.callee_start
  have first := at_site.first
  have second := at_site.second
  have unstubbed {place : Nat} {face : TokenKind × Text} (before : place < site.second.start.offset) :
      respelledAt (changes.filterMap Change.stub?) (site :: changes.filterMap Change.site?) place
        face = respelledCalls (site :: changes.filterMap Change.site?) place face :=
    respelledAt_plain fun start member => Nat.ne_of_gt (Nat.lt_of_lt_of_le before
      (behind.stubs start member))
  have opening : (Item.placed comments (offset + call.applied.length) call.opening).flatMap
      (fun place => respelledAt (changes.filterMap Change.stub?)
        (site :: changes.filterMap Change.site?) place.1 place.2) =
      call.opening.filterMap (Item.face? comments) := by
    rw [← Item.placed_faces (offset + call.applied.length)]
    refine List.flatMap_congr fun place member => ?_
    have inside := Item.mem_placed (fun item inside =>
      nonempty item (List.mem_append_left _ inside)) member
    rw [unstubbed (by omega), respelledCalls, if_neg (by omega), if_neg (by omega),
      behind.respelledCalls (by omega)]
  have dropped : (Item.placed comments (offset + call.applied.length +
        (Item.textOf call.opening).length) call.dropped).flatMap
      (fun place => respelledAt (changes.filterMap Change.stub?)
        (site :: changes.filterMap Change.site?) place.1 place.2) = [] := by
    refine List.flatMap_eq_nil_iff.2 fun place member => ?_
    have inside := Item.mem_placed (fun item inside =>
      nonempty item (List.mem_append_right _ inside)) member
    rw [unstubbed (by omega), respelledCalls, if_neg (by omega), if_pos (by omega)]
  rw [List.flatMap_cons, Item.placed_append, List.flatMap_append, opening, dropped,
    List.append_nil, unstubbed (by omega), respelledCalls, if_pos callee, at_site.name]

/-- The tokens of what comes of the items are those of the items, each respelled. -/
theorem Rewritten.faces (h : Rewritten source offset items changes new)
    (nonempty : ∀ item ∈ items, item.written ≠ []) :
    (Item.placedToEnd comments offset items).flatMap (fun place =>
        respelledAt (changes.filterMap Change.stub?) (changes.filterMap Change.site?) place.1
          place.2) =
      new.filterMap (Item.face? comments) ++ [(.endOfInput, [])] := by
  induction h with
  | nil => rfl
  | @keep offset item items new changes made ih =>
    obtain ⟨here, later⟩ := List.forall_mem_cons.1 nonempty
    have length := List.length_pos_iff.2 here
    rw [Item.placedToEnd_cons, List.flatMap_append, ih later, List.filterMap_cons]
    cases item.face? comments with
    | none => rfl
    | some face =>
      rw [Option.map_some, Option.toList_some, List.flatMap_singleton,
        made.behind.respelledAt (Nat.lt_add_of_pos_right length)]
      rfl
  | @stub offset start kind text written items new changes starts _ word made ih =>
    obtain ⟨here, later⟩ := List.forall_mem_cons.1 nonempty
    have length := List.length_pos_iff.2 here
    rw [List.filterMap_append, stubItems_faces, List.append_assoc, Item.placedToEnd_cons,
      List.flatMap_append]
    refine (congrArg₂ (· ++ ·) ?_ ((List.flatMap_congr fun place member => ?_).trans
      (ih later))).trans (List.append_assoc stubFaces [(kind, text)] _)
    · have face : Item.face? comments ⟨.word kind text, written⟩ = some (kind, text) := rfl
      rw [face, Option.map_some, Option.toList_some, List.flatMap_singleton, respelledAt]
      change _ ++ respelledCalls (changes.filterMap Change.site?) offset (kind, text) = _
      rw [made.behind.respelledCalls (Nat.lt_add_of_pos_right length)]
      simp [Change.stub?, starts]
    · have := Item.mem_placedToEnd later member
      exact respelledAt_behind_stub (by simp only at length this; omega)
  | @call offset site call items new changes sound at_site made ih =>
    have applied := sound.applied.length_pos
    have callee := at_site.callee_start
    have second := at_site.second
    have later : ∀ item ∈ items, item.written ≠ [] := fun item member => nonempty item (by simp [member])
    have front : ∀ item ∈ call.opening ++ call.dropped, item.written ≠ [] := fun item member =>
      nonempty item (by
        rw [← List.append_assoc]
        exact List.mem_cons_of_mem _ (List.mem_append_left _ member))
    have start : Item.placedToEnd comments offset
          (.ofName call.applied :: (call.opening ++ (call.dropped ++ items))) =
        ((offset, TokenKind.identifier, call.applied) ::
          Item.placed comments (offset + call.applied.length) (call.opening ++ call.dropped)) ++
        Item.placedToEnd comments site.second.start.offset items := by
      rw [Item.placedToEnd_cons, ← List.append_assoc call.opening, Item.placedToEnd_append, second,
        Item.textOf_append, List.length_append, Nat.add_assoc _ (Item.textOf call.opening).length]
      rfl
    rw [start, List.flatMap_append]
    refine (congrArg₂ (· ++ ·) (CallItems.faces sound at_site made.behind front)
      ((List.flatMap_congr fun place member => ?_).trans (ih later))).trans ?_
    · have := Item.mem_placedToEnd later member
      exact respelledAt_behind_call (by omega) this
    · rw [List.filterMap_append, List.filterMap_append, List.append_assoc, List.append_assoc,
        List.append_assoc]
      rfl

/-- What is to be changed of a program is found among its tokens. Each site is a call that begins
with four of them, and the stubs are put before another one. -/
structure Located (table : ArityTable) (program : SyntaxTree) (tokens : List Token) : Prop where
  call : ∀ site ∈ sites table program, ∃ before applied opening name comma after,
    tokens = before ++ applied :: opening :: name :: comma :: after ∧
      site.Begins applied opening name comma ∧
      after.head?.map Token.start = some site.second.start
  stub : ∀ node ∈ receiver? program, ∃ token ∈ tokens, node.info?.map Span.start = some token.start

theorem Merged.stubs_eq {start? : Option Location} (h : Merged among start? changes) :
    changes.filterMap Change.stub? = start?.toList := by
  have none (sites : List (Site Span)) : (sites.map Change.call).filterMap Change.stub? = [] := by
    simp [List.filterMap_eq_nil_iff, Change.stub?]
  cases h with
  | calls => exact none among
  | stub start same => rw [List.filterMap_append, List.filterMap_cons, none, none]; rfl

theorem Merged.sites_eq {start? : Option Location} (h : Merged among start? changes) :
    changes.filterMap Change.site? = among := by
  have all (sites : List (Site Span)) : (sites.map Change.call).filterMap Change.site? = sites := by
    simp [List.filterMap_map, Function.comp_def, Change.site?]
  cases h with
  | calls => exact all among
  | stub start same => rw [List.filterMap_append, List.filterMap_cons, all, all, same]; rfl

variable {program : SyntaxTree} {table : ArityTable} {tokens : List Token} {behind : Location}

/-- The tokens that a site begins with stand one behind the other. -/
theorem Sited.exists_begins (h : Sited tokens behind changes) {site : Site Span}
    (member : .call site ∈ changes) : ∃ before applied opening name comma after,
      tokens = before ++ applied :: opening :: name :: comma :: after ∧
        site.Begins applied opening name comma ∧ site.second.start = startOf after behind := by
  induction h with
  | nil => cases member
  | skip token _ ih =>
    obtain ⟨before, _, _, _, _, _, rfl, found⟩ := ih member
    exact ⟨token :: before, _, _, _, _, _, rfl, found⟩
  | @stub token _ _ _ _ _ ih =>
    obtain ⟨before, _, _, _, _, _, rfl, found⟩ := ih (by simpa using member)
    exact ⟨token :: before, _, _, _, _, _, rfl, found⟩
  | @call other applied opening name comma _ _ _ begins second _ ih =>
    rcases List.mem_cons.1 member with same | member
    · cases same
      exact ⟨[], _, _, _, _, _, rfl, begins, second⟩
    · obtain ⟨before, _, _, _, _, _, rfl, found⟩ := ih member
      exact ⟨applied :: opening :: name :: comma :: before, _, _, _, _, _, rfl, found⟩

/-- The stubs are put before a token. -/
theorem Sited.exists_start (h : Sited tokens behind changes) {start : Location}
    (member : .stub start ∈ changes) : ∃ token ∈ tokens, token.start = start := by
  induction h with
  | nil => cases member
  | skip token _ ih =>
    obtain ⟨found, inside, same⟩ := ih member
    exact ⟨found, List.mem_cons_of_mem _ inside, same⟩
  | @stub token _ _ _ _ _ ih =>
    rcases List.mem_cons.1 member with same | member
    · cases same
      exact ⟨token, List.mem_cons_self, rfl⟩
    · obtain ⟨found, inside, same⟩ := ih member
      exact ⟨found, List.mem_cons_of_mem _ inside, same⟩
  | call _ _ _ ih =>
    obtain ⟨found, inside, same⟩ := ih (by simpa using member)
    exact ⟨found, by simp [inside], same⟩

end Curry

namespace Parsed

open Curry

variable {source : Text} {program : SyntaxTree} {tokens : List Token}

/-- The tokens of a source are those of its items. -/
theorem tokenize_eq (parsed : Parsed source program) (comments : CommentPolicy) :
    tokenize comments source = .ok (Item.tokens comments .initial .origin parsed.items) := by
  have read : Token.readFrom comments .initial .origin _ = _ :=
    Token.readFrom_of_reads parsed.reads parsed.closed
  rwa [parsed.text] at read

theorem located (parsed : Parsed source program) (table : ArityTable)
    (read : tokenize .skip source = .ok tokens) : Located table program tokens := by
  obtain ⟨stop, newline, _, same⟩ := Item.tokens_eq .skip .initial .origin parsed.items
  obtain rfl := Except.ok.inj ((parsed.tokenize_eq .skip).symm.trans read)
  obtain ⟨changes, merged, sited⟩ := parsed.exists_changes table
  constructor
  · intro site member
    rw [← merged.sites_eq, Change.mem_sites] at member
    obtain ⟨before, applied, opening, name, comma, after, code, begins, second⟩ :=
      (sited stop).exists_begins member
    refine ⟨before, applied, opening, name, comma,
      after ++ [⟨.endOfInput, [], ⟨stop, stop⟩, newline⟩], ?_, begins, ?_⟩
    · refine same.trans ((congrArg (· ++ _) code).trans ?_)
      simp
    · rw [second]
      cases after <;> rfl
  · intro node found
    obtain ⟨_, label, labelled, _⟩ := receiver found
    cases node with
    | missing => cases labelled
    | leaf => cases labelled
    | node own children span =>
      have stubs := merged.stubs_eq
      rw [Option.mem_def.1 found] at stubs
      have stub : Change.stub span.start ∈ changes :=
        Change.mem_stubs.1 (stubs ▸ List.mem_singleton.2 rfl)
      obtain ⟨token, inside, start⟩ := (sited stop).exists_start stub
      exact ⟨token, same ▸ List.mem_append_left _ inside, congrArg some start.symm⟩

/-- The edits of a source without escapes are made in its items. -/
theorem exists_new (parsed : Parsed source program) (plain : source.Unescaped)
    (table : ArityTable) : ∃ changes new,
      Merged (Curry.sites table program) (((receiver? program).bind Tree.info?).map Span.start)
        changes ∧
      Rewritten source 0 parsed.items changes new ∧
      Patch.edited (edits source table program) 0 source = Item.textOf new := by
  obtain ⟨changes, merged, sited⟩ := parsed.exists_changes table
  obtain ⟨new, made⟩ := @exists_rewritten _ _ _ _ _ .origin ⟨source.length, 0, 0⟩
    (sited _) rfl (by rw [parsed.text]; exact (Nat.zero_add _).symm) parsed.reads.isRead
    (parsed.items_plain plain)
  refine ⟨changes, new, merged, made, ?_⟩
  have perm : (edits source table program).Perm (changes.flatMap (Change.patches source)) := by
    have perm : List.Perm (List.map (stubPatch source) _ ++ _) _ := merged.perm
    rw [Option.toList_map, List.map_map] at perm
    exact perm
  have ascending : Patch.Ascending source.length 0 (changes.flatMap (Change.patches source)) :=
    (sited ⟨source.length, 0, 0⟩).ascending parsed.code_ordered rfl
  have text := made.text
  rw [parsed.text] at text
  rw [Patch.edited_perm perm ascending.starting_le_one]
  exact text

end Parsed

namespace Curry

variable {source : Text}

/-- The tokens of the output are those of the source, each respelled: at the sites the callee is
replaced and the first argument is left out with the comma behind it, and the stubs stand in front of
the declaration that they are put before. -/
theorem transform_tokens {result : Transformed} (h : (transform source).1 = .ok result)
    (plain : source.Unescaped) : ∃ program, parseProgram source = .ok program ∧
      (∀ comments, ∃ tokens output, tokenize comments source = .ok tokens ∧
        tokenize comments result.output = .ok output ∧
        output.map Token.face = tokens.flatMap (respelled (arities source program) program)) ∧
      ∀ tokens, tokenize .skip source = .ok tokens →
        Located (arities source program) program tokens := by
  obtain ⟨program, parsed, rfl⟩ := exists_result h
  obtain ⟨known⟩ := exists_parsed parsed
  refine ⟨program, parsed, fun comments => ?_, fun tokens => known.located _⟩
  obtain ⟨changes, new, merged, made, text⟩ := known.exists_new plain (arities source program)
  obtain ⟨context, reads, agrees⟩ := made.reads known.reads (.refl _)
  have closed : context.insideTemplate = false := by
    rw [LexContext.insideTemplate, ← agrees.enclosures]
    exact known.closed
  have read : Token.readFrom comments .initial .origin _ = _ := Token.readFrom_of_reads reads closed
  refine ⟨_, _, known.tokenize_eq comments, by rw [text]; exact read, ?_⟩
  refine (Item.tokens_face comments .initial .origin new).trans ?_
  rw [← made.faces known.reads.written_ne_nil, merged.stubs_eq, merged.sites_eq]
  have placed : (Item.tokens comments .initial .origin known.items).map _ = _ :=
    Item.tokens_placed .initial .origin known.items
  exact (congrArg (List.flatMap _) placed.symm).trans (List.flatMap_map ..)

theorem transform_tokens_nested : ∃ program tokens output, nested.Unescaped ∧
    tokenize .skip nested = .ok tokens ∧ tokenize .skip nestedOutput = .ok output ∧
    output.map Token.face = tokens.flatMap (respelled (arities nested program) program) := by
  obtain ⟨_, result, _, ok, _, text⟩ := exists_nested
  obtain ⟨program, _, read, _⟩ := transform_tokens ok nested_unescaped
  obtain ⟨tokens, output, before, after, same⟩ := read .skip
  exact ⟨program, tokens, output, nested_unescaped, before, text ▸ after, same⟩

end Curry

end Uncurry
