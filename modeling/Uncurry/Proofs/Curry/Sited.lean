import Uncurry.Proofs.Curry.Sites
import Uncurry.Proofs.Syntax.Spelling

/-!
# Sites among the tokens

`sited_spelled` finds the sites of a spelled tree among its tokens, one behind the other, and
`cut_spelled` says that a node starts in front of a site, behind its part that changes or outside
of it, unless it is an argument list.
-/
namespace Uncurry.Curry

/-- What is done to a program in one place: the stubs come in, or a call is uncurried. -/
inductive Change
  | stub (start : Location)
  | call (site : Site Span)

/-- Where the tokens start, or what is behind them. -/
def startOf (tokens : List Token) (behind : Location) : Location :=
  (tokens.head?.map Token.start).getD behind

@[simp] theorem startOf_nil (behind : Location) : startOf [] behind = behind := rfl

@[simp] theorem startOf_cons (token : Token) (tokens : List Token) (behind : Location) :
    startOf (token :: tokens) behind = token.start := rfl

theorem startOf_append (first second : List Token) (behind : Location) :
    startOf (first ++ second) behind = startOf first (startOf second behind) := by
  cases first <;> rfl

/-- The four tokens that a call of a site begins with. -/
structure Site.Begins (site : Site Span) (applied opening name comma : Token) : Prop where
  applied_kind : applied.kind = .identifier
  applied_text : (applicationArity? applied.text).isSome = true
  opening_kind : opening.kind = .leftParen
  name_kind : name.kind = .identifier
  comma_kind : comma.kind = .comma
  callee : site.callee = applied.span
  name_text : site.name = name.text
  first : site.first = name.span

/-- The changes are made among the tokens, one behind the other. -/
inductive Sited : List Token → Location → List Change → Prop
  | nil (behind : Location) : Sited [] behind []
  | skip (token : Token) {tokens : List Token} {behind : Location} {changes : List Change} :
      Sited tokens behind changes → Sited (token :: tokens) behind changes
  | stub {token : Token} {tokens : List Token} {behind : Location} {changes : List Change} :
      token.opensDeclaration = true → Sited tokens behind changes →
      Sited (token :: tokens) behind (.stub token.start :: changes)
  | call {site : Site Span} {applied opening name comma : Token} {tokens : List Token}
      {behind : Location} {changes : List Change} :
      site.Begins applied opening name comma → site.second.start = startOf tokens behind →
      Sited tokens behind changes →
      Sited (applied :: opening :: name :: comma :: tokens) behind (.call site :: changes)

namespace Sited

variable {first second tokens : List Token} {behind : Location} {changes more : List Change}

theorem append (h : Sited first (startOf second behind) changes) (h' : Sited second behind more) :
    Sited (first ++ second) behind (changes ++ more) := by
  generalize hb : startOf second behind = between at h
  induction h with
  | nil => exact h'
  | skip token _ ih => exact .skip token (ih hb)
  | stub opens _ ih => exact .stub opens (ih hb)
  | call begins next _ ih =>
    refine .call begins ?_ (ih hb)
    rw [List.append_eq, startOf_append, hb, next]

theorem skips (tokens : List Token) (behind : Location) : Sited tokens behind [] := by
  induction tokens with
  | nil => exact .nil behind
  | cons token tokens ih => exact .skip token ih

end Sited

/-- No call of a site begins with the first token of a declaration. -/
theorem Site.Begins.not_opensDeclaration {site : Site Span} {applied opening name comma : Token}
    (h : site.Begins applied opening name comma) : applied.opensDeclaration = false := by
  have text := h.applied_text
  have plain (word : String) (no : applicationArity? (Text.ofString word) = none) :
      applied.isWord word = false := by
    refine Bool.eq_false_iff.2 fun is => ?_
    simp only [Token.isWord, Bool.and_eq_true, decide_eq_true_eq] at is
    rw [is.2, no] at text
    cases text
  simp [Token.opensDeclaration, h.applied_kind, plain "let" rfl, plain "async" rfl]

variable {table : ArityTable}

/-- Where spelled trees with commas between them start. -/
theorem listed_start {rest : List Piece} {second : SyntaxTree} {later : List SyntaxTree}
    {span : Span} (listed : Piece.Listed rest) (children : Piece.children rest = second :: later)
    (parts : ∀ own sub, .child own sub ∈ rest → Spelled own sub) (info : second.info? = some span)
    (tokens : List Token) (behind : Location) :
    span.start = startOf (Piece.spelling rest ++ tokens) behind := by
  obtain ⟨own, pieces, rfl⟩ : ∃ own pieces, rest = .child own second :: pieces := by
    cases listed with
    | none => cases children
    | last own tree =>
      obtain ⟨rfl, _⟩ := List.cons.inj children
      exact ⟨own, [], rfl⟩
    | @more own tree comma rest _ _ =>
      obtain ⟨rfl, _⟩ := List.cons.inj children
      exact ⟨own, _, rfl⟩
  have spelled := parts own second (by simp)
  obtain rfl := Option.some.inj (spelled.info?.symm.trans info)
  obtain ⟨token, later, rfl⟩ := List.exists_cons_of_ne_nil spelled.ne_nil
  rfl

/-- What a call of a site is spelled by. -/
theorem site_parts {taken : List Token} {tree : SyntaxTree} {site : Site Span}
    (h : Spelled taken tree) (found : site? table tree = some site) :
    ∃ applied opening name comma closing rest callee values listed whole,
      taken = applied :: opening :: name :: comma :: (Piece.spelling rest ++ [closing]) ∧
      site.Begins applied opening name comma ∧
      (∀ behind, site.second.start = startOf (Piece.spelling rest ++ [closing]) behind) ∧
      tree = .node .call [callee, .node .args (values ++ Piece.children rest) listed] whole ∧
      callee.nodes = [] ∧ Tree.nodesAmong values = [] ∧
      (∀ own sub, .child own sub ∈ rest → Spelled own sub) := by
  obtain ⟨applied, second, later, list, whole, rfl, arity, _, behind⟩ := site?_eq_some found
  obtain ⟨pieces, rfl, children, _, _, fits, parts⟩ := h.of_node
  obtain ⟨called, callee, listed, values, span, rfl⟩ := fits.call rfl
  simp only [Piece.children_cons, Piece.children_nil, Piece.trees, List.cons_append,
    List.nil_append, List.cons.injEq, Tree.node.injEq, and_true, true_and] at children
  obtain ⟨rfl, rfl, rfl⟩ := children
  obtain ⟨token, rfl, kind, text, calleeSpan⟩ := (parts called _ List.mem_cons_self).of_leaf
  obtain ⟨inner, rfl, children, _, _, fits', parts'⟩ :=
    (parts listed _ (List.mem_cons_of_mem _ List.mem_cons_self)).of_node
  obtain ⟨opening, args, closing, paren, rfl, commas⟩ := fits'.args rfl
  rw [List.cons_append, Piece.children_cons, Piece.children_append] at children
  simp only [Piece.trees, Piece.children_cons, Piece.children_nil, List.nil_append,
    List.append_nil] at children
  cases commas with
  | none => cases children
  | last own tree => simp [Piece.trees] at children
  | @more own tree comma rest kindComma commas =>
    simp only [Piece.children_cons, Piece.trees, List.cons_append, List.nil_append,
      List.cons.injEq] at children
    obtain ⟨rfl, children⟩ := children
    obtain ⟨name, rfl, kindName, textName, spanName⟩ :=
      (parts' own (.leaf (.token .identifier) site.name site.first) (by simp)).of_leaf
    have inside (own' : List Token) (sub : SyntaxTree) (member : .child own' sub ∈ rest) :
        Spelled own' sub := parts' own' sub (by simp [member])
    refine ⟨token, opening, name, comma, closing, rest,
      .leaf (.token .identifier) applied site.callee, [.leaf (.token .identifier) site.name site.first],
      list, whole, ?_, ?_, ?_, ?_, rfl, rfl, inside⟩
    · simp [Piece.tokens]
    · exact
        { applied_kind := (LeafKind.token.inj kind).symm
          applied_text := by rw [← text, arity]; rfl
          opening_kind := paren
          name_kind := (LeafKind.token.inj kindName).symm
          comma_kind := kindComma
          callee := calleeSpan
          name_text := textName
          first := spanName }
    · exact listed_start commas children.symm inside behind [closing]
    · rw [children]
      rfl

/-- The sites of a call of a site are itself and those of the later arguments. -/
theorem sites_call {callee : SyntaxTree} {values later : List SyntaxTree} {listed whole : Span}
    {site : Site Span} (plain : callee.nodes = []) (values_plain : Tree.nodesAmong values = [])
    (found : site? table (.node .call [callee, .node .args (values ++ later) listed] whole) =
      some site) :
    sites table (.node .call [callee, .node .args (values ++ later) listed] whole) =
      site :: sitesAmong table later := by
  have list : site? table (.node .args (values ++ later) listed) = none := rfl
  simp [sites, sitesAmong, found, plain, values_plain, list]

theorem mem_children {own : List Token} {sub : SyntaxTree} {pieces : List Piece}
    (h : .child own sub ∈ pieces) : sub ∈ Piece.children pieces :=
  List.mem_flatMap.2 ⟨_, h, List.mem_singleton.2 rfl⟩

/-- A child of the argument list of a call is smaller than the call. -/
theorem sizeOf_argument {callee sub : SyntaxTree} {values : List SyntaxTree} {listed whole : Span}
    (h : sub ∈ values) :
    sizeOf sub < sizeOf (Tree.node .call [callee, .node .args values listed] whole) :=
  Nat.lt_trans (Tree.sizeOf_child h)
    (Tree.sizeOf_child (List.mem_cons_of_mem callee List.mem_cons_self))

/-- The sites of what pieces spell are found among their tokens if those of each piece are. -/
theorem sited_pieces {pieces : List Piece}
    (parts : ∀ own sub, .child own sub ∈ pieces → ∀ behind,
      Sited own behind ((sites table sub).map .call)) (behind : Location) :
    Sited (Piece.spelling pieces) behind
      ((sitesAmong table (Piece.children pieces)).map .call) := by
  induction pieces with
  | nil => exact .nil behind
  | cons piece pieces ih =>
    have later := ih fun own sub member => parts own sub (List.mem_cons_of_mem _ member)
    rw [Piece.spelling_cons, Piece.children_cons, sitesAmong_append, List.map_append]
    refine .append ?_ later
    cases piece with
    | child own sub =>
      simpa [Piece.trees, Piece.tokens] using parts own sub List.mem_cons_self _
    | token token => exact .skips [token] _
    | absent => exact .skips [] _
    | word kind token => exact .skips [token] _
    | echo kind token => exact .skips [] _

/-- The sites of a spelled tree are found among its tokens. -/
theorem sited_spelled {taken : List Token} {tree : SyntaxTree} (h : Spelled taken tree)
    (behind : Location) : Sited taken behind ((sites table tree).map .call) := by
  induction hn : sizeOf tree using Nat.strongRecOn generalizing taken tree behind with
  | ind size ih =>
  cases found : site? table tree with
  | some site =>
    obtain ⟨applied, opening, name, comma, closing, rest, callee, values, listed, whole, rfl,
      begins, second, rfl, plain, values_plain, parts⟩ := site_parts h found
    rw [sites_call plain values_plain found, List.map_cons]
    refine .call begins (second behind) ?_
    rw [← List.append_nil ((sitesAmong table _).map _)]
    refine .append (sited_pieces (fun own sub member behind => ?_) _) (.skips [closing] behind)
    refine ih (sizeOf sub) ?_ (parts own sub member) behind rfl
    exact hn ▸ sizeOf_argument (List.mem_append_right values (mem_children member))
  | none =>
    cases h with
    | leaf token => exact .skips [token] behind
    | node label pieces _ _ parts =>
      rw [sites_node, found]
      refine sited_pieces (fun own sub member behind => ?_) behind
      exact ih (sizeOf sub) (hn ▸ Tree.sizeOf_child (mem_children member))
        (parts own sub member) behind rfl

/-- A node starts somewhere among the tokens, with every site before it or behind its start. -/
inductive Cut (node : SyntaxTree) : List Token → List (Site Span) → Prop
  | intro (front : List Token) (before : List (Site Span)) {own back : List Token}
      {after : List (Site Span)} : own <+: back → Spelled own node →
      (∀ behind, Sited front (startOf back behind) (before.map .call)) →
      (∀ behind, Sited back behind (after.map .call)) →
      Cut node (front ++ back) (before ++ after)

namespace Cut

variable {node : SyntaxTree} {taken more : List Token} {among others : List (Site Span)}

theorem prepend (others_sited : ∀ behind, Sited more behind (others.map .call))
    (h : Cut node taken among) : Cut node (more ++ taken) (others ++ among) := by
  cases h with
  | intro front before starts spelled sited sited' =>
    rw [← List.append_assoc, ← List.append_assoc]
    refine .intro _ _ starts spelled (fun behind => ?_) sited'
    rw [List.map_append]
    exact .append (others_sited _) (sited behind)

theorem append (h : Cut node taken among)
    (others_sited : ∀ behind, Sited more behind (others.map .call)) :
    Cut node (taken ++ more) (among ++ others) := by
  cases h with
  | @intro front before own back after starts spelled sited sited' =>
    rw [List.append_assoc, List.append_assoc]
    refine .intro _ _ (starts.trans (List.prefix_append back more)) spelled (fun behind => ?_) ?_
    · rw [startOf_append]
      exact sited _
    · intro behind
      rw [List.map_append]
      exact .append (sited' _) (others_sited behind)

theorem call {site : Site Span} {applied opening name comma : Token}
    (begins : site.Begins applied opening name comma)
    (second : ∀ behind, site.second.start = startOf taken behind) (h : Cut node taken among) :
    Cut node (applied :: opening :: name :: comma :: taken) (site :: among) := by
  cases h with
  | intro front before starts spelled sited sited' =>
    refine .intro (applied :: opening :: name :: comma :: front) (site :: before) starts spelled
      (fun behind => ?_) sited'
    refine .call begins ?_ (sited behind)
    rw [← startOf_append]
    exact second behind

/-- A node among what pieces spell starts in one of them. -/
theorem pieces {pieces : List Piece} (spelled : ∀ own sub, .child own sub ∈ pieces →
      Spelled own sub)
    (parts : ∀ own sub, .child own sub ∈ pieces → node ∈ sub.nodes →
      Cut node own (sites table sub))
    (inside : node ∈ Tree.nodesAmong (Piece.children pieces)) :
    Cut node (Piece.spelling pieces) (sitesAmong table (Piece.children pieces)) := by
  induction pieces with
  | nil => cases inside
  | cons piece pieces ih =>
    have later := fun own sub member => spelled own sub (List.mem_cons_of_mem piece member)
    rw [Piece.spelling_cons, Piece.children_cons, sitesAmong_append]
    rw [Piece.children_cons, Tree.nodesAmong_append, List.mem_append] at inside
    have outside {more : List Token} {others : List (Site Span)}
        (sited : ∀ behind, Sited more behind (others.map .call))
        (inside : node ∈ Tree.nodesAmong (Piece.children pieces)) :=
      prepend sited (ih later (fun own sub member =>
        parts own sub (List.mem_cons_of_mem piece member)) inside)
    cases piece with
    | child own sub =>
      simp only [Piece.trees, Tree.nodesAmong_cons, Tree.nodesAmong_nil, List.append_nil] at inside
      simp only [Piece.trees, sitesAmong_cons, sitesAmong_nil, List.append_nil]
      rcases inside with here | there
      · refine append (parts own sub List.mem_cons_self here) ?_
        exact sited_pieces fun own sub member => sited_spelled (later own sub member)
      · exact outside (sited_spelled (spelled own sub List.mem_cons_self)) there
    | token token => exact outside (.skips [token]) (inside.resolve_left (by simp [Piece.trees]))
    | absent => exact outside (.skips []) (inside.resolve_left (by simp [Piece.trees]))
    | word kind token => exact outside (.skips [token]) (inside.resolve_left (by simp [Piece.trees]))
    | echo kind token => exact outside (.skips []) (inside.resolve_left (by simp [Piece.trees]))

end Cut

/-- A declaration in a spelled tree starts in front of a site or behind what is changed of it. -/
theorem cut_spelled {taken : List Token} {tree node : SyntaxTree} {label : Label}
    (h : Spelled taken tree) (inside : node ∈ tree.nodes) (labelled : node.label? = some label)
    (declares : label ∈ declarationLabels) : Cut node taken (sites table tree) := by
  induction hn : sizeOf tree using Nat.strongRecOn generalizing taken tree with
  | ind size ih =>
  cases found : site? table tree with
  | some site =>
    obtain ⟨applied, opening, name, comma, closing, rest, callee, values, listed, whole, rfl,
      begins, second, rfl, plain, values_plain, parts⟩ := site_parts h found
    rw [sites_call plain values_plain found]
    have inside : node ∈ Tree.nodesAmong (Piece.children rest) := by
      simp only [Tree.nodes_node, Tree.nodesAmong_cons, Tree.nodesAmong_nil,
        Tree.nodesAmong_append, plain, values_plain, List.nil_append, List.append_nil,
        List.mem_cons] at inside
      rcases inside with rfl | rfl | inside
      · cases labelled; simp [declarationLabels] at declares
      · cases labelled; simp [declarationLabels] at declares
      · exact inside
    rw [← List.append_nil (sitesAmong table _)]
    refine .call begins second (.append (.pieces parts (fun own sub member deeper => ?_) inside)
      (.skips [closing]))
    refine ih (sizeOf sub) ?_ (parts own sub member) deeper rfl
    exact hn ▸ sizeOf_argument (List.mem_append_right values (mem_children member))
  | none =>
    cases h with
    | leaf token => cases inside
    | node label pieces nonempty fits parts =>
      rw [sites_node, found]
      rcases List.mem_cons.1 (Tree.nodes_node .. ▸ inside) with rfl | inside
      · exact .intro [] [] (List.prefix_refl _) (.node label pieces nonempty fits parts)
          (fun _ => .skips [] _) (sited_pieces fun own sub member => sited_spelled (parts own sub member))
      · refine .pieces parts (fun own sub member deeper => ?_) inside
        exact ih (sizeOf sub) (hn ▸ Tree.sizeOf_child (mem_children member))
          (parts own sub member) deeper rfl

end Uncurry.Curry
