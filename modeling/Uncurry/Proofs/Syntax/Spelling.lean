import Uncurry.Curry.Stub

/-!
# How tokens spell trees

A leaf is spelled by its token. A node is spelled by pieces in the order of the text: tokens of its
own, and the stretches that spell its children. The parts of a call and of an argument list are
told exactly, since edits address them by their place.
-/
namespace Uncurry

/-- The span of a stretch of tokens. -/
def Token.spanOf (taken : List Token) : Span :=
  ⟨(taken.headD default).start, (taken.getLastD default).stop⟩

/-- Whether a token can be the first of a declaration. -/
def Token.opensDeclaration (token : Token) : Bool :=
  [.kwVar, .kwConst, .kwFunction, .kwClass, .kwImport, .kwExport].contains token.kind ||
    token.isWord "let" || token.isWord "async"

/-- What a node is made of. A word is the leaf of a token under another kind than its own; an echo
is a leaf that shares the token of the leaf behind it. -/
inductive Piece
  | token (token : Token)
  | absent
  | word (kind : LeafKind) (token : Token)
  | echo (kind : LeafKind) (token : Token)
  | child (taken : List Token) (tree : SyntaxTree)

namespace Piece

/-- The tokens of a piece. -/
def tokens : Piece → List Token
  | token t => [t]
  | absent => []
  | word _ t => [t]
  | echo _ _ => []
  | child taken _ => taken

/-- What a piece gives to the children of its node. -/
def trees : Piece → List SyntaxTree
  | token _ => []
  | absent => [.missing]
  | word kind t => [.leaf kind t.text t.span]
  | echo kind t => [.leaf kind t.text t.span]
  | child _ tree => [tree]

def spelling (pieces : List Piece) : List Token := pieces.flatMap tokens

def children (pieces : List Piece) : List SyntaxTree := pieces.flatMap trees

@[simp] theorem spelling_nil : spelling [] = [] := rfl

@[simp] theorem spelling_cons (piece : Piece) (pieces : List Piece) :
    spelling (piece :: pieces) = piece.tokens ++ spelling pieces := rfl

@[simp] theorem spelling_append (pieces more : List Piece) :
    spelling (pieces ++ more) = spelling pieces ++ spelling more := List.flatMap_append

@[simp] theorem children_nil : children [] = [] := rfl

@[simp] theorem children_cons (piece : Piece) (pieces : List Piece) :
    children (piece :: pieces) = piece.trees ++ children pieces := rfl

@[simp] theorem children_append (pieces more : List Piece) :
    children (pieces ++ more) = children pieces ++ children more := List.flatMap_append

theorem spelling_map_token (taken : List Token) : spelling (taken.map token) = taken := by
  induction taken with
  | nil => rfl
  | cons first later ih => simp [tokens, ih]

theorem children_map_token (taken : List Token) : children (taken.map token) = [] := by
  induction taken with
  | nil => rfl
  | cons first later ih => simp [trees, ih]

def isEcho : Piece → Bool
  | echo _ _ => true
  | _ => false

/-- Values with single commas between them, and perhaps one behind the last. -/
inductive Listed : List Piece → Prop
  | none : Listed []
  | last (taken : List Token) (tree : SyntaxTree) : Listed [child taken tree]
  | more (taken : List Token) (tree : SyntaxTree) {comma : Token} {rest : List Piece} :
      comma.kind = .comma → Listed rest → Listed (child taken tree :: token comma :: rest)

theorem Listed.plain {pieces : List Piece} (h : Listed pieces) :
    ∀ piece ∈ pieces, piece.isEcho = false := by
  induction h with
  | none => simp
  | last => simp [isEcho]
  | more _ _ _ _ ih => simpa [isEcho] using ih

end Piece

/-- Nodes in which one token may be two leaves: the name of a property or of a specifier that
stands for its own value. -/
def Label.mayEcho : Label → Bool
  | .patternProperty | .importSpecifier | .exportSpecifier => true
  | _ => false

/-- What may stand behind an echo in a node: the same leaf once more, or a pattern that starts with
it and has a default. -/
inductive Piece.Repeats (label : Label) (kind : LeafKind) (token : Token) : Piece → Prop
  | word : Repeats label kind token (.word kind token)
  | pattern (own : List Token) (initial : SyntaxTree) (span : Span) : label = .patternProperty →
      Repeats label kind token
        (.child own (.node .assignPattern [.leaf kind token.text token.span, initial] span))

/-- What the label of a node says about its pieces. -/
structure Fits (label : Label) (pieces : List Piece) : Prop where
  call : label = .call → ∃ called callee listed values span,
    pieces = [.child called callee, .child listed (.node .args values span)]
  args : label = .args → ∃ opening listed closing, opening.kind = .leftParen ∧
    pieces = .token opening :: listed ++ [.token closing] ∧ Piece.Listed listed
  declarator : label = .varDeclarator → (Piece.children pieces).length = 2
  declaration : label ∈ Curry.declarationLabels →
    ((Piece.spelling pieces).headD default).opensDeclaration = true
  echo : ∀ kind token, .echo kind token ∈ pieces → label.mayEcho = true ∧
    ∃ next, pieces = [.echo kind token, next] ∧ next.tokens.head? = some token ∧
      Piece.Repeats label kind token next
  listing : label.isStatementList = true → label ≠ .program ∧
    ∃ token later, pieces = .token token :: later

/-- Tokens spell a tree. -/
inductive Spelled : List Token → SyntaxTree → Prop
  | leaf (token : Token) : Spelled [token] (Parser.leaf token)
  | node (label : Label) (pieces : List Piece) : Piece.spelling pieces ≠ [] → Fits label pieces →
      (∀ own tree, .child own tree ∈ pieces → Spelled own tree) →
      Spelled (Piece.spelling pieces)
        (.node label (Piece.children pieces) (Token.spanOf (Piece.spelling pieces)))

namespace Spelled

theorem ne_nil {taken : List Token} {tree : SyntaxTree} (h : Spelled taken tree) : taken ≠ [] := by
  cases h with
  | leaf token => simp
  | node label pieces nonempty => exact nonempty

theorem info? {taken : List Token} {tree : SyntaxTree} (h : Spelled taken tree) :
    tree.info? = some (Token.spanOf taken) := by
  cases h with
  | leaf token => rfl
  | node label pieces => rfl

/-- The token of a leaf. -/
theorem of_leaf {taken : List Token} {kind : LeafKind} {text : Text} {span : Span}
    (h : Spelled taken (.leaf kind text span)) :
    ∃ token : Token, taken = [token] ∧ kind = .token token.kind ∧ text = token.text ∧
      span = token.span := by
  generalize ht : Tree.leaf kind text span = tree at h
  cases h with
  | leaf token =>
    simp only [Parser.leaf, Tree.leaf.injEq] at ht
    exact ⟨token, rfl, ht.1, ht.2.1, ht.2.2⟩
  | node label pieces => cases ht

/-- The pieces of a node. -/
theorem of_node {taken : List Token} {label : Label} {children : List SyntaxTree} {span : Span}
    (h : Spelled taken (.node label children span)) :
    ∃ pieces, taken = Piece.spelling pieces ∧ children = Piece.children pieces ∧
      span = Token.spanOf taken ∧ taken ≠ [] ∧ Fits label pieces ∧
      ∀ own tree, .child own tree ∈ pieces → Spelled own tree := by
  generalize ht : Tree.node label children span = tree at h
  cases h with
  | leaf token => cases ht
  | node label' pieces nonempty fits parts =>
    simp only [Tree.node.injEq] at ht
    obtain ⟨rfl, hc, hs⟩ := ht
    exact ⟨pieces, rfl, hc, hs, nonempty, fits, parts⟩

end Spelled

end Uncurry
