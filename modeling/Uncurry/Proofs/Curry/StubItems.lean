import Mathlib.Data.List.Basic
import Uncurry.Proofs.Curry.Sites
import Uncurry.Proofs.Lexical.Balance

/-!
# The stubs as items

The stubs are read in the same way wherever they are put, with any indentation.
-/
namespace Uncurry.Curry

/-- The items of a text, of which there are no more than some bound. -/
def itemsOf : (bound : Nat) → Text → List Item
  | 0, _ => []
  | _ + 1, [] => []
  | bound + 1, c :: rest =>
    match Lexeme.scan .initial false c rest with
    | .ok (lexeme, length) =>
      ⟨lexeme, c :: rest.take length⟩ :: itemsOf bound (rest.drop length)
    | .error _ => []

def lineItems (line : Text) : List Item := itemsOf line.length line

/-- A line feed and the indentation behind it. -/
def breakItems (indentation : Text) : List Item :=
  ⟨.newline, [CodePoint.ofChar '\n']⟩ ::
    indentation.map fun c => ⟨if c.isLineTerminator then .newline else .blank, [c]⟩

/-- The stubs with an indentation behind every line. -/
def stubItems (indentation : Text) : List Item :=
  (Text.lines stubs).flatMap fun line => lineItems line ++ breakItems indentation

/-- The kinds and texts of the tokens of the stubs. -/
def stubFaces : List (TokenKind × Text) :=
  match tokenize .skip stubs with
  | .ok tokens => tokens.dropLast.map Token.face
  | .error _ => []

variable {indentation : Text}

theorem textOf_breakItems (indentation : Text) :
    Item.textOf (breakItems indentation) = CodePoint.ofChar '\n' :: indentation := by
  have blanks : Item.textOf (indentation.map fun c =>
      ⟨if c.isLineTerminator then Lexeme.newline else .blank, [c]⟩) = indentation := by
    induction indentation with
    | nil => rfl
    | cons c indentation ih => rw [List.map_cons, Item.textOf_cons, ih]; rfl
  rw [breakItems, Item.textOf_cons, blanks]
  rfl

/-- Every line of the stubs is read as its items, which are firm in front of a line feed. All of
them together have the tokens of the stubs, with balanced brackets. -/
theorem stubs_checked : ((Text.lines stubs).all (fun line =>
      Item.textOf (lineItems line) = line &&
        Item.areFirm (lineItems line) [CodePoint.ofChar '\n'] &&
        (lineItems line).all (·.lexeme != .comment)) &&
    ((Text.lines stubs).flatMap fun line => (lineItems line).filterMap (Item.face? .skip)) =
      stubFaces &&
    balanced 0 0 (stubFaces.map (·.1)) && Text.startsWord ((Text.lines stubs).headD [])) = true := by
  decide +kernel

theorem line_stubs {line : Text} (member : line ∈ Text.lines stubs) :
    Item.textOf (lineItems line) = line ∧
      Item.areFirm (lineItems line) [CodePoint.ofChar '\n'] = true ∧
      ∀ item ∈ lineItems line, item.lexeme ≠ .comment := by
  have checked := stubs_checked
  simp only [Bool.and_eq_true] at checked
  simpa [and_assoc] using List.all_eq_true.1 checked.1.1.1 line member

/-- The items of the stubs are what is put in for them. -/
theorem textOf_stubItems (indentation : Text) :
    Item.textOf (stubItems indentation) = stubBlock indentation := by
  rw [Item.textOf, stubItems, List.flatMap_assoc]
  refine List.flatMap_congr fun line member => ?_
  rw [List.flatMap_append]
  exact congrArg₂ (· ++ ·) (line_stubs member).1 (textOf_breakItems indentation)

theorem stubItems_startsWord (indentation t : Text) :
    Text.startsWord (Item.textOf (stubItems indentation) ++ t) = true := by
  have checked := stubs_checked
  simp only [Bool.and_eq_true] at checked
  have first := checked.2
  rw [stubItems]
  cases hl : Text.lines stubs with
  | nil => exact absurd hl (Text.lines_ne_nil stubs)
  | cons line later =>
    rw [hl, List.headD_cons] at first
    rw [List.flatMap_cons, Item.textOf_append, Item.textOf_append,
      (line_stubs (hl ▸ List.mem_cons_self)).1]
    cases line with
    | nil => cases first
    | cons c line => exact first

theorem blank_firm {c : CodePoint} (blank : c.isBlank = true) (t : Text) :
    Item.Firm ⟨if c.isLineTerminator then .newline else .blank, [c]⟩ t := by
  intro context first _
  refine ⟨c, [], rfl, ?_⟩
  by_cases line : c.isLineTerminator = true
  · rw [if_pos line]
    exact Lexeme.scan_newline line
  · rw [if_neg line]
    exact Lexeme.scan_blank (by simpa using line) (by simp [blank])

theorem breakItems_firm (blank : ∀ c ∈ indentation, c.isBlank = true) (tail : Text) :
    Item.AllFirm (breakItems indentation) tail := by
  refine ⟨fun context first _ => ⟨_, [], rfl, Lexeme.scan_newline (by decide)⟩, ?_⟩
  induction indentation with
  | nil => trivial
  | cons c indentation ih =>
    obtain ⟨here, later⟩ := List.forall_mem_cons.1 blank
    exact ⟨blank_firm here _, ih later⟩

theorem stubItems_firm (blank : ∀ c ∈ indentation, c.isBlank = true) (tail : Text) :
    Item.AllFirm (stubItems indentation) tail := by
  have lines (lines : List Text) (known : ∀ line ∈ lines, line ∈ Text.lines stubs) :
      Item.AllFirm (lines.flatMap fun line => lineItems line ++ breakItems indentation) tail := by
    induction lines with
    | nil => trivial
    | cons line later ih =>
      obtain ⟨here, after⟩ := List.forall_mem_cons.1 known
      rw [List.flatMap_cons, List.append_assoc]
      refine .append ?_ (.append (breakItems_firm blank _) (ih after))
      rw [Item.textOf_append, textOf_breakItems, List.cons_append, List.cons_append]
      exact Item.allFirm_of_areFirm (line_stubs here).2.1 _
  exact lines _ fun _ member => member

/-- The tokens of the stubs are the same with every indentation. -/
theorem stubItems_faces (comments : CommentPolicy) (indentation : Text) :
    (stubItems indentation).filterMap (Item.face? comments) = stubFaces := by
  have checked := stubs_checked
  simp only [Bool.and_eq_true, decide_eq_true_eq] at checked
  have bare : ((Text.lines stubs).flatMap fun line =>
      (lineItems line).filterMap (Item.face? comments)) = stubFaces := by
    refine .trans (List.flatMap_congr fun line member => List.filterMap_congr fun item inside => ?_)
      checked.1.1.2
    have plain := (line_stubs member).2.2 item inside
    obtain ⟨lexeme, written⟩ := item
    cases lexeme with
    | comment => exact absurd rfl plain
    | _ => rfl
  have blanks : (breakItems indentation).filterMap (Item.face? comments) = [] := by
    refine List.filterMap_eq_nil_iff.2 fun item member => ?_
    rcases List.mem_cons.1 member with rfl | member
    · rfl
    · obtain ⟨c, _, rfl⟩ := List.mem_map.1 member
      by_cases line : c.isLineTerminator = true <;> simp [Item.face?, line]
  rw [← bare, stubItems, List.filterMap_flatMap]
  refine List.flatMap_congr fun line _ => ?_
  rw [List.filterMap_append, blanks, List.append_nil]

/-- The stubs are read in every context, and leave the brackets that are open there as they
were. -/
theorem reads_stubs (blank : ∀ c ∈ indentation, c.isBlank = true) (context : LexContext)
    (first : Bool) (tail : Text) : ∃ context',
      Reads context first (stubItems indentation) tail context' ∧
      context'.parens = context.parens ∧ context'.enclosures = context.enclosures := by
  have checked := stubs_checked
  simp only [Bool.and_eq_true] at checked
  refine Reads.of_firm (.refl context) ?_ (stubItems_firm blank tail)
  rw [stubItems_faces]
  exact checked.1.2

end Uncurry.Curry
