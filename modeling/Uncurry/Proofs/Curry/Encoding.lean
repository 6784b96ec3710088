import Uncurry.Console.Table
import Uncurry.Proofs.Curry.Binders
import Uncurry.Proofs.Curry.Naming
import Uncurry.Proofs.Document.Spans
import Uncurry.Proofs.Lexical.Identifiers
import Uncurry.Report
import Uncurry.Text.Surrogate

/-!
# Sources of which everything can be shown

A source without backslashes has no escapes, so no code point comes out of it that is neither in the
source nor in ASCII. `transform_shown` says that its output and its table can be printed and that
all its failures can be reported.
-/
namespace Uncurry

namespace Text

variable {t line : Text} {c : CodePoint}

theorem isEncodable_iff : t.isEncodable = true ↔ ∀ c ∈ t, c.isSurrogate = false := by
  simp [isEncodable]

theorem isSurrogate_ofString (s : String) : ∀ c ∈ ofString s, c.isSurrogate = false :=
  isEncodable_iff.1 (by rw [← isSome_toString?, toString?_ofString]; rfl)

theorem isSurrogate_ofInt (n : Int) : ∀ c ∈ ofInt n, c.isSurrogate = false := by
  cases n with
  | ofNat n => exact isSurrogate_ofString _
  | negSucc n => exact List.forall_mem_cons.2 ⟨by decide, isSurrogate_ofString _⟩

theorem subset_of_mem_lines (member : line ∈ lines t) : line ⊆ t := by
  induction t generalizing line with
  | nil => simp_all [lines]
  | cons c t ih =>
    rw [lines] at member
    split at member
    · rcases List.mem_cons.1 member with rfl | member
      · exact List.nil_subset _
      · exact fun d inside => List.mem_cons_of_mem _ (ih member inside)
    · split at member
      · rename_i none
        exact absurd none (lines_ne_nil t)
      · rename_i first later split
        rw [split] at ih
        rcases List.mem_cons.1 member with rfl | member
        · exact List.cons_subset_cons c (ih List.mem_cons_self)
        · exact fun d inside => List.mem_cons_of_mem _ (ih (List.mem_cons_of_mem _ member) inside)

theorem mem_joinLines {lines : List Text} (member : c ∈ joinLines lines) :
    c = CodePoint.ofChar '\n' ∨ ∃ line ∈ lines, c ∈ line := by
  fun_induction joinLines lines with
  | case1 => cases member
  | case2 line => exact .inr ⟨line, List.mem_cons_self, member⟩
  | case3 line later _ ih =>
    rcases List.mem_append.1 member with here | there
    · exact .inr ⟨line, List.mem_cons_self, here⟩
    · rcases List.mem_cons.1 there with rfl | there
      · exact .inl rfl
      · refine (ih there).imp_right fun ⟨other, inside, member⟩ => ?_
        exact ⟨other, List.mem_cons_of_mem _ inside, member⟩

theorem isSurrogate_joinLines {lines : List Text}
    (encodable : ∀ line ∈ lines, ∀ c ∈ line, c.isSurrogate = false) :
    ∀ c ∈ joinLines lines, c.isSurrogate = false := by
  intro c member
  rcases mem_joinLines member with rfl | ⟨line, inside, member⟩
  · decide
  · exact encodable line inside c member

end Text

/-- What patches make of a source consists of the characters of the source and of the patches. -/
theorem Patch.mem_edited {patches : List Patch} {offset : Nat} {t : Text} {c : CodePoint}
    (member : c ∈ edited patches offset t) : c ∈ t ∨ ∃ patch ∈ patches, c ∈ patch.text := by
  have brought {offset : Nat} (member : c ∈ textAt patches offset) :
      ∃ patch ∈ patches, c ∈ patch.text := by
    obtain ⟨patch, inside, member⟩ := List.mem_flatMap.1 member
    exact ⟨patch, (List.mem_filter.1 inside).1, member⟩
  induction t generalizing offset with
  | nil => exact .inr (brought member)
  | cons d t ih =>
    rw [edited, List.mem_append, List.mem_append] at member
    obtain (here | own) | later := member
    · exact .inr (brought here)
    · split at own
      · cases own
      · exact .inl (List.mem_singleton.1 own ▸ List.mem_cons_self)
    · exact (ih later).imp_left (List.mem_cons_of_mem d)

/-- A source without backslashes is tokenized or malformed. -/
theorem tokenize_ne_overflow {comments : CommentPolicy} {source : Text}
    (plain : source.Plain) : tokenize comments source ≠ .error .escapeOverflow := by
  intro failed
  obtain ⟨front, rest, rfl, _⟩ := Token.readFrom_overflow failed
  exact plain (List.mem_append_right _ List.mem_cons_self)

namespace Parsed

variable {source : Text} {program : SyntaxTree} (parsed : Parsed source program)

/-- Without backslashes the text of a token is what it is written as. -/
theorem text_written (plain : source.Plain) :
    ∀ token ∈ parsed.code, token.text = token.writtenIn source := by
  intro token member
  have origin : Location.origin.offset = ([] : Text).length := rfl
  have faithful := Item.code_faithful origin parsed.reads.isRead token member
  rw [List.nil_append, parsed.text] at faithful
  refine faithful.resolve_right fun escaped => plain ?_
  exact List.mem_of_mem_take (List.mem_of_mem_drop escaped.2)

include parsed in
/-- Without backslashes there are no escapes. -/
theorem unescaped (plain : source.Plain) : source.Unescaped := by
  obtain ⟨final, tokens, ends, _⟩ := parsed.exists_tokens
  intro others read token member kind
  rw [tokens] at read
  cases read
  rcases List.mem_append.1 member with member | last
  · exact parsed.text_written plain token member
  · rw [List.mem_singleton.1 last, ends] at kind
    cases kind

include parsed in
/-- Every leaf of a program has the text of a token. -/
theorem exists_token {kind : LeafKind} {text : Text} {span : Span}
    (inside : .leaf kind text span ∈ program.parts) : ∃ token ∈ parsed.code, token.text = text := by
  rw [parsed.tree_eq] at inside
  have below := (List.mem_cons.1 inside).resolve_left (by simp)
  rcases parsed.spelledIn _ below with ⟨own, within, spelled⟩ | ⟨_, token, member, same⟩
  · obtain ⟨token, rfl, _, rfl, _⟩ := spelled.of_leaf
    exact ⟨token, within.subset List.mem_cons_self, rfl⟩
  · cases same
    exact ⟨token, member, rfl⟩

end Parsed

namespace Curry

variable {source name target : Text} {program : SyntaxTree} {arity : Int} {result : Transformed}

/-- A node of a program has an identifier for its first child. -/
def Named (program : SyntaxTree) (name : Text) : Prop :=
  ∃ node ∈ program.nodes, (node.child 0).identifier? = some name

/-- Without backslashes the names in a program are stretches of the source. -/
theorem Named.subset (h : Named program name) (parsed : parseProgram source = .ok program)
    (plain : source.Plain) : name ⊆ source := by
  obtain ⟨known⟩ := exists_parsed parsed
  obtain ⟨node, inside, named⟩ := h
  obtain ⟨span, leaf⟩ := eq_leaf named
  have part := (List.mem_filter.1 (Tree.nodes_eq_parts _ ▸ inside)).1
  have child : node.child 0 ∈ Tree.partsAmong node.children := by
    cases children : node.children with
    | nil => simp [Tree.child, children] at leaf
    | cons first later =>
      have first_eq : node.child 0 = first := by simp [Tree.child, children]
      rw [first_eq] at leaf ⊢
      exact Tree.mem_partsAmong List.mem_cons_self (congrArg Tree.info? leaf)
  have below := Tree.parts_subset _ part (Tree.partsAmong_children node child)
  rw [leaf] at below
  obtain ⟨token, member, rfl⟩ := known.exists_token below
  rw [known.text_written plain token member]
  exact fun c inside => List.mem_of_mem_take (List.mem_of_mem_drop inside)

/-- Nothing was edited, and all names in the table and its conflicts are names in the program. -/
def Tabled (source : Text) (program : SyntaxTree) (workspace : Workspace) : Prop :=
  workspace.document = .ofTree source program ∧
    (∀ entry ∈ workspace.table.entries, Named program entry.1) ∧
      ∀ conflict ∈ workspace.table.conflicts, Named program conflict.name

theorem mem_put {entry : Text × Int} {entries : List (Text × Int)}
    (member : entry ∈ ArityTable.put name arity entries) :
    entry = (name, arity) ∨ entry ∈ entries := by
  induction entries with
  | nil => exact .inl (List.mem_singleton.1 member)
  | cons first later ih =>
    rw [ArityTable.put] at member
    split at member
    · exact (List.mem_cons.1 member).imp_right (List.mem_cons_of_mem _)
    · rcases List.mem_cons.1 member with rfl | member
      · exact .inr List.mem_cons_self
      · exact (ih member).imp_right (List.mem_cons_of_mem _)

theorem conflict?_name {table : ArityTable} {conflict : ArityConflict}
    (found : table.conflict? name arity = some conflict) : conflict.name = name := by
  rw [ArityTable.conflict?] at found
  split at found
  · split at found
    · cases found
    · cases found
      rfl
  · cases found

theorem log_tabled (level : LogLevel) (logger : Logger) (message : Text) :
    (Pass.log level logger message).Maintains (Tabled source program) :=
  fun _ tabled => tabled

theorem record_tabled (named : Named program name) :
    (Pass.record name arity).Maintains (Tabled source program) := by
  rintro workspace ⟨unedited, entries, conflicts⟩
  obtain ⟨log, run⟩ := Pass.run_record name arity workspace
  rw [run]
  refine ⟨unedited, fun entry member => ?_, fun conflict member => ?_⟩
  · rcases mem_put member with rfl | member
    · exact named
    · exact entries entry member
  · rcases List.mem_append.1 member with member | own
    · exact conflicts conflict member
    · exact conflict?_name (Option.mem_toList.1 own) ▸ named

/-- The names in the arity table of a program are names in the program. -/
theorem arities_named (parsed : parseProgram source = .ok program) :
    (∀ entry ∈ (arities source program).entries, Named program entry.1) ∧
      ∀ conflict ∈ (arities source program).conflicts, Named program conflict.name := by
  have start : Tabled source program (.ofDocument (.ofTree source program)) :=
    ⟨rfl, by simp [Workspace.ofDocument, ArityTable.empty],
      by simp [Workspace.ofDocument, ArityTable.empty]⟩
  have collect : collectArities.Maintains (Tabled source program) := by
    refine collectArities_maintains_of parsed (fun _ => And.left) log_tabled
      fun declarator node _ name arity found => record_tabled ⟨declarator, node, ?_⟩
    obtain ⟨_, _, _, _, _, named, _⟩ := curriedBinding?_eq_some.1 found
    rw [named]
    rfl
  have propagate : propagateAliases.Maintains (Tabled source program) := by
    refine propagateAliases_maintains_of parsed (fun _ => And.left) log_tabled
      fun declarator node _ name target found => .bind (fun _ tabled => tabled) fun table => ?_
    obtain ⟨_, _, leaf, _⟩ := aliasBinding?_eq_some.1 found
    have named : (declarator.child 0).identifier? = some name := by rw [leaf]; rfl
    cases table.get? target with
    | none => exact .pure false
    | some arity => exact .bind (record_tabled ⟨declarator, node, named⟩) fun _ => .pure true
  exact (Pass.Maintains.bind collect (fun _ => propagate) _ start).2

/-- The table of a source without backslashes can be printed if the source can. -/
theorem tableText_encodable {table : ArityTable}
    (entries : ∀ entry ∈ table.entries, ∀ c ∈ entry.1, c.isSurrogate = false)
    (conflicts : ∀ conflict ∈ table.conflicts, ∀ c ∈ conflict.name, c.isSurrogate = false) :
    (Console.tableText (some table)).isEncodable = true := by
  rw [Text.isEncodable_iff, Console.tableText]
  split
  · exact Text.isSurrogate_ofString _
  refine Text.isSurrogate_joinLines (List.forall_mem_append.2 ⟨List.forall_mem_map.2
    fun entry member => ?_, List.forall_mem_map.2 fun conflict member => ?_⟩)
  · simp only [Text.padEnd, List.forall_mem_append]
    refine ⟨⟨⟨entries entry member, fun c space => ?_⟩, Text.isSurrogate_ofString _⟩,
      Text.isSurrogate_ofInt _⟩
    rw [List.eq_of_mem_replicate space]
    decide
  · simp only [List.forall_mem_append]
    exact ⟨⟨⟨⟨⟨Text.isSurrogate_ofString _, conflicts conflict member⟩,
      Text.isSurrogate_ofString _⟩, Text.isSurrogate_ofInt _⟩, Text.isSurrogate_ofString _⟩,
      Text.isSurrogate_ofInt _⟩

theorem isSurrogate_stubs : ∀ c ∈ stubs, c.isSurrogate = false := by
  refine Text.isSurrogate_joinLines ?_
  simp only [List.forall_mem_cons]
  refine ⟨?_, ?_, ?_, ?_, ?_, ?_, ?_, ?_, by simp⟩ <;> exact Text.isSurrogate_ofString _

/-- What is put in a source without backslashes can be printed if the source can. -/
theorem edits_encodable (parsed : parseProgram source = .ok program) (table : ArityTable)
    (plain : source.Plain) (encodable : ∀ c ∈ source, c.isSurrogate = false) :
    ∀ patch ∈ edits source table program, ∀ c ∈ patch.text, c.isSurrogate = false := by
  obtain ⟨known⟩ := exists_parsed parsed
  refine List.forall_mem_append.2 ⟨List.forall_mem_map.2 fun span _ => ?_, fun patch member => ?_⟩
  · refine List.forall_mem_flatMap.2 fun line member => List.forall_mem_append.2 ⟨?_, ?_⟩
    · exact fun c inside => isSurrogate_stubs c (Text.subset_of_mem_lines member inside)
    · exact List.forall_mem_cons.2 ⟨by decide, fun c inside => encodable c (mem_margin inside).1⟩
  · obtain ⟨site, inside, member⟩ := List.mem_flatMap.1 member
    simp only [Site.patches, List.mem_cons, List.not_mem_nil, or_false] at member
    rcases member with rfl | rfl
    · obtain ⟨token, among, _, text⟩ :=
        (known.sited .origin).exists_name (List.mem_map_of_mem inside)
      refine List.forall_mem_append.2 ⟨fun c member => encodable c ?_, Text.isSurrogate_ofString _⟩
      rw [← text, known.text_written plain token among] at member
      exact List.mem_of_mem_take (List.mem_of_mem_drop member)
    · simp

/-- A parser fails for want of tokens only where there are none. -/
theorem parseWith_lexical {parser : Parser SyntaxTree} {failure : LexFailure}
    (failed : parseWith parser source = .error (.lexical failure)) :
    tokenize .skip source = .error failure := by
  rw [parseWith] at failed
  cases tokens : tokenize .skip source with
  | error other =>
    rw [tokens] at failed
    cases failed
    rfl
  | ok found =>
    rw [tokens] at failed
    change (parser.run found).mapError SourceFailure.grammatical = _ at failed
    cases run : parser.run found <;> rw [run] at failed <;> cases failed

/-- Only an escape beyond all bounds is not reported. -/
theorem report?_eq_none {failure : Failure} :
    failure.report? = none ↔ failure = .source (.lexical .escapeOverflow) := by
  constructor
  · intro unreported
    cases failure with
    | edit => cases unreported
    | source failure =>
      cases failure with
      | grammatical => cases unreported
      | lexical failure =>
        cases failure with
        | malformed => cases unreported
        | escapeOverflow => rfl
  · rintro rfl
    rfl

/-- Without backslashes a source that is a program is transformed, and what fails is reported. -/
theorem report?_ne_none {failure : Failure} (plain : source.Plain)
    (failed : (transform source).1 = .error failure) : failure.report? ≠ none := by
  rw [Ne, report?_eq_none]
  rintro rfl
  cases parsed : parseProgram source with
  | ok program =>
    obtain ⟨known⟩ := exists_parsed parsed
    obtain ⟨result, ok⟩ := (transform_succeeds parsed).2 (known.unescaped plain)
    rw [ok] at failed
    cases failed
  | error refused =>
    rw [transform, Document.parse, parsed] at failed
    cases failed
    exact tokenize_ne_overflow plain (parseWith_lexical parsed)

/-- All that comes of a source that can be printed and has no backslashes can be shown: its output
and its table if it is transformed, and a report if not. -/
theorem transform_shown (plain : source.Plain) (encodable : source.isEncodable = true) :
    (∀ result, (transform source).1 = .ok result → result.output.isEncodable = true ∧
      (Console.tableText (some result.table)).isEncodable = true) ∧
    ∀ failure, (transform source).1 = .error failure → failure.report? ≠ none := by
  rw [Text.isEncodable_iff] at encodable
  refine ⟨fun result ok => ?_, fun failure => report?_ne_none plain⟩
  obtain ⟨program, parsed, rfl⟩ := exists_result ok
  have named {name : Text} (named : Named program name) : ∀ c ∈ name, c.isSurrogate = false :=
    fun c member => encodable c (named.subset parsed plain member)
  obtain ⟨entries, conflicts⟩ := arities_named parsed
  refine ⟨Text.isEncodable_iff.2 fun c member => ?_, tableText_encodable
    (fun entry member => named (entries entry member))
    fun conflict member => named (conflicts conflict member)⟩
  rcases Patch.mem_edited member with own | ⟨patch, inside, brought⟩
  · exact encodable c own
  · exact edits_encodable parsed _ plain encodable patch inside c brought

end Curry

end Uncurry
