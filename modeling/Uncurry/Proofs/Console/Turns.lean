import Uncurry.Console.Session
import Uncurry.Proofs.Curry.Encoding

/-!
# What an input does to a session

An input is taken in one turn. `crash_eq_some` lists what ends a session there, and `turn_tame` says
that no text does that in which there are neither backslashes nor surrogates.
-/
namespace Uncurry

/-- A character that ends no session: it opens no escape and has a UTF-8 form. -/
def CodePoint.isTame (c : CodePoint) : Bool := c != CodePoint.ofChar '\\' && !c.isSurrogate

/-- All characters of a text are tame. -/
def Text.IsTame (t : Text) : Prop := ∀ c ∈ t, c.isTame = true

namespace Text.IsTame

variable {t t' : Text}

theorem plain (h : t.IsTame) : t.Plain := fun member => by
  have tame := h _ member
  revert tame
  decide

theorem encodable (h : t.IsTame) : t.isEncodable = true := by
  refine isEncodable_iff.2 fun c member => ?_
  have tame := h c member
  simp only [CodePoint.isTame, Bool.and_eq_true, Bool.not_eq_true'] at tame
  exact tame.2

theorem of_subset (h : t.IsTame) (inside : t' ⊆ t) : t'.IsTame :=
  fun c member => h c (inside member)

theorem append (h : t.IsTame) (h' : t'.IsTame) : (t ++ t').IsTame :=
  List.forall_mem_append.2 ⟨h, h'⟩

theorem joinLines {lines : List Text} (h : ∀ line ∈ lines, line.IsTame) :
    (Text.joinLines lines).IsTame := by
  intro c member
  rcases mem_joinLines member with rfl | ⟨line, inside, member⟩
  · decide
  · exact h line inside c member

end Text.IsTame

namespace Console

variable {session : Session} {input : Input} {text : Text} {cause : Crash} {keys : List Key}
  {completions : Nat}

/-- What is submitted at the prompt, by pasting or by typing. -/
def Input.Submits : Input → Text → Prop
  | .submitted own, text => own = text
  | .interrupted, _ => False
  | .typed keys, text => (typeKeys [] 0 keys).2 = .submitted text

/-- What is known of the keys of an input. -/
def Input.records : Input → List KeyRecord
  | .typed keys => (typeKeys [] 0 keys).1
  | _ => []

/-- The turn in which a session takes an input. -/
def turn (session : Session) : Input → Turn
  | .submitted text => submit session text
  | .interrupted => ⟨session, [.out (Text.line "KeyboardInterrupt")], none⟩
  | .typed keys =>
    match (typeKeys [] 0 keys).2 with
    | .submitted text => submit session text
    | .abandoned => ⟨session, [], none⟩
    | .failed => ⟨session, [], some .escapeOverflow⟩

theorem turn_submits (h : input.Submits text) : turn session input = submit session text := by
  cases input with
  | submitted own => rw [turn, show own = text from h]
  | interrupted => cases h
  | typed keys =>
    have typed : (typeKeys [] 0 keys).2 = .submitted text := h
    rw [turn, typed]

/-- A session goes on behind a turn unless it crashed there. -/
theorem runInputs_cons (session : Session) (input : Input) (later : List Input) :
    runInputs session (input :: later) =
      match (turn session input).crash with
      | some cause => ⟨(turn session input).effects, input.records, some cause⟩
      | none => (runInputs (turn session input).session later).after (turn session input).effects
          input.records := by
  cases input with
  | submitted text => rfl
  | interrupted => rfl
  | typed keys =>
    rw [runInputs, turn, Input.records]
    cases typeKeys [] 0 keys with
    | mk records finish => cases finish <;> rfl

/-- Some of the keys that are typed at the end of a text make a text of it in which an escape is
beyond all bounds, and the next key is enter. In a command that does no harm. -/
inductive Overflows : Text → List Key → Prop
  | now {text : Text} {keys : List Key} : isCommand (Text.trimStart text) = false →
      tokenize .skip text = .error .escapeOverflow → Overflows text (.enter :: keys)
  | enter {text longer : Text} {keys : List Key} : enter? text = some (.extend longer) →
      Overflows longer keys → Overflows text (.enter :: keys)
  | text {text more : Text} {keys : List Key} : Overflows (text ++ more) keys →
      Overflows text (.text more :: keys)
  | backspace {text : Text} {keys : List Key} : Overflows text.dropLast keys →
      Overflows text (.backspace :: keys)

theorem enter?_eq_none : enter? text = none ↔
    isCommand (Text.trimStart text) = false ∧ tokenize .skip text = .error .escapeOverflow := by
  have unknown : needsContinuation? text = none ↔
      tokenize .skip text = .error .escapeOverflow := by
    rw [needsContinuation?]
    split <;> simp_all
  rw [enter?]
  split <;> simp_all

theorem typeKeys_failed :
    (typeKeys text completions keys).2 = .failed ↔ Overflows text keys := by
  constructor
  · intro failed
    induction keys generalizing text completions with
    | nil => cases failed
    | cons key keys ih =>
      cases key with
      | text more => exact .text (ih failed)
      | backspace => exact .backspace (ih failed)
      | enter =>
        rw [typeKeys] at failed
        split at failed
        · rename_i none
          obtain ⟨program, overflow⟩ := enter?_eq_none.1 none
          exact .now program overflow
        · cases failed
        · rename_i longer extended
          exact .enter extended (ih failed)
  · intro overflows
    induction overflows generalizing completions with
    | now program overflow => rw [typeKeys, enter?_eq_none.2 ⟨program, overflow⟩]
    | enter extended _ ih =>
      rw [typeKeys, extended]
      exact ih
    | text _ ih => exact ih
    | backspace _ ih => exact ih

/-- A text is run as a program: it is not blank, and its first character that is not is no slash. -/
def IsProgram (text : Text) : Prop :=
  Text.isBlank text = false ∧ isCommand (Text.trim text) = false

/-- Why an input ends a session. -/
inductive Session.Ends (session : Session) : Input → Crash → Prop
  /-- A line is finished, and the text so far has an escape beyond all bounds. -/
  | typing {keys : List Key} : Overflows [] keys → Ends session (.typed keys) .escapeOverflow
  /-- The program or the name of a function in it has an escape beyond all bounds. -/
  | program {input : Input} {text : Text} : input.Submits text → IsProgram (normalize text) →
      (Curry.transform (normalize text)).1 = .error (.source (.lexical .escapeOverflow)) →
      Ends session input .escapeOverflow
  | output {input : Input} {text : Text} {result : Curry.Transformed} : input.Submits text →
      IsProgram (normalize text) → (Curry.transform (normalize text)).1 = .ok result →
      result.output.isEncodable = false → Ends session input .unencodable
  | table {input : Input} {text : Text} : input.Submits text →
      (Text.splitWord (Text.trim (normalize text))).1 = Text.ofString "/table" →
      (tableText session.table).isEncodable = false → Ends session input .unencodable

theorem printing_crash {before : List Effect} : (Turn.printing session before text).crash =
    if text.isEncodable then none else some .unencodable := by
  rw [Turn.printing]
  split <;> rfl

theorem printing_session {before : List Effect} :
    (Turn.printing session before text).session = session := by
  rw [Turn.printing]
  split <;> rfl

/-- A command leaves the table as it is, and fails only where it has to show it. -/
theorem runCommand_turn (session : Session) (text : Text) :
    (runCommand session text).session.table = session.table ∧
      (runCommand session text).crash =
        if (Text.splitWord text).1 = Text.ofString "/table" then
          if (tableText session.table).isEncodable then none else some .unencodable
        else none := by
  have distinct : Text.ofString "/clear" ≠ Text.ofString "/table" ∧
      Text.ofString "/py-traceback" ≠ Text.ofString "/table" := by
    decide
  have setting (traceback : Bool) : Text.isEncodable (if traceback = true
      then Text.ofString "Python traceback: on"
      else Text.ofString "Python traceback: off") = true := by
    cases traceback <;> exact Text.isEncodable_iff.2 (Text.isSurrogate_ofString _)
  rw [runCommand]
  cases Text.splitWord text with
  | mk name argument =>
    dsimp only
    split
    · rename_i clear
      rw [if_neg (clear ▸ distinct.1)]
      exact ⟨rfl, rfl⟩
    split
    · rename_i traceback
      rw [if_neg (traceback ▸ distinct.2)]
      cases switch? argument session.traceback with
      | none => exact ⟨rfl, rfl⟩
      | some on =>
        dsimp only
        rw [printing_session, printing_crash, if_pos (setting on)]
        exact ⟨rfl, rfl⟩
    split
    · rw [printing_session, printing_crash]
      exact ⟨rfl, rfl⟩
    · exact ⟨rfl, rfl⟩

theorem runProgram_ok {result : Curry.Transformed} (ok : (Curry.transform text).1 = .ok result) :
    runProgram session text = .printing { session with table := some result.table }
      [.err (warnings (Curry.transform text).2)] result.output := by
  rw [runProgram]
  cases ran : Curry.transform text with
  | mk outcome log =>
    obtain rfl : outcome = .ok result := by rw [← ok, ran]
    rfl

theorem runProgram_error {failure : Failure} (failed : (Curry.transform text).1 = .error failure) :
    runProgram session text = match failure.report? with
      | some report => ⟨session, [.err (warnings (Curry.transform text).2),
          .err (failureText session failure report)], none⟩
      | none => ⟨session, [.err (warnings (Curry.transform text).2)], some .escapeOverflow⟩ := by
  rw [runProgram]
  cases ran : Curry.transform text with
  | mk outcome log =>
    obtain rfl : outcome = .error failure := by rw [← failed, ran]
    rfl

theorem trim_blank (blank : Text.isBlank text = true) : Text.trim text = [] := by
  rw [Text.trim, Text.trimStart, List.dropWhile_eq_nil_iff.2 (List.all_eq_true.1 blank)]
  rfl

theorem submit_blank (blank : Text.isBlank (normalize text) = true) :
    submit session text = ⟨session, [], none⟩ := if_pos blank

theorem submit_command (command : isCommand (Text.trim (normalize text)) = true) :
    submit session text = runCommand session (Text.trim (normalize text)) := by
  have visible : Text.isBlank (normalize text) = false := Bool.eq_false_iff.2 fun blank => by
    rw [trim_blank blank] at command
    cases command
  rw [submit, visible, command]
  rfl

theorem submit_program (program : IsProgram (normalize text)) :
    submit session text = runProgram session (normalize text) := by
  rw [submit, program.1, program.2]
  rfl

/-- A text is blank, a command or a program. -/
theorem blank_or_command_or_program (text : Text) :
    Text.isBlank text = true ∨ isCommand (Text.trim text) = true ∨ IsProgram text := by
  rw [IsProgram]
  cases Text.isBlank text <;> cases isCommand (Text.trim text) <;> simp

theorem isCommand_of_word {name : String} (slash : isCommand (Text.ofString name) = true)
    (word : (Text.splitWord text).1 = Text.ofString name) : isCommand text = true := by
  cases text with
  | nil =>
    rw [← word] at slash
    cases slash
  | cons c text =>
    rw [← word, Text.splitWord, List.takeWhile_cons] at slash
    split at slash
    · exact slash
    · cases slash

theorem submit_crash {session : Session} (submits : input.Submits text)
    (crash : (submit session text).crash = some cause) : session.Ends input cause := by
  obtain blank | command | program := blank_or_command_or_program (normalize text)
  · rw [submit_blank blank] at crash
    cases crash
  · rw [submit_command command, (runCommand_turn session _).2] at crash
    split at crash
    · rename_i table
      split at crash
      · cases crash
      · rename_i hidden
        cases crash
        exact .table submits table (Bool.eq_false_iff.2 hidden)
    · cases crash
  · rw [submit_program program] at crash
    cases transformed : (Curry.transform (normalize text)).1 with
    | ok result =>
      rw [runProgram_ok transformed, printing_crash] at crash
      split at crash
      · cases crash
      · rename_i hidden
        cases crash
        exact .output submits program transformed (Bool.eq_false_iff.2 hidden)
    | error failure =>
      rw [runProgram_error transformed] at crash
      split at crash
      · cases crash
      · rename_i unreported
        cases crash
        rw [Curry.report?_eq_none] at unreported
        exact .program submits program (unreported ▸ transformed)

/-- An input ends a session for one of the reasons there are. -/
theorem crash_eq_some (session : Session) (input : Input) (cause : Crash) :
    (turn session input).crash = some cause ↔ session.Ends input cause := by
  constructor
  · intro crash
    cases input with
    | submitted text => exact submit_crash rfl crash
    | interrupted => cases crash
    | typed keys =>
      cases finish : (typeKeys [] 0 keys).2 with
      | submitted text =>
        rw [turn, finish] at crash
        exact submit_crash finish crash
      | abandoned =>
        rw [turn, finish] at crash
        cases crash
      | failed =>
        rw [turn, finish] at crash
        cases crash
        exact .typing (typeKeys_failed.1 finish)
  · rintro (failed | ⟨submits, program, failed⟩ | ⟨submits, program, ok, hidden⟩ |
      ⟨submits, word, hidden⟩)
    · rw [turn, typeKeys_failed.2 failed]
    · rw [turn_submits submits, submit_program program, runProgram_error failed]
      rfl
    · rw [turn_submits submits, submit_program program, runProgram_ok ok, printing_crash, hidden]
      rfl
    · rw [turn_submits submits, submit_command (isCommand_of_word (by decide) word),
        (runCommand_turn session _).2, if_pos word, hidden]
      rfl

/-- The texts of an input are tame. -/
def Input.IsTame : Input → Prop
  | .submitted text => text.IsTame
  | .interrupted => True
  | .typed keys => ∀ text, .text text ∈ keys → text.IsTame

/-- The text that the enter key leaves or submits. -/
def EnterResult.content : EnterResult → Text
  | .submit text => text
  | .extend text => text

/-- The enter key works on a tame text, and makes another one of it. -/
theorem enter?_tame (tame : text.IsTame) :
    ∃ result, enter? text = some result ∧ result.content.IsTame := by
  have extended : (withNewLine text).IsTame := by
    refine tame.append (List.forall_mem_cons.2 ⟨by decide, fun c member => ?_⟩)
    rw [List.eq_of_mem_replicate member]
    decide
  rw [enter?]
  split
  · exact ⟨_, rfl, tame⟩
  · have more : ∃ more, needsContinuation? text = some more := by
      rw [needsContinuation?]
      split
      · exact ⟨_, rfl⟩
      · exact ⟨_, rfl⟩
      · rename_i failed
        exact absurd failed (tokenize_ne_overflow tame.plain)
    obtain ⟨more, answer⟩ := more
    rw [answer, Option.map_some]
    refine ⟨_, rfl, ?_⟩
    dsimp only
    split
    · exact extended
    split
    · exact tame
    split
    · exact .joinLines fun line member => tame.of_subset
        (Text.subset_of_mem_lines (List.dropLast_subset _ member))
    · exact extended

/-- Tame keys end no session, and submit a tame text. -/
theorem typeKeys_tame (tame : text.IsTame) (typed : ∀ more, .text more ∈ keys → more.IsTame) :
    (typeKeys text completions keys).2 ≠ .failed ∧
      ∀ submitted, (typeKeys text completions keys).2 = .submitted submitted →
        submitted.IsTame := by
  induction keys generalizing text completions with
  | nil => exact ⟨nofun, nofun⟩
  | cons key keys ih =>
    have later : ∀ more, .text more ∈ keys → more.IsTame := fun more member =>
      typed more (List.mem_cons_of_mem _ member)
    cases key with
    | text more => exact ih (tame.append (typed more List.mem_cons_self)) later
    | backspace => exact ih (tame.of_subset (List.dropLast_subset _)) later
    | enter =>
      obtain ⟨result, entered, made⟩ := enter?_tame tame
      rw [typeKeys, entered]
      cases result with
      | submit submitted =>
        refine ⟨nofun, fun other same => ?_⟩
        cases same
        exact made
      | extend longer => exact ih made later

theorem Input.IsTame.submits (tame : input.IsTame) (submits : input.Submits text) :
    (normalize text).IsTame := by
  have empty : Text.IsTame [] := List.forall_mem_nil _
  have own : text.IsTame := by
    cases input with
    | submitted own =>
      obtain rfl : own = text := submits
      exact tame
    | interrupted => cases submits
    | typed keys => exact (typeKeys_tame empty tame).2 text submits
  exact own.of_subset (List.filter_sublist.subset)

/-- A session could show its table. -/
def Session.Showable (session : Session) : Prop := (tableText session.table).isEncodable = true

/-- A tame input ends no session, and leaves a table that can be shown. -/
theorem turn_tame (tame : input.IsTame) (showable : session.Showable) :
    (turn session input).crash = none ∧ (turn session input).session.Showable := by
  have submitted {text : Text} (tame : (normalize text).IsTame) :
      (submit session text).crash = none ∧ (submit session text).session.Showable := by
    obtain ⟨shown, reported⟩ := Curry.transform_shown tame.plain tame.encodable
    obtain blank | command | program := blank_or_command_or_program (normalize text)
    · rw [submit_blank blank]
      exact ⟨rfl, showable⟩
    · obtain ⟨table, crash⟩ := runCommand_turn session (Text.trim (normalize text))
      rw [submit_command command, Session.Showable, table, crash, showable]
      exact ⟨ite_self _, rfl⟩
    · rw [submit_program program]
      cases transformed : (Curry.transform (normalize text)).1 with
      | ok result =>
        obtain ⟨output, table⟩ := shown result transformed
        rw [runProgram_ok transformed, printing_crash, printing_session, output]
        exact ⟨rfl, table⟩
      | error failure =>
        obtain ⟨report, found⟩ := Option.ne_none_iff_exists'.1 (reported failure transformed)
        rw [runProgram_error transformed, found]
        exact ⟨rfl, showable⟩
  cases input with
  | submitted text => exact submitted (tame.submits rfl)
  | interrupted => exact ⟨rfl, showable⟩
  | typed keys =>
    have empty : Text.IsTame [] := List.forall_mem_nil _
    cases finish : (typeKeys [] 0 keys).2 with
    | submitted text =>
      rw [turn, finish]
      exact submitted (Input.IsTame.submits tame finish)
    | abandoned =>
      rw [turn, finish]
      exact ⟨rfl, showable⟩
    | failed => exact absurd finish (typeKeys_tame empty tame).1

end Console

end Uncurry
