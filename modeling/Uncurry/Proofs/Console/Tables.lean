import Uncurry.Proofs.Console.Sessions

/-!
# The table that a session shows

A session remembers the table of one program. `run_shows_table` says that this is the latest one
before the command that shows it, and that nothing else which happens at the prompt changes it.
-/
namespace Uncurry.Console

variable {session session' : Session} {inputs earlier later : List Input} {input : Input}
  {effects : List Effect} {keys : List KeyRecord} {text : Text} {traceback : Bool}
  {result : Curry.Transformed}

/-- An input submits a program, and this is what it is transformed to. -/
def Input.Transforms (input : Input) (result : Curry.Transformed) : Prop :=
  ∃ text, input.Submits text ∧ IsProgram (normalize text) ∧
    (Curry.transform (normalize text)).1 = .ok result

/-- What the latest program among some inputs that is transformed becomes, if there is one. -/
inductive Latest : List Input → Option Curry.Transformed → Prop
  | none {inputs : List Input} : (∀ input ∈ inputs, ∀ result, ¬input.Transforms result) →
      Latest inputs none
  | some {earlier later : List Input} {input : Input} {result : Curry.Transformed} :
      input.Transforms result → (∀ other ∈ later, ∀ result, ¬other.Transforms result) →
      Latest (earlier ++ input :: later) (some result)

theorem runCommand_table (word : (Text.splitWord text).1 = Text.ofString "/table") :
    runCommand session text = .printing session [] (tableText session.table) := by
  rw [runCommand]
  cases split : Text.splitWord text with
  | mk name argument =>
    rw [split] at word
    subst word
    rfl

theorem turn_transforms (h : input.Transforms result) :
    (turn session input).session.table = some result.table := by
  obtain ⟨text, submits, program, ok⟩ := h
  rw [turn_submits submits, submit_program program, runProgram_ok ok, printing_session]

theorem submit_table (other : ∀ result, ¬(IsProgram (normalize text) ∧
    (Curry.transform (normalize text)).1 = .ok result)) :
    (submit session text).session.table = session.table := by
  obtain blank | command | program := blank_or_command_or_program (normalize text)
  · rw [submit_blank blank]
  · rw [submit_command command, (runCommand_turn session _).1]
  · cases transformed : (Curry.transform (normalize text)).1 with
    | ok result => exact absurd ⟨program, transformed⟩ (other result)
    | error failure =>
      rw [submit_program program, runProgram_error transformed]
      cases failure.report? <;> rfl

/-- An input leaves the table as it is unless a program is submitted and transformed. -/
theorem turn_table (other : ∀ result, ¬input.Transforms result) :
    (turn session input).session.table = session.table := by
  have submitted {text : Text} (submits : input.Submits text) :
      (turn session input).session.table = session.table := by
    rw [turn_submits submits]
    exact submit_table fun result ⟨program, ok⟩ => other result ⟨text, submits, program, ok⟩
  cases input with
  | submitted text => exact submitted rfl
  | interrupted => rfl
  | typed keys =>
    cases finish : (typeKeys [] 0 keys).2 with
    | submitted text => exact submitted finish
    | abandoned => rw [turn, finish]
    | failed => rw [turn, finish]

/-- What is the latest program stays it behind an earlier input. -/
theorem Latest.cons {latest : Option Curry.Transformed} (h : Latest inputs latest)
    (input : Input) : ∃ latest', Latest (input :: inputs) latest' ∧
      ∀ session, (latest'.map (·.table)).or session.table =
        (latest.map (·.table)).or (turn session input).session.table := by
  cases h with
  | some transforms others =>
    exact ⟨_, @Latest.some (input :: _) _ _ _ transforms others, fun _ => rfl⟩
  | none others =>
    by_cases transformed : ∃ result, input.Transforms result
    · obtain ⟨result, transforms⟩ := transformed
      exact ⟨_, @Latest.some [] _ _ _ transforms others,
        fun session => (@turn_transforms session _ _ transforms).symm⟩
    · have other := not_exists.1 transformed
      exact ⟨_, .none (List.forall_mem_cons.2 ⟨other, others⟩),
        fun session => (@turn_table session _ other).symm⟩

/-- Behind the inputs that it takes a session has the table of the latest program. -/
theorem Takes.latest (h : Takes session inputs effects keys session') :
    ∃ latest, Latest inputs latest ∧
      session'.table = (latest.map (·.table)).or session.table := by
  induction h with
  | nil session => exact ⟨none, .none (List.forall_mem_nil _), rfl⟩
  | cons _ _ ih =>
    obtain ⟨latest, found, table⟩ := ih
    obtain ⟨latest', found', same⟩ := found.cons _
    exact ⟨latest', found', table.trans (same _).symm⟩

/-- A session that comes to its end took all the inputs before each of them. -/
theorem exists_takes (ends : (run traceback (earlier ++ later)).exit = .status 0) :
    ∃ effects keys session, Takes ⟨traceback, none⟩ earlier effects keys session := by
  rcases takes_or_ends ⟨traceback, none⟩ earlier with takes |
    ⟨front, input, back, effects, keys, session, cause, rfl, takes, fails⟩
  · exact takes
  · rw [List.append_assoc, takes.run_append, List.cons_append, runInputs_cons,
      (crash_eq_some session input cause).2 fails] at ends
    cases ends

/-- In a session that comes to its end each command for the table prints that of the latest program
before it that was transformed, or that there was none. What else happens at the prompt leaves the
table as it is. -/
theorem run_shows_table (ends : (run traceback (earlier ++ input :: later)).exit = .status 0)
    (submits : input.Submits text)
    (word : (Text.splitWord (Text.trim (normalize text))).1 = Text.ofString "/table") :
    (∃ latest effects keys session, Latest earlier latest ∧
      Takes ⟨traceback, none⟩ earlier effects keys session ∧
      session.table = latest.map (·.table) ∧
      run traceback (earlier ++ input :: later) = (runInputs session later).after
        (.out banner :: (effects ++ [.out (Text.line (tableText (latest.map (·.table))))]))
        (keys ++ input.records)) ∧
    ∀ session other, (∀ result, ¬Input.Transforms other result) →
      (turn session other).session.table = session.table := by
  refine ⟨?_, fun session other => turn_table⟩
  obtain ⟨effects, keys, session, takes⟩ := exists_takes ends
  obtain ⟨latest, found, table⟩ := takes.latest
  rw [Option.or_none] at table
  refine ⟨latest, effects, keys, session, found, takes, table, ?_⟩
  have shown : turn session input = .printing session [] (tableText session.table) := by
    rw [turn_submits submits, submit_command (isCommand_of_word (by decide) word),
      runCommand_table word]
  rw [takes.run_append, runInputs_cons, shown, printing_crash] at ends ⊢
  by_cases encodable : (tableText session.table).isEncodable = true
  · rw [if_pos encodable, Turn.printing, if_pos encodable, ← table]
    exact Transcript.after_after ..
  · rw [if_neg encodable] at ends
    cases ends

/-- A session in which a program is transformed, others are not, and the table is asked for. -/
def asking : List Input :=
  [.submitted (Text.ofString "var f = F1(g);"), .submitted (Text.ofString "var = 1;"),
    .interrupted, .typed [.text (Text.ofString "f("), .enter],
    .submitted (Text.ofString "/py-traceback on"), .submitted (Text.ofString " ")]

theorem run_shows_table_asking :
    (run false (asking ++ .submitted (Text.ofString "/table") :: [])).exit = .status 0 ∧
      ∃ latest effects keys session, Latest asking latest ∧
        Text.line (tableText (latest.map (·.table))) = Text.line (Text.ofString "f  1") ∧
        run false (asking ++ .submitted (Text.ofString "/table") :: []) =
          (runInputs session []).after (.out banner ::
            (effects ++ [.out (Text.line (tableText (latest.map (·.table))))])) keys := by
  have ends : (run false (asking ++ .submitted (Text.ofString "/table") :: [])).exit = .status 0 ∧
      (run false (asking ++ .submitted (Text.ofString "/table") :: [])).effects.dropLast.getLast? =
        some (.out (Text.line (Text.ofString "f  1"))) := by
    decide +kernel
  obtain ⟨⟨latest, effects, keys, session, found, _, _, shown⟩, _⟩ :=
    run_shows_table ends.1 rfl (by decide +kernel)
  refine ⟨ends.1, latest, effects, _, session, found, ?_, shown⟩
  have printed := ends.2
  have last : (run false (asking ++ .submitted (Text.ofString "/table") :: [])).effects =
      (.out banner :: effects ++ [.out (Text.line (tableText (latest.map (·.table))))]) ++
        [.out (Text.line [])] := congrArg Transcript.effects shown
  rw [last, List.dropLast_concat, List.getLast?_concat] at printed
  exact Effect.out.inj (Option.some.inj printed)

end Uncurry.Console
