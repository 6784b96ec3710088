import Uncurry.Proofs.Console.Turns

/-!
# Sessions from their first input to their end

A session takes one input after the other. `run_ends` says that it comes to the end of its inputs
unless one of them ends it, and which inputs never do. `run_prints` says what it shows of a program
that is transformed.
-/
namespace Uncurry.Console

variable {session session' : Session} {inputs earlier later : List Input} {input : Input}
  {effects : List Effect} {keys : List KeyRecord} {text : Text} {traceback : Bool}

/-- A session takes some inputs, none of which ends it, with these effects and records, and is
another one then. -/
inductive Takes : Session → List Input → List Effect → List KeyRecord → Session → Prop
  | nil (session : Session) : Takes session [] [] [] session
  | cons {session session' : Session} {input : Input} {later : List Input} {effects : List Effect}
      {keys : List KeyRecord} : (turn session input).crash = none →
      Takes (turn session input).session later effects keys session' →
      Takes session (input :: later) ((turn session input).effects ++ effects)
        (input.records ++ keys) session'

theorem Transcript.after_after (effects more : List Effect) (keys others : List KeyRecord)
    (later : Transcript) :
    (later.after more others).after effects keys =
      later.after (effects ++ more) (keys ++ others) := by
  simp [after]

/-- Behind the inputs that a session takes it goes on as the session that it is then. -/
theorem Takes.runInputs (h : Takes session earlier effects keys session') (later : List Input) :
    runInputs session (earlier ++ later) = (runInputs session' later).after effects keys := by
  induction h with
  | nil => rfl
  | cons unharmed _ ih =>
    rw [List.cons_append, runInputs_cons, unharmed]
    dsimp only
    rw [ih, Transcript.after_after]

/-- A session takes all of some inputs, or one of them ends it behind those that it takes. -/
theorem takes_or_ends (session : Session) (inputs : List Input) :
    (∃ effects keys session', Takes session inputs effects keys session') ∨
      ∃ earlier input later effects keys session' cause, inputs = earlier ++ input :: later ∧
        Takes session earlier effects keys session' ∧ session'.Ends input cause := by
  induction inputs generalizing session with
  | nil => exact .inl ⟨[], [], session, .nil session⟩
  | cons input inputs ih =>
    cases crash : (turn session input).crash with
    | some cause =>
      exact .inr ⟨[], input, inputs, [], [], session, cause, rfl, .nil session,
        (crash_eq_some session input cause).1 crash⟩
    | none =>
      rcases ih (turn session input).session with ⟨effects, keys, session', takes⟩ |
        ⟨earlier, other, later, effects, keys, session', cause, rfl, takes, ends⟩
      · exact .inl ⟨_, _, session', .cons crash takes⟩
      · exact .inr ⟨input :: earlier, other, later, _, _, session', cause, rfl, .cons crash takes,
          ends⟩

/-- A session takes tame inputs, from a table that can be shown to another one. -/
theorem Session.Showable.takes (showable : session.Showable)
    (tame : ∀ input ∈ inputs, input.IsTame) :
    ∃ effects keys session', Takes session inputs effects keys session' ∧ session'.Showable := by
  induction inputs generalizing session with
  | nil => exact ⟨[], [], session, .nil session, showable⟩
  | cons input inputs ih =>
    obtain ⟨own, others⟩ := List.forall_mem_cons.1 tame
    obtain ⟨unharmed, kept⟩ := turn_tame own showable
    obtain ⟨effects, keys, session', takes, shown⟩ := ih kept others
    exact ⟨_, _, session', .cons unharmed takes, shown⟩

/-- What a session that takes all its inputs does. -/
theorem Takes.run (h : Takes ⟨traceback, none⟩ inputs effects keys session) :
    Console.run traceback inputs =
      ⟨.out banner :: (effects ++ [.out (Text.line [])]), keys, none⟩ := by
  have all := h.runInputs []
  rw [List.append_nil] at all
  rw [Console.run, all]
  simp [Transcript.after, Console.runInputs]

/-- A session goes on behind what it takes, whatever that was. -/
theorem Takes.run_append (h : Takes ⟨traceback, none⟩ earlier effects keys session)
    (later : List Input) : Console.run traceback (earlier ++ later) =
      (Console.runInputs session later).after (.out banner :: effects) keys := by
  rw [Console.run, h.runInputs, Transcript.after_after]
  rfl

/-- A session comes to the end of its inputs, or to one that ends it for one of the reasons there
are: an escape beyond all bounds, and an output or a table without a UTF-8 form. Inputs without
backslashes and surrogates do not end it. A program that is not transformed is only reported, and
nothing changes. -/
theorem run_ends (traceback : Bool) (inputs : List Input) :
    ((∃ effects keys session, Takes ⟨traceback, none⟩ inputs effects keys session ∧
        run traceback inputs =
          ⟨.out banner :: (effects ++ [.out (Text.line [])]), keys, none⟩) ∨
      ∃ earlier input later effects keys session cause, inputs = earlier ++ input :: later ∧
        Takes ⟨traceback, none⟩ earlier effects keys session ∧ session.Ends input cause ∧
        run traceback inputs = ⟨.out banner :: (effects ++ (turn session input).effects),
          keys ++ input.records, some cause⟩) ∧
    ((∀ input ∈ inputs, input.IsTame) → (run traceback inputs).exit = .status 0) ∧
    ∀ session text failure report, IsProgram (normalize text) →
      (Curry.transform (normalize text)).1 = .error failure → failure.report? = some report →
      submit session text = ⟨session, [.err (warnings (Curry.transform (normalize text)).2),
        .err (failureText session failure report)], none⟩ := by
  refine ⟨?_, fun tame => ?_, fun session text failure report program failed reported => ?_⟩
  · rcases takes_or_ends ⟨traceback, none⟩ inputs with ⟨effects, keys, session, takes⟩ |
      ⟨earlier, input, later, effects, keys, session, cause, rfl, takes, ends⟩
    · exact .inl ⟨effects, keys, session, takes, takes.run⟩
    · refine .inr ⟨earlier, input, later, effects, keys, session, cause, rfl, takes, ends, ?_⟩
      rw [takes.run_append, runInputs_cons, (crash_eq_some session input cause).2 ends]
      rfl
  · have showable : Session.Showable ⟨traceback, none⟩ :=
      Text.isEncodable_iff.2 (Text.isSurrogate_ofString _)
    obtain ⟨effects, keys, session, takes, _⟩ := showable.takes tame
    rw [takes.run]
    rfl
  · rw [submit_program program, runProgram_error failed, reported]

/-- A session in which a program is submitted and another one is typed and given up. -/
def ordinary : List Input :=
  [.submitted (Text.ofString "A1(f, x);"), .interrupted,
    .typed [.text (Text.ofString "f("), .enter]]

/-- A program without an end. -/
def unfinished : Text := Text.ofString "f("

theorem run_ends_ordinary : (run false ordinary).exit = .status 0 ∧
    ∃ failure report, submit ⟨false, none⟩ unfinished = ⟨⟨false, none⟩,
      [.err (warnings (Curry.transform (normalize unfinished)).2),
        .err (failureText ⟨false, none⟩ failure report)], none⟩ := by
  obtain ⟨_, ends, failing⟩ := run_ends false ordinary
  have plain : Text.IsTame (Text.ofString "A1(f, x);") ∧ Text.IsTame (Text.ofString "f(") := by
    unfold Text.IsTame
    decide
  have tame : ∀ input ∈ ordinary, input.IsTame := by
    simp only [ordinary, List.forall_mem_cons, Input.IsTame]
    refine ⟨plain.1, trivial, fun text member => ?_, List.forall_mem_nil _⟩
    simp only [List.mem_cons, Key.text.injEq, reduceCtorEq, List.not_mem_nil, or_false] at member
    exact member ▸ plain.2
  have program : IsProgram (normalize unfinished) := ⟨by decide +kernel, by decide +kernel⟩
  have bare : (normalize unfinished).Plain := by
    decide +kernel
  have none : (Curry.transform (normalize unfinished)).1.toOption.isNone = true := by
    decide +kernel
  cases failed : (Curry.transform (normalize unfinished)).1 with
  | ok result =>
    rw [failed] at none
    cases none
  | error failure =>
    obtain ⟨report, reported⟩ :=
      Option.ne_none_iff_exists'.1 (Curry.report?_ne_none bare failed)
    exact ⟨ends tame, failure, report, failing _ _ failure report program failed reported⟩

/-- A text with an escape that no 32-bit integer holds. -/
def overflowing : Text := Text.ofString "\\u\x7bFFFFFFFF\x7d"

/-- The text ends a session, whether it is submitted or typed. -/
theorem run_overflowing :
    (run false [.submitted overflowing, .submitted (Text.ofString "x();")]).exit =
        .crash .escapeOverflow ∧
      (run false [.typed [.text overflowing, .enter]]).exit = .crash .escapeOverflow := by
  decide +kernel

/-- A word that is no command is reported as one. -/
theorem runCommand_unknown
    (other : (Text.splitWord text).1 ∉ commands.map fun command => Text.ofString command.name) :
    runCommand session text = ⟨session,
      [.err (Text.line (Text.ofString "Unknown command: " ++ (Text.splitWord text).1))], none⟩ := by
  simp only [commands, List.map_cons, List.map_nil, List.mem_cons, List.not_mem_nil, or_false,
    not_or] at other
  rw [runCommand]
  cases split : Text.splitWord text with
  | mk name argument =>
    rw [split] at other
    dsimp only
    rw [if_neg other.1, if_neg other.2.1, if_neg other.2.2]

/-- What a session shows of a program that is transformed and does not start with a command: the
output, if it has a UTF-8 form, but nothing of a blank program, and of one that starts with a slash
only that its first word is no command. -/
theorem run_prints {result : Curry.Transformed}
    (taken : Takes ⟨traceback, none⟩ earlier effects keys session) (submits : input.Submits text)
    (transformed : (Curry.transform (normalize text)).1 = .ok result)
    (other : (Text.splitWord (Text.trim (normalize text))).1 ∉
      commands.map fun command => Text.ofString command.name) (later : List Input) :
    (Text.isBlank (normalize text) = true → run traceback (earlier ++ input :: later) =
      (runInputs session later).after (.out banner :: effects) (keys ++ input.records)) ∧
    (isCommand (Text.trim (normalize text)) = true → run traceback (earlier ++ input :: later) =
      (runInputs session later).after (.out banner :: (effects ++
        [.err (Text.line (Text.ofString "Unknown command: " ++
          (Text.splitWord (Text.trim (normalize text))).1))])) (keys ++ input.records)) ∧
    (IsProgram (normalize text) → result.output.isEncodable = true →
      run traceback (earlier ++ input :: later) =
        (runInputs { session with table := some result.table } later).after
          (.out banner :: (effects ++ [.err (warnings (Curry.transform (normalize text)).2),
            .out (Text.line result.output)])) (keys ++ input.records)) ∧
    (IsProgram (normalize text) → result.output.isEncodable = false →
      run traceback (earlier ++ input :: later) =
        ⟨.out banner :: (effects ++ [.err (warnings (Curry.transform (normalize text)).2)]),
          keys ++ input.records, some .unencodable⟩) := by
  rw [taken.run_append, runInputs_cons, turn_submits submits]
  refine ⟨fun blank => ?_, fun command => ?_, fun program encodable => ?_,
    fun program hidden => ?_⟩
  · rw [submit_blank blank]
    simp [Transcript.after_after]
  · rw [submit_command command, runCommand_unknown other]
    exact Transcript.after_after ..
  · rw [submit_program program, runProgram_ok transformed, Turn.printing, encodable]
    exact Transcript.after_after ..
  · rw [submit_program program, runProgram_ok transformed, Turn.printing, hidden]
    rfl

/-- A program that is its own output. -/
def plainCall : Text := Text.ofString "f(x);"

theorem run_prints_typed : ∃ result, (Curry.transform (normalize plainCall)).1 = .ok result ∧
    run false [.interrupted, .typed [.text plainCall, .enter], .interrupted] =
      (runInputs ⟨false, some result.table⟩ [.interrupted]).after
        [.out banner, .out (Text.line "KeyboardInterrupt"),
          .err (warnings (Curry.transform (normalize plainCall)).2), .out (Text.line plainCall)]
        [⟨plainCall, true, 0⟩] := by
  have read : (Curry.transform (normalize plainCall)).1.toOption.any
      (fun result => result.output = plainCall) = true := by
    decide +kernel
  obtain ⟨result, found, output⟩ := (Option.any_eq_true _ _).1 read
  have transformed := eq_ok_of_toOption found
  have output := of_decide_eq_true output
  have taken : Takes ⟨false, none⟩ [.interrupted] [.out (Text.line "KeyboardInterrupt")] []
      ⟨false, none⟩ := .cons rfl (.nil _)
  have typed : typeKeys [] 0 [.text plainCall, .enter] =
      ([⟨plainCall, true, 0⟩], .submitted plainCall) := by
    decide +kernel
  have submits : Input.Submits (.typed [.text plainCall, .enter]) plainCall :=
    congrArg Prod.snd typed
  have printed := (run_prints taken submits transformed (by decide +kernel) [.interrupted]).2.2.1
    ⟨by decide +kernel, by decide +kernel⟩ (by rw [output]; decide +kernel)
  refine ⟨result, transformed, printed.trans ?_⟩
  rw [output, Input.records, typed]
  rfl

/-- A program that starts with a comment. -/
def commented : Text := Text.ofString "// note\nx();"

/-- The program is transformed, and taken for a command all the same. -/
theorem run_commented :
    (Curry.transform (normalize commented)).1.toOption.map (·.output) = some commented ∧
      (Text.splitWord (Text.trim (normalize commented))).1 ∉
        commands.map (fun command => Text.ofString command.name) ∧
      run false [.submitted commented] = ⟨[.out banner,
        .err (Text.line (Text.ofString "Unknown command: //")), .out (Text.line [])], [], none⟩ := by
  decide +kernel

end Uncurry.Console
