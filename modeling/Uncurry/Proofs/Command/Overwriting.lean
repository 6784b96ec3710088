import Uncurry.Proofs.Command.Literals
import Uncurry.Proofs.Curry.Encoding

/-!
# Writing a program back into its file

A command changes a file only if it is asked to, and then the named one alone. `filesAfter_transform`
says what is in the files when it has ended: the transformed program, or what was there before. The
one exception is a program whose output has no UTF-8 form. Its file is emptied, which
`transform_emptying` shows.
-/
namespace Uncurry.Command

variable {files after : FileSet} {path found source : Text} {old bytes : ByteArray}
  {invocation : Invocation} {options : Options} {exit : Exit} {task : Task}

/-- The files are as before, except that one of them holds these bytes. -/
structure FileSet.Changed (files after : FileSet) (found : Text) (bytes : ByteArray) : Prop where
  written : after.contents? found = some bytes
  others : ∀ other, other ≠ found → after.contents? other = files.contents? other
  paths : after.map (·.1) = files.map (·.1)

theorem FileSet.contents?_put (files : FileSet) (found path : Text) (bytes : ByteArray) :
    (files.put found bytes).contents? path =
      (files.contents? path).map fun old => if path = found then bytes else old := by
  rw [contents?, put, List.find?_map, contents?, Option.map_map, Option.map_map]
  have same : ((fun file : Text × ByteArray => decide (file.1 = path)) ∘
      fun file => if file.1 = found then (found, bytes) else file) =
        fun file => decide (file.1 = path) := by
    funext file
    by_cases here : file.1 = found <;> simp [here]
  rw [same]
  refine Option.map_congr fun file member => ?_
  have named : file.1 = path := by simpa using List.find?_some member
  subst named
  by_cases here : file.1 = found <;> simp [here]

theorem FileSet.changed_put (held : files.contents? found = some old) (bytes : ByteArray) :
    files.Changed (files.put found bytes) found bytes := by
  refine ⟨?_, fun other apart => ?_, ?_⟩
  · rw [contents?_put, held, Option.map_some, if_pos rfl]
  · rw [contents?_put]
    simp [apart]
  · rw [put, List.map_map]
    refine List.map_congr_left fun file _ => ?_
    by_cases here : file.1 = found <;> simp [here]

/-- A walk ends at files that are there. -/
theorem foldlM_atFile {parts : List Text} {stand : Stand}
    (start : ∀ found, stand = .atFile found → (files.contents? found).isSome = true)
    (ok : parts.foldlM files.step stand = .ok (.atFile found)) :
    (files.contents? found).isSome = true := by
  induction parts generalizing stand with
  | nil =>
    cases ok
    exact start found rfl
  | cons name parts ih =>
    rw [List.foldlM_cons] at ok
    cases first : files.step stand name with
    | error fault =>
      rw [first] at ok
      cases ok
    | ok next =>
      rw [first] at ok
      refine ih (fun reached same => ?_) ok
      subst same
      cases stand with
      | atFile => cases first
      | outside =>
        simp only [FileSet.step] at first
        split_ifs at first
        cases first
      | inside down =>
        simp only [FileSet.step] at first
        split_ifs at first with _ _ _ _ there
        all_goals cases first
        assumption

/-- What is read at the simplified form of a path is the file that the path leads to. -/
theorem find_simplify (ok : files.walk path = .ok (.atFile found)) :
    ∃ old, files.contents? found = some old ∧ files.find (simplify path) = .ok (.file old) := by
  have held : (files.contents? found).isSome = true := by
    rw [FileSet.walk] at ok
    split at ok
    · cases ok
    · exact foldlM_atFile (fun reached same => absurd same (startOf_ne_atFile path reached)) ok
  obtain ⟨old, contents⟩ := Option.isSome_iff_exists.1 held
  refine ⟨old, contents, ?_⟩
  rw [FileSet.find, walk_simplify ok]
  show Except.ok _ = _
  rw [contents]
  rfl

theorem writeFault?_eq_none (sound : files.writeFault? path = none) :
    ∃ found, files.walk path = .ok (.atFile found) := by
  rw [FileSet.writeFault?] at sound
  split at sound
  · cases sound
  split at sound
  · cases sound
  split at sound
  · rename_i found ok
    exact ⟨found, ok⟩
  · cases sound
  · cases sound

theorem filesAfter_written {outcome : Outcome} (written : outcome.written = some (path, bytes))
    (ok : files.walk path = .ok (.atFile found)) :
    outcome.filesAfter files = files.put found bytes := by
  rw [Outcome.filesAfter, written]
  show files.write path bytes = _
  rw [FileSet.write, ok]

theorem filesAfter_unwritten {outcome : Outcome} (unwritten : outcome.written = none) :
    outcome.filesAfter files = files := by
  rw [Outcome.filesAfter, unwritten]

/-- The arguments name a file, and its text is this program. -/
structure NamesProgram (files : FileSet) (arguments : List Text) (path found source : Text) :
    Prop where
  operand : arguments.filter (!isOption ·) = [path]
  leads : files.walk path = .ok (.atFile found)
  held : ∃ old, files.contents? found = some old ∧ decode old = .ok source

theorem prepare_eq (access : FileAccess) (invocation : Invocation) (options : Options) :
    Task.prepare access invocation options =
      match LogSetting.ofLevel? invocation.logLevel with
      | none => .error (.crash .unknownLevel)
      | some setting =>
        (if options.write then (targetPath access options).map some else .ok none) >>= fun target =>
          (sourceText access invocation.input options).map (⟨setting, target, ·⟩) := by
  rw [Task.prepare]
  cases LogSetting.ofLevel? invocation.logLevel with
  | none => rfl
  | some setting =>
    cases options.write with
    | false => cases sourceText access invocation.input options <;> rfl
    | true =>
      cases targetPath access options with
      | error exit => rfl
      | ok target => cases sourceText access invocation.input options <;> rfl

theorem targetPath_eq_ok {access : FileAccess} (ok : targetPath access options = .ok path) :
    options.named? = some path ∧ ∃ old, access.find (simplify path) = .ok (.file old) := by
  rw [targetPath] at ok
  split at ok
  · cases ok
  rename_i named
  split at ok
  · rename_i old there
    cases ok
    exact ⟨named, old, there⟩
  · cases ok
  · cases ok

theorem targetPath_error {access : FileAccess} (failed : targetPath access options = .error exit)
    (code : Nat) : exit ≠ .status code := by
  rintro rfl
  rw [targetPath] at failed
  split at failed
  · cases failed
  split at failed <;> cases failed

theorem decode_error (failed : decode bytes = .error exit) (code : Nat) : exit ≠ .status code := by
  rintro rfl
  rw [decode] at failed
  split at failed <;> cases failed

theorem sourceText_error {access : FileAccess} {input : ByteArray}
    (failed : sourceText access input options = .error exit) (code : Nat) :
    exit ≠ .status code := by
  cases named : options.named? with
  | some path =>
    rw [sourceText_named named] at failed
    split at failed
    · exact decode_error failed code
    · cases failed
      exact fun same => by cases same
    · cases failed
      exact fun same => by cases same
    · cases failed
  | none =>
    rw [sourceText, named] at failed
    cases read : decode input with
    | error other =>
      rw [read] at failed
      cases failed
      exact decode_error read code
    | ok text =>
      rw [read] at failed
      cases text with
      | nil =>
        cases failed
        exact fun same => by cases same
      | cons => cases failed

/-- Where nothing is known yet of the program, a command does not end well. -/
theorem prepare_error {access : FileAccess}
    (failed : Task.prepare access invocation options = .error exit) (code : Nat) :
    exit ≠ .status code := by
  rw [prepare_eq] at failed
  cases level : LogSetting.ofLevel? invocation.logLevel with
  | none =>
    rw [level] at failed
    cases failed
    exact fun same => by cases same
  | some setting =>
    rw [level] at failed
    dsimp only at failed
    have read {target : Option Text} (failed : (sourceText access invocation.input options).map
        (⟨setting, target, ·⟩) = (.error exit : Except Exit Task)) : exit ≠ .status code := by
      cases source : sourceText access invocation.input options with
      | error other =>
        rw [source] at failed
        cases failed
        exact sourceText_error source code
      | ok source' =>
        rw [source] at failed
        cases failed
    split at failed
    · cases target : targetPath access options with
      | error other =>
        rw [target] at failed
        cases failed
        exact targetPath_error target code
      | ok path =>
        rw [target] at failed
        exact read failed
    · exact read failed

/-- What a task was made of. -/
theorem prepare_eq_ok {access : FileAccess}
    (prepared : Task.prepare access invocation options = .ok task) :
    sourceText access invocation.input options = .ok task.source ∧
      (options.write = false → task.target = none) ∧
      (options.write = true → ∃ path, targetPath access options = .ok path ∧
        task.target = some path) := by
  rw [prepare_eq] at prepared
  split at prepared
  · cases prepared
  obtain ⟨target, aimed, prepared⟩ := Except.bind_eq_ok prepared
  obtain ⟨source, read, rfl⟩ := Except.map_eq_ok prepared
  refine ⟨read, fun print => ?_, fun write => ?_⟩
  · rw [print] at aimed
    cases aimed
    rfl
  · rw [write] at aimed
    obtain ⟨path, found, rfl⟩ := Except.map_eq_ok aimed
    exact ⟨path, found, rfl⟩

theorem ofFailure_unwritten (traceback : Bool) (heading : String) (errors : Text)
    (failure : Failure) : (Outcome.ofFailure traceback heading errors failure).written = none ∧
      (Outcome.ofFailure traceback heading errors failure).exit ≠ .status 0 := by
  rw [Outcome.ofFailure]
  split
  · exact ⟨rfl, nofun⟩
  · exact ⟨rfl, nofun⟩

theorem perform_print {access : FileAccess} {traceback quiet : Bool} (print : task.target = none) :
    (task.perform access traceback quiet).written = none := by
  rw [Task.perform]
  cases Curry.transform task.source with
  | mk result log =>
    cases result with
    | ok done =>
      show (deliver access task.target _ _ _).written = none
      rw [print, deliver, Outcome.printing]
      split <;> rfl
    | error failure => exact (ofFailure_unwritten ..).1

/-- How an outcome is that writes a text into a file, or empties the file for want of a UTF-8 form. -/
def Outcome.Writes (outcome : Outcome) (path text : Text) : Prop :=
  (∃ bytes, encode text = .ok bytes ∧ outcome.exit = .status 0 ∧ outcome.output = [] ∧
    outcome.written = some (path, bytes)) ∨
  (text.isEncodable = false ∧ outcome.exit = .crash .unencodable ∧
    outcome.written = some (path, .empty))

theorem writing_writes (path output errors more : Text) :
    (Outcome.writing path output errors more).Writes path output := by
  cases encodable : output.isEncodable with
  | true =>
    obtain ⟨bytes, encoded⟩ := exists_encode encodable
    rw [Outcome.writing, encoded]
    exact .inl ⟨bytes, encoded, rfl, rfl, rfl⟩
  | false =>
    have failed : encode output = .error (.crash .unencodable) := by
      rw [← Text.isSome_toString?, Option.isSome_eq_false_iff, Option.isNone_iff_eq_none] at encodable
      rw [encode, encodable]
    rw [Outcome.writing, failed]
    exact .inr ⟨encodable, rfl, rfl⟩

/-- A task that is to write writes the output of its program if there is one and the file can be
opened. -/
theorem perform_ok {access : FileAccess} {traceback quiet : Bool} {result : Curry.Transformed}
    (write : task.target = some path) (ok : (Curry.transform task.source).1 = .ok result)
    (sound : access.writeFault? path = none) :
    (task.perform access traceback quiet).Writes path result.output := by
  rw [Task.perform]
  cases transformed : Curry.transform task.source with
  | mk outcome log =>
    obtain rfl : outcome = .ok result := by rw [← ok, transformed]
    dsimp only
    rw [write, deliver, sound]
    exact writing_writes ..

/-- Else it writes nothing and does not end well. -/
theorem perform_write {access : FileAccess} {traceback quiet : Bool}
    (write : task.target = some path) :
    ((task.perform access traceback quiet).written = none ∧
      (task.perform access traceback quiet).exit ≠ .status 0) ∨
    ∃ result, (Curry.transform task.source).1 = .ok result ∧ access.writeFault? path = none ∧
      (task.perform access traceback quiet).Writes path result.output := by
  cases ok : (Curry.transform task.source).1 with
  | ok result =>
    cases sound : access.writeFault? path with
    | none => exact .inr ⟨result, rfl, rfl, perform_ok write ok sound⟩
    | some fault =>
      rw [Task.perform]
      cases transformed : Curry.transform task.source with
      | mk outcome log =>
        obtain rfl : outcome = .ok result := by rw [← ok, transformed]
        dsimp only
        rw [write, deliver, sound]
        exact .inl ⟨rfl, nofun⟩
  | error failure =>
    rw [Task.perform]
    cases transformed : Curry.transform task.source with
    | mk outcome log =>
      obtain rfl : outcome = .error failure := by rw [← ok, transformed]
      exact .inl (ofFailure_unwritten ..)

/-- What is decoded has a UTF-8 form. -/
theorem decode_encodable (decoded : decode bytes = .ok source) : source.isEncodable = true := by
  rw [decode] at decoded
  split at decoded
  · cases decoded
    exact Text.isEncodable_iff.2 (Text.isSurrogate_ofString _)
  · cases decoded

/-- How a command ends: it writes nothing, and was not asked to or did not end well, or it writes
the output of the program that the arguments name. -/
theorem transform_writes (files : FileSet) (invocation : Invocation) :
    ((transform files.access invocation).written = none ∧
      ((transform files.access invocation).exit = .status 0 →
        invocation.arguments.any isHelp = true ∨ invocation.arguments.any isWrite = false)) ∨
    ∃ path found source result, NamesProgram files invocation.arguments path found source ∧
      invocation.arguments.any isHelp = false ∧ invocation.arguments.any isWrite = true ∧
      (Curry.transform source).1 = .ok result ∧
      (transform files.access invocation).Writes path result.output := by
  rw [transform]
  cases asked : Request.ofArguments invocation.arguments with
  | help => exact .inl ⟨rfl, fun _ => .inl (List.any_eq_true.2 (exists_isHelp asked))⟩
  | surplus argument => exact .inl ⟨rfl, fun well => by cases well⟩
  | transform options =>
    obtain ⟨helpless, writes, operand⟩ := ofArguments_transform asked
    dsimp only
    cases prepared : Task.prepare files.access invocation options with
    | error exit => exact .inl ⟨rfl, fun well => absurd well (prepare_error prepared 0)⟩
    | ok task =>
      obtain ⟨read, print, aimed⟩ := prepare_eq_ok prepared
      cases write : options.write with
      | false => exact .inl ⟨perform_print (print write), fun _ => .inr (writes ▸ write)⟩
      | true =>
        obtain ⟨path, target, aim⟩ := aimed write
        rcases @perform_write _ _ files.access invocation.traceback options.quiet aim with
          ⟨unwritten, bad⟩ | ⟨result, ok, sound, written⟩
        · exact .inl ⟨unwritten, fun well => absurd well bad⟩
        obtain ⟨found, leads⟩ := writeFault?_eq_none sound
        obtain ⟨old, held, there⟩ := find_simplify leads
        obtain ⟨named, _⟩ := targetPath_eq_ok target
        have decoded : decode old = .ok task.source := by
          rw [sourceText_named named] at read
          have found : files.access.find (simplify path) = .ok (.file old) := there
          rw [found] at read
          exact read
        have only : invocation.arguments.filter (!isOption ·) = [path] := by
          rw [← operand, (Option.filter_eq_some_iff.1 named).1]
          rfl
        refine .inr ⟨path, found, task.source, result, ⟨only, leads, old, held, decoded⟩, ?_,
          writes ▸ write, ok, written⟩
        exact List.any_eq_false.2 fun argument member => by simp [helpless argument member]

/-- What a command leaves in the files. If it ends well, they are as before unless it was asked to
write, and then the named file holds the transformed program, and nothing is printed. If it does not
end well, they are as before, unless the output of the program, which has a backslash in it then, has
no UTF-8 form: then the named file is emptied. -/
theorem filesAfter_transform (files : FileSet) (invocation : Invocation) :
    let outcome := transform files.access invocation
    let after := outcome.filesAfter files
    (outcome.exit = .status 0 → invocation.arguments.any isHelp = false →
      invocation.arguments.any isWrite = true → ∃ path found source result bytes,
        NamesProgram files invocation.arguments path found source ∧
        (Curry.transform source).1 = .ok result ∧ encode result.output = .ok bytes ∧
        files.Changed after found bytes ∧ outcome.output = []) ∧
    (outcome.exit = .status 0 → invocation.arguments.any isHelp = true ∨
      invocation.arguments.any isWrite = false → after = files) ∧
    (outcome.exit ≠ .status 0 → after = files ∨ ∃ path found source result,
        NamesProgram files invocation.arguments path found source ∧
        (Curry.transform source).1 = .ok result ∧ result.output.isEncodable = false ∧
        ¬source.Plain ∧ invocation.arguments.any isWrite = true ∧
        outcome.exit = .crash .unencodable ∧ files.Changed after found .empty) := by
  intro outcome after
  rcases transform_writes files invocation with ⟨unwritten, idle⟩ |
    ⟨path, found, source, result, program, helpless, write, ok, written⟩
  · have same : after = files := filesAfter_unwritten unwritten
    refine ⟨fun well help write => ?_, fun _ _ => same, fun _ => .inl same⟩
    rcases idle well with asked | printed
    · exact absurd (help.symm.trans asked) nofun
    · exact absurd (printed.symm.trans write) nofun
  obtain ⟨old, held, decoded⟩ := program.held
  have changed {bytes : ByteArray} (written : outcome.written = some (path, bytes)) :
      files.Changed after found bytes := by
    have put : after = files.put found bytes := filesAfter_written written program.leads
    rw [put]
    exact FileSet.changed_put held bytes
  rcases written with ⟨bytes, encoded, well, silent, written⟩ | ⟨hidden, bad, written⟩
  · refine ⟨fun _ _ _ => ⟨path, found, source, result, bytes, program, ok, encoded,
      changed written, silent⟩, fun _ asked => ?_, fun bad => absurd well bad⟩
    rcases asked with help | print
    · exact absurd (helpless.symm.trans help) nofun
    · exact absurd (print.symm.trans write) nofun
  · have escaped : ¬source.Plain := fun plain => by
      have shown := (Curry.transform_shown plain (decode_encodable decoded)).1 result ok
      exact absurd (hidden.symm.trans shown.1) nofun
    have crashed : outcome.exit ≠ .status 0 := bad ▸ nofun
    exact ⟨fun well => absurd well crashed, fun well => absurd well crashed, fun _ => .inr
      ⟨path, found, source, result, program, ok, hidden, escaped, write, bad, changed written⟩⟩

/-- A directory with a program in it, and nothing else. -/
def single (program : String) : FileSet := [(Text.ofString "p.js", program.toUTF8)]

/-- The program is to be written back. -/
def back : Invocation := ⟨[Text.ofString "-w", Text.ofString "p.js"], .empty, [], false⟩

theorem transform_back (program : String) : transform (single program).access back =
    Task.perform (single program).access false false
      ⟨.warningsOnly, some (Text.ofString "p.js"), Text.ofString program⟩ := by
  have read : sourceText (single program).access back.input
      ⟨true, false, some (Text.ofString "p.js")⟩ = .ok (Text.ofString program) := by
    rw [← decode_toUTF8, @sourceText_named _ _ (Text.ofString "p.js") _ rfl]
    rfl
  have prepared : Task.prepare (single program).access back
      ⟨true, false, some (Text.ofString "p.js")⟩ =
        .ok ⟨.warningsOnly, some (Text.ofString "p.js"), Text.ofString program⟩ := by
    rw [prepare_eq, read]
    rfl
  rw [transform, show Request.ofArguments back.arguments =
    .transform ⟨true, false, some (Text.ofString "p.js")⟩ from rfl]
  dsimp only
  rw [prepared]
  rfl

/-- What is written back is the output of the program, or nothing if it has no UTF-8 form. -/
theorem back_writes {program : String} {result : Curry.Transformed}
    (ok : (Curry.transform (Text.ofString program)).1 = .ok result) :
    (transform (single program).access back).Writes (Text.ofString "p.js") result.output :=
  transform_back program ▸ perform_ok rfl ok rfl

/-- A program with carriage returns, and what it is transformed to. -/
def returning : String := "for (var f = F1(g);;)\r\n  A1(f, x);\r\n"

def returned : String := "for (var f = F1(g);;)\r\n  f.f(x);\r\n"

theorem filesAfter_transform_returning :
    (transform (single returning).access back).exit = .status 0 ∧
    ((transform (single returning).access back).filesAfter (single returning)).contents?
      (Text.ofString "p.js") = some returned.toUTF8 := by
  obtain ⟨known, transformed, output⟩ : ∃ result,
      (Curry.transform (Text.ofString returning)).1 = .ok result ∧
        result.output = Text.ofString returned :=
    Curry.exists_transformed (by decide +kernel)
  have well : (transform (single returning).access back).exit = .status 0 := by
    rcases back_writes transformed with ⟨_, _, well, _⟩ | ⟨hidden, _⟩
    · exact well
    · rw [output, Text.isEncodable_iff.2 (Text.isSurrogate_ofString _)] at hidden
      cases hidden
  obtain ⟨path, found, source, result, bytes, program, ok, encoded, changed, _⟩ :=
    (filesAfter_transform (single returning) back).1 well (by decide) (by decide)
  obtain ⟨old, held, decoded⟩ := program.held
  obtain rfl : Text.ofString "p.js" = path := (List.cons.inj program.operand).1
  obtain rfl : Text.ofString "p.js" = found := Stand.atFile.inj (Except.ok.inj program.leads)
  have kept : (single returning).contents? (Text.ofString "p.js") = some returning.toUTF8 := rfl
  rw [kept] at held
  cases held
  rw [decode_toUTF8] at decoded
  cases decoded
  obtain rfl : known = result := Except.ok.inj (transformed.symm.trans ok)
  rw [output, encode_eq_ok.2 ⟨returned, rfl, rfl⟩] at encoded
  cases encoded
  exact ⟨well, changed.written⟩

/-- A program with a name that reads as a comment with a surrogate in it. -/
def emptying : String :=
  "for(var a\\u002f\\u002a\\ud800\\u002a\\u002f=F1(g);;)A1(a\\u002f\\u002a\\ud800\\u002a\\u002f,x)"

/-- The comment is written out in the output. -/
def emptyingOutput : Text :=
  Text.ofString "for(var a\\u002f\\u002a\\ud800\\u002a\\u002f=F1(g);;)a/*" ++
    ⟨0xD800, by decide⟩ :: Text.ofString "*/.f(x)"

/-- The command does not end well, and the program is lost. -/
theorem transform_emptying :
    (transform (single emptying).access back).exit = .crash .unencodable ∧
    (single emptying).contents? (Text.ofString "p.js") = some emptying.toUTF8 ∧
    emptying.toUTF8 ≠ .empty ∧
    ((transform (single emptying).access back).filesAfter (single emptying)).contents?
      (Text.ofString "p.js") = some .empty := by
  obtain ⟨result, transformed, output⟩ : ∃ result,
      (Curry.transform (Text.ofString emptying)).1 = .ok result ∧
        result.output = emptyingOutput :=
    Curry.exists_transformed (by decide +kernel)
  rcases back_writes transformed with ⟨bytes, encoded, _⟩ | ⟨_, crash, written⟩
  · have hidden : encode emptyingOutput = .error (.crash .unencodable) := rfl
    rw [output, hidden] at encoded
    cases encoded
  · rw [@filesAfter_written _ _ (Text.ofString "p.js") _ _ written rfl]
    refine ⟨crash, rfl, fun nothing => ?_, (FileSet.changed_put rfl .empty).written⟩
    have empty : Text.ofString emptying = Text.ofString "" := by
      apply Except.ok.inj
      rw [← decode_toUTF8, ← decode_toUTF8, nothing]
      rfl
    revert empty
    decide +kernel

end Uncurry.Command
