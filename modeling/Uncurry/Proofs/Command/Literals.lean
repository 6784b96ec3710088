import Uncurry.Proofs.Command.Paths
import Uncurry.Proofs.Command.Requests

/-!
# Programs as operands

An operand that is no path to anything is the program itself. `quietly_literal` says that it is then
treated as if it stood in a file or came from the standard input, but that a text which is too long
for a path is refused.
-/
namespace Uncurry

theorem CodePoint.ofChar_of_toChar? {c : CodePoint} {char : Char} (h : c.toChar? = some char) :
    ofChar char = c := by
  by_cases valid : c.val.isValidChar
  · rw [toChar?, dif_pos valid] at h
    cases h
    rfl
  · rw [toChar?, dif_neg valid] at h
    cases h

/-- A text is what its string was made of. -/
theorem Text.ofString_of_toString? {t : Text} {s : String} (h : t.toString? = some s) :
    ofString s = t := by
  obtain ⟨chars, read, rfl⟩ := Option.map_eq_some_iff.1 h
  rw [ofString, String.toList_ofList]
  clear h
  induction t generalizing chars with
  | nil =>
    cases read
    rfl
  | cons c t ih =>
    rw [List.mapM_cons] at read
    obtain ⟨char, first, read⟩ := Option.bind_eq_some_iff.1 read
    obtain ⟨others, later, read⟩ := Option.bind_eq_some_iff.1 read
    cases read
    rw [List.map_cons, CodePoint.ofChar_of_toChar? first, ih others later]

namespace Command

variable {access : FileAccess} {files : FileSet} {invocation : Invocation} {options : Options}
  {text logLevel : Text} {bytes unread : ByteArray} {traceback : Bool} {fault : PathFault}

theorem encode_eq_ok : encode text = .ok bytes ↔ ∃ string : String,
    text = Text.ofString string ∧ bytes = string.toUTF8 := by
  rw [encode]
  constructor
  · intro encoded
    split at encoded
    · rename_i string read
      cases encoded
      exact ⟨string, (Text.ofString_of_toString? read).symm, rfl⟩
    · cases encoded
  · rintro ⟨string, rfl, rfl⟩
    rw [Text.toString?_ofString]

theorem exists_encode (encodable : text.isEncodable = true) : ∃ bytes, encode text = .ok bytes := by
  rw [← Text.isSome_toString?] at encodable
  obtain ⟨string, read⟩ := Option.isSome_iff_exists.1 encodable
  exact ⟨string.toUTF8, encode_eq_ok.2 ⟨string, (Text.ofString_of_toString? read).symm, rfl⟩⟩

theorem decode_toUTF8 (string : String) : decode string.toUTF8 = .ok (Text.ofString string) := by
  have read : String.fromUTF8? string.toUTF8 = some string := dif_pos string.isValidUTF8
  rw [decode, read]

/-- What was encoded is decoded to the same text. -/
theorem decode_encode (encoded : encode text = .ok bytes) : decode bytes = .ok text := by
  obtain ⟨string, rfl, rfl⟩ := encode_eq_ok.1 encoded
  exact decode_toUTF8 string

/-- What becomes of a program that is to be printed, if there is one. -/
def printed (traceback quiet : Bool) (logLevel : Text) (source : Except Exit Text) : Outcome :=
  match LogSetting.ofLevel? logLevel with
  | none => .early (.crash .unknownLevel)
  | some setting => match source with
    | .error exit => .early exit
    | .ok source => Task.perform (FileSet.access []) traceback quiet ⟨setting, none, source⟩

/-- A command that writes no file looks at files for its program alone. -/
theorem transform_printed
    (asked : Request.ofArguments invocation.arguments = .transform options)
    (unwritten : options.write = false) :
    transform access invocation = printed invocation.traceback options.quiet invocation.logLevel
      (sourceText access invocation.input options) := by
  have prepared : Task.prepare access invocation options =
      match LogSetting.ofLevel? invocation.logLevel with
      | none => .error (.crash .unknownLevel)
      | some setting => (sourceText access invocation.input options).map (⟨setting, none, ·⟩) := by
    rw [Task.prepare, unwritten]
    cases LogSetting.ofLevel? invocation.logLevel with
    | none => rfl
    | some setting => cases sourceText access invocation.input options <;> rfl
  rw [transform, asked, printed]
  dsimp only
  rw [prepared]
  cases LogSetting.ofLevel? invocation.logLevel with
  | none => rfl
  | some setting => cases sourceText access invocation.input options <;> rfl

theorem sourceText_input (encoded : encode text = .ok bytes) (present : text ≠ [])
    (reads : options.named? = none) : sourceText access bytes options = .ok text := by
  have filled : text.isEmpty = false := by
    cases text with
    | nil => exact absurd rfl present
    | cons => rfl
  rw [sourceText, reads, decode_encode encoded]
  show (if text.isEmpty = true then _ else _) = _
  rw [filled]
  rfl

theorem sourceText_named {path : Text} {input : ByteArray} (named : options.named? = some path) :
    sourceText access input options = match access.find (simplify path) with
      | .ok (.file contents) => decode contents
      | .ok .directory => .error (.crash .isDirectory)
      | .error .tooLong => .error (.crash .nameTooLong)
      | .error _ => .ok path := by
  cases found : access.find (simplify path) with
  | ok node => cases node <;> simp only [sourceText, named, found]
  | error fault => cases fault <;> simp only [sourceText, named, found]

/-- A command that is run quietly on these operands. -/
def quietly (files : FileSet) (operands : List Text) (input : ByteArray) (logLevel : Text)
    (traceback : Bool) : Outcome :=
  transform files.access ⟨Text.ofString "-q" :: operands, input, logLevel, traceback⟩

theorem quietly_input (encoded : encode text = .ok bytes) (present : text ≠ []) :
    quietly files [] bytes logLevel traceback = printed traceback true logLevel (.ok text) := by
  rw [quietly, @transform_printed _ _ ⟨false, true, none⟩ rfl rfl,
    sourceText_input encoded present rfl]

theorem quietly_operand (operand : IsOperand text) (input : ByteArray) :
    quietly files [text] input logLevel traceback = printed traceback true logLevel
      (match files.find (simplify text) with
        | .ok (.file contents) => decode contents
        | .ok .directory => .error (.crash .isDirectory)
        | .error .tooLong => .error (.crash .nameTooLong)
        | .error _ => .ok text) := by
  have named : Options.named? ⟨false, true, some text⟩ = some text := by
    simp [Options.named?, Option.filter, operand.2]
  rw [quietly, transform_printed operand.asked rfl, sourceText_named named]
  rfl

/-- A text that is no path to anything is treated as if it came from the standard input or stood in
a file, unless it is refused as a path for its length. It is if it has one name of more than 255
bytes, and only if one of its names is that long or all of it has at least 4096 bytes. -/
theorem quietly_literal (operand : IsOperand text) (present : text ≠ [])
    (encoded : encode text = .ok bytes) (absent : files.find (simplify text) = .error fault) :
    (fault ≠ .tooLong → ∀ others other,
      quietly files [text] unread logLevel traceback = quietly others [] bytes logLevel traceback ∧
      quietly files [text] unread logLevel traceback =
        quietly others [Text.ofString "-"] bytes logLevel traceback ∧
      ∀ path, IsOperand path → others.find (simplify path) = .ok (.file bytes) →
        quietly files [text] unread logLevel traceback =
          quietly others [path] other logLevel traceback) ∧
    (fault = .tooLong → quietly files [text] unread logLevel traceback = .early (.crash
      (if (LogSetting.ofLevel? logLevel).isSome then .nameTooLong else .unknownLevel))) ∧
    (fault = .tooLong → (∃ name ∈ names text, 255 < byteLength name) ∨ 4096 ≤ byteLength text) ∧
    ((∀ c ∈ text, c.val ≠ 0) → slash ∉ text → 255 < byteLength text → fault = .tooLong) := by
  have literal := @quietly_operand files text logLevel traceback operand unread
  rw [absent] at literal
  refine ⟨fun short others other => ?_, fun long => ?_, fun long => ?_, fun null free long => ?_⟩
  · have taken : quietly files [text] unread logLevel traceback =
        printed traceback true logLevel (.ok text) := by
      rw [literal]
      cases fault <;> first | rfl | exact absurd rfl short
    rw [taken]
    refine ⟨?_, ?_, fun path named held => ?_⟩
    · rw [quietly_input encoded present]
    · rw [quietly, @transform_printed _ _ ⟨false, true, some (Text.ofString "-")⟩ rfl rfl,
        sourceText_input encoded present rfl]
    · rw [quietly_operand named, held]
      exact congrArg _ (decode_encode encoded).symm
  · rw [literal, long, printed]
    cases LogSetting.ofLevel? logLevel <;> rfl
  · exact find_tooLong (long ▸ absent) present
  · exact Except.error.inj (absent.symm.trans (find_long files free null long))

/-- A program on one line. -/
def oneLine : Text := Text.ofString "var f = F1(g); A1(f, x);"

theorem quietly_literal_oneLine : ∃ bytes, encode oneLine = .ok bytes ∧
    FileSet.find [] (simplify oneLine) = .error .missing ∧
    quietly [] [oneLine] .empty [] false = quietly [] [] bytes [] false ∧
    quietly [] [oneLine] .empty [] false =
      quietly [(Text.ofString "p.js", bytes)] [Text.ofString "p.js"] .empty [] false := by
  have encoded : encode oneLine = .ok "var f = F1(g); A1(f, x);".toUTF8 :=
    encode_eq_ok.2 ⟨_, rfl, rfl⟩
  have absent : FileSet.find [] (simplify oneLine) = .error .missing := by
    rw [find_eq_error]
    rfl
  have operand : IsOperand oneLine ∧ IsOperand (Text.ofString "p.js") :=
    ⟨⟨by decide, by decide⟩, by decide, by decide⟩
  obtain ⟨same, _⟩ :=
    @quietly_literal _ _ [] _ .empty false _ operand.1 (by decide) encoded absent
  refine ⟨_, encoded, absent, (same (by decide) [] .empty).1, ?_⟩
  exact (same (by decide) _ .empty).2.2 _ operand.2 rfl

/-- A program on one line that is longer than any name. -/
def longLine : Text := (List.replicate 52 (Text.ofString "f(1);")).flatten

/-- The program is refused as a path, but is printed as it is as soon as it is read from the standard
input. -/
theorem quietly_longLine : IsOperand longLine ∧ ∃ bytes, encode longLine = .ok bytes ∧
    FileSet.find [] (simplify longLine) = .error .tooLong ∧
    (quietly [] [longLine] .empty [] false).exit = .crash .nameTooLong ∧
    (quietly [] [] bytes [] false).exit = .status 0 ∧
    (quietly [] [] bytes [] false).output = longLine := by
  obtain ⟨bytes, encoded⟩ := @exists_encode longLine (by decide +kernel)
  have taken : (printed false true [] (.ok longLine)).exit = .status 0 ∧
      (printed false true [] (.ok longLine)).output = longLine := by
    decide +kernel
  rw [← @quietly_input [] _ _ _ _ encoded (by decide)] at taken
  refine ⟨⟨by decide +kernel, by decide +kernel⟩, bytes, encoded, ?_, by decide +kernel, taken⟩
  exact find_long [] (by decide +kernel) (by decide +kernel) (by decide +kernel)

end Command

end Uncurry
