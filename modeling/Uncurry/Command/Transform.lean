import Uncurry.Command.Invocation

/-!
# The command that transforms a program

The program comes from a file, from the standard input, or is the argument itself, if that is no
path to anything. The result goes to the standard output or back into the file.
-/
namespace Uncurry.Command

def usage : Text := Text.line "usage: jscurry [--write] [--quiet] [PATH|-|SOURCE]"

structure Options where
  write : Bool
  quiet : Bool
  operand : Option Text
  deriving DecidableEq

/-- What the arguments ask for. -/
inductive Request
  | help
  | surplus (argument : Text)
  | transform (options : Options)
  deriving DecidableEq

def isOneOf (argument : Text) (words : List String) : Bool :=
  words.any fun word => argument = Text.ofString word

/-- Reads arguments, given the options so far. Help is given as soon as it is asked for. -/
def Request.read (options : Options) : List Text → Request
  | [] => .transform options
  | argument :: later =>
    if isOneOf argument ["-h", "--help"] then .help
    else if isOneOf argument ["-w", "--write"] then read { options with write := true } later
    else if isOneOf argument ["-q", "--quiet"] then read { options with quiet := true } later
    else match options.operand with
      | none => read { options with operand := some argument } later
      | some _ => .surplus argument

/-- The operand that is a path or a program, and not the standard input. -/
def Options.named? (options : Options) : Option Text :=
  options.operand.filter (· != Text.ofString "-")

/-- Whether the program is read from the standard input. -/
def Request.readsInput : Request → Bool
  | .transform options => options.named?.isNone && !options.write
  | _ => false

/-- The path of the file to write, which has to be there. -/
def targetPath (access : FileAccess) (options : Options) : Except Exit Text :=
  let refused : Except Exit Text :=
    .error (.message (Text.ofString "--write needs a path to an existing file"))
  match options.named? with
  | none => refused
  | some path =>
    match access.find (simplify path) with
    | .ok (.file _) => .ok path
    | .error .tooLong => .error (.crash .nameTooLong)
    | _ => refused

/-- The program: what a file holds, the standard input, or the operand. -/
def sourceText (access : FileAccess) (input : ByteArray) (options : Options) : Except Exit Text :=
  match options.named? with
  | none => do
    let text ← decode input
    if text.isEmpty then throw (.message (Text.ofString "No input provided on stdin"))
    return text
  | some operand =>
    match access.find (simplify operand) with
    | .ok (.file contents) => decode contents
    | .ok .directory => .error (.crash .isDirectory)
    | .error .tooLong => .error (.crash .nameTooLong)
    | .error _ => .ok operand

/-- The work laid out before it is done: how to log, where to write, and the program. -/
structure Task where
  setting : LogSetting
  target : Option Text
  source : Text

def Task.prepare (access : FileAccess) (invocation : Invocation) (options : Options) :
    Except Exit Task := do
  let some setting := LogSetting.ofLevel? invocation.logLevel
    | throw (.crash .unknownLevel)
  let target ← if options.write then some <$> targetPath access options else pure none
  let source ← sourceText access invocation.input options
  return ⟨setting, target, source⟩

/-- The outcome of a transformed program, given what was logged and what is said at the end. -/
def deliver (access : FileAccess) (target : Option Text) (logged closing output : Text) : Outcome :=
  match target with
  | none => .printing output logged closing
  | some path =>
    match access.writeFault? path with
    | some fault => ⟨.crash fault.crash, [], logged, none⟩
    | none => .writing path output logged closing

/-- Transforms the program of a task. -/
def Task.perform (access : FileAccess) (traceback quiet : Bool) (task : Task) : Outcome :=
  let (result, log) := Curry.transform task.source
  let logged := task.setting.text log
  match result with
  | .ok done =>
    deliver access task.target logged (if quiet then [] else Text.line done.summary) done.output
  | .error failure =>
    let heading := match failure with
      | .source _ => "Parse error: "
      | .edit _ => "Transform error: "
    .ofFailure traceback heading logged failure

/-- What the arguments of a command ask for. -/
def Request.ofArguments (arguments : List Text) : Request := .read ⟨false, false, none⟩ arguments

/-- The command as a whole. -/
def transform (access : FileAccess) (invocation : Invocation) : Outcome :=
  match Request.ofArguments invocation.arguments with
  | .help => ⟨.status 0, usage, [], none⟩
  | .surplus argument =>
    .early (.message (Text.ofString "Unexpected argument: " ++ argument))
  | .transform options =>
    match Task.prepare access invocation options with
    | .error exit => .early exit
    | .ok task => task.perform access invocation.traceback options.quiet

/-- The files after a command had its outcome. -/
def Outcome.filesAfter (outcome : Outcome) (files : FileSet) : FileSet :=
  match outcome.written with
  | some (path, contents) => files.write path contents
  | none => files

end Uncurry.Command
