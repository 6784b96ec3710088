import Uncurry.Console.Entry
import Uncurry.Console.Table
import Uncurry.Report
import Uncurry.Text.Surrogate

/-!
# Sessions at the console

A session takes one submitted text after the other. A text that starts with a slash is a command,
any other one a program, which is transformed and printed. A failure is reported and changes
nothing else; only an escape beyond all bounds and a text that cannot be printed end the session.
-/
namespace Uncurry.Console

/-- What a session does to the terminal. -/
inductive Effect
  | out (text : Text)
  | err (text : Text)
  | clear
  deriving DecidableEq

/-- What is remembered between texts: whether failures are shown with a traceback, and the table of
the last program that was transformed. -/
structure Session where
  traceback : Bool
  table : Option ArityTable
  deriving DecidableEq

/-- A command with what the completion says about it. -/
structure Command where
  name : String
  description : String

def commands : List Command :=
  [⟨"/clear", "Clear the terminal screen"⟩,
   ⟨"/py-traceback", "Toggle Python traceback on errors"⟩,
   ⟨"/table", "Show the arity table of the last snippet"⟩]

/-- A completion of a text: the command, where it starts relative to the end of the text, and its
description. -/
structure Completion where
  command : String
  start : Int
  description : String
  deriving DecidableEq

/-- The commands that a text can be completed to. -/
def completions (text : Text) : List Completion :=
  if isCommand text then
    (commands.filter fun command => text.isPrefixOf (Text.ofString command.name)).map
      fun command => ⟨command.name, -text.length, command.description⟩
  else []

/-- A setting that a command asks for by its argument; `none` turns it to the other side. -/
def switch? (argument : Text) (now : Bool) : Option Bool :=
  let word := argument.map CodePoint.toLower
  let isOneOf (words : List String) : Bool := words.any fun other => word = Text.ofString other
  if isOneOf ["on", "1", "true", "yes"] then some true
  else if isOneOf ["off", "0", "false", "no"] then some false
  else if argument.isEmpty then some (!now)
  else none

/-- What became of a submitted text, and the crash that ends the session, if there is one. -/
structure Turn where
  session : Session
  effects : List Effect
  crash : Option Crash

/-- A turn that ends with the printing of a line, which needs a UTF-8 form. -/
def Turn.printing (session : Session) (before : List Effect) (text : Text) : Turn :=
  if text.isEncodable then ⟨session, before ++ [.out (Text.line text)], none⟩
  else ⟨session, before, some .unencodable⟩

/-- Runs a command, given as a text that starts with a slash and has no blanks around it. -/
def runCommand (session : Session) (text : Text) : Turn :=
  let (name, argument) := Text.splitWord text
  if name = Text.ofString "/clear" then ⟨session, [.clear], none⟩
  else if name = Text.ofString "/py-traceback" then
    match switch? argument session.traceback with
    | some traceback =>
      .printing { session with traceback := traceback } []
        (if traceback then "Python traceback: on" else "Python traceback: off")
    | none => ⟨session, [.err (Text.line "Usage: /py-traceback [on|off]")], none⟩
  else if name = Text.ofString "/table" then .printing session [] (tableText session.table)
  else ⟨session, [.err (Text.line (Text.ofString "Unknown command: " ++ name))], none⟩

/-- What is shown of a failure with this report. -/
def failureText (session : Session) (failure : Failure) (report : Text) : Text :=
  Text.line (Text.ofString "Error: " ++ report) ++
    if session.traceback then Text.line "\nPython traceback:" ++ failure.traceback report else []

/-- Transforms a program and prints it. -/
def runProgram (session : Session) (source : Text) : Turn :=
  let (result, log) := Curry.transform source
  let warned := .err (warnings log)
  match result with
  | .ok done => .printing { session with table := some done.table } [warned] done.output
  | .error failure =>
    match failure.report? with
    | some report => ⟨session, [warned, .err (failureText session failure report)], none⟩
    | none => ⟨session, [warned], some .escapeOverflow⟩

/-- Takes a submitted text. -/
def submit (session : Session) (submitted : Text) : Turn :=
  let text := normalize submitted
  if Text.isBlank text then ⟨session, [], none⟩
  else if isCommand (Text.trim text) then runCommand session (Text.trim text)
  else runProgram session text

/-- What happens at the prompt. -/
inductive Input
  | submitted (text : Text)
  | interrupted
  | typed (keys : List Key)
  deriving DecidableEq

/-- A session to its end, which may be a crash. -/
structure Transcript where
  effects : List Effect
  keys : List KeyRecord
  crash : Option Crash
  deriving DecidableEq

/-- A transcript with something in front. -/
def Transcript.after (effects : List Effect) (keys : List KeyRecord) (later : Transcript) :
    Transcript :=
  ⟨effects ++ later.effects, keys ++ later.keys, later.crash⟩

/-- Takes a submitted text, and goes on unless that ends the session. -/
def continueWith (session : Session) (keys : List KeyRecord) (text : Text)
    (proceed : Session → Transcript) : Transcript :=
  let turn := submit session text
  match turn.crash with
  | some cause => ⟨turn.effects, keys, some cause⟩
  | none => (proceed turn.session).after turn.effects keys

/-- Runs a session on what happens at its prompt, to the end of the input. -/
def runInputs (session : Session) : List Input → Transcript
  | [] => ⟨[.out (Text.line [])], [], none⟩
  | .interrupted :: later =>
    (runInputs session later).after [.out (Text.line "KeyboardInterrupt")] []
  | .submitted text :: later =>
    continueWith session [] text fun session => runInputs session later
  | .typed keys :: later =>
    let (records, finish) := typeKeys [] 0 keys
    match finish with
    | .submitted text => continueWith session records text fun session => runInputs session later
    | .abandoned => (runInputs session later).after [] records
    | .failed => ⟨[], records, some .escapeOverflow⟩

/-- What a session starts with. -/
def banner : Text := Text.line "jscurry repl: Ctrl-D to exit, / for commands"

/-- A whole session. -/
def run (traceback : Bool) (inputs : List Input) : Transcript :=
  (runInputs ⟨traceback, none⟩ inputs).after [.out banner] []

namespace Transcript

/-- What is written to the standard output; clearing the screen writes a text of its own. -/
def output (clearing : Text) (transcript : Transcript) : Text :=
  transcript.effects.flatMap fun
    | .out text => text
    | .err _ => []
    | .clear => clearing

/-- What is written to the standard error. -/
def errors (transcript : Transcript) : Text :=
  transcript.effects.flatMap fun
    | .err text => text.escapeSurrogates
    | _ => []

/-- How the session ends. -/
def exit (transcript : Transcript) : Exit :=
  match transcript.crash with
  | some cause => .crash cause
  | none => .status 0

end Transcript

end Uncurry.Console
