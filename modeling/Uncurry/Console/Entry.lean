import Uncurry.Text.Blank
import Uncurry.Text.Line
import Uncurry.Token.Sequence

/-!
# Typing a program

The text that is being typed takes further lines as long as a bracket, a template, a comment or a
regular expression is open. A complete text of one line is submitted at once, one of several lines
by an empty line at its end.
-/
namespace Uncurry.Console

/-- How many brackets are open behind some tokens. One too many that closes counts for nothing. -/
def openBrackets (tokens : List Token) : Nat :=
  tokens.foldl
    (fun depth token =>
      if token.kind.opens then depth + 1 else if token.kind.closes then depth - 1 else depth)
    0

/-- Whether a text asks for more lines. There is no answer for an escape beyond all bounds. -/
def needsContinuation? (text : Text) : Option Bool :=
  match tokenize .skip text with
  | .ok tokens => some (0 < openBrackets tokens)
  | .error (.malformed error) => some error.cause.isOpen
  | .error .escapeOverflow => none

/-- Characters that pasted text brings along unseen: zero-width ones, the byte order mark, the
no-break space and the carriage return. -/
def isInvisible (c : CodePoint) : Bool :=
  [0x200B, 0x200C, 0x200D, 0xFEFF, 0xA0, 0x0D].contains c.val

/-- A text without its invisible characters. -/
def normalize (text : Text) : Text := text.filter (!isInvisible ·)

/-- The indentation of the line that follows a text: that of its last line, and four more behind an
opening bracket. After a blank line there is none. -/
def nextIndentation (text : Text) : Text :=
  let line := Text.lastLine text
  let existing := line.length - (Text.trimStart line).length
  let opens : Bool := (Text.trimEnd line).getLast?.any fun (c : CodePoint) => c = '{' || c = '(' || c = '['
  let width :=
    if opens then existing + 4
    else if Text.isBlank line then 0
    else existing
  List.replicate width (CodePoint.ofChar ' ')

/-- Whether a text is a command, by the slash that it starts with. -/
def isCommand (text : Text) : Bool := text.head? = some (CodePoint.ofChar '/')

/-- What the enter key does to a text. -/
inductive EnterResult
  | submit (text : Text)
  | extend (text : Text)
  deriving DecidableEq

/-- The text with a line feed and the indentation of the next line. -/
def withNewLine (text : Text) : Text := text ++ CodePoint.ofChar '\n' :: nextIndentation text

/-- What the enter key does at the end of a text. -/
def enter? (text : Text) : Option EnterResult :=
  if isCommand (Text.trimStart text) then some (.submit text)
  else (needsContinuation? text).map fun more =>
    let lines := Text.lines text
    if more then .extend (withNewLine text)
    else if lines.length = 1 then .submit text
    else if Text.isBlank (Text.lastLine text) then .submit (Text.joinLines lines.dropLast)
    else .extend (withNewLine text)

/-- A key, or text that is typed or pasted. -/
inductive Key
  | enter
  | backspace
  | text (text : Text)
  deriving DecidableEq

/-- What is known after a key was handled: the text, whether it was submitted, and how often the
completion of a command was started so far. -/
structure KeyRecord where
  text : Text
  submitted : Bool
  completions : Nat
  deriving DecidableEq

/-- The end of typing: a text was submitted, the keys ran out, or a key failed because of an escape
beyond all bounds. -/
inductive TypingEnd
  | submitted (text : Text)
  | abandoned
  | failed
  deriving DecidableEq

/-- Types keys at the end of a text until it is submitted. -/
def typeKeys (text : Text) (completions : Nat) : List Key → List KeyRecord × TypingEnd
  | [] => ([], .abandoned)
  | .text more :: keys => typeKeys (text ++ more) completions keys
  | .backspace :: keys =>
    let shorter := text.dropLast
    let completions := if isCommand shorter then completions + 1 else completions
    let (records, finish) := typeKeys shorter completions keys
    (⟨shorter, false, completions⟩ :: records, finish)
  | .enter :: keys =>
    match enter? text with
    | none => ([], .failed)
    | some (.submit text) => ([⟨text, true, completions⟩], .submitted text)
    | some (.extend longer) =>
      let (records, finish) := typeKeys longer completions keys
      (⟨longer, false, completions⟩ :: records, finish)

end Uncurry.Console
