import Uncurry.Text.CodePoint

/-!
# Paths

A path is walked from name to name. A name of more than 255 bytes and a path of 4096 bytes or more
are refused as too long.
-/
namespace Uncurry.Command

/-- How many bytes a code point takes in UTF-8. -/
def byteCount (c : CodePoint) : Nat :=
  if c.val < 0x80 then 1 else if c.val < 0x800 then 2 else if c.val < 0x10000 then 3 else 4

/-- How many bytes a text takes in UTF-8. -/
def byteLength : Text → Nat
  | [] => 0
  | c :: rest => byteCount c + byteLength rest

/-- The names of a path, empty ones where slashes follow each other or end it. -/
def names : Text → List Text
  | [] => [[]]
  | c :: rest =>
    if c = '/' then [] :: names rest
    else match names rest with
      | [] => [[c]]
      | name :: later => (c :: name) :: later

/-- Names with slashes between them. -/
def joinNames (names : List Text) : Text := [CodePoint.ofChar '/'].intercalate names

/-- Whether a name stands for no step: it is empty or a single point. -/
def isIdle (name : Text) : Bool := name.isEmpty || name = Text.ofString "."

/-- The slashes that an absolute path keeps at its start: one, or two if there are exactly two. -/
def rootOf (path : Text) : Text :=
  match (path.takeWhile fun c => c = CodePoint.ofChar '/').length with
  | 0 => []
  | 2 => Text.ofString "//"
  | _ => Text.ofString "/"

/-- A path without idle names and without slashes too many. -/
def simplify (path : Text) : Text :=
  let simple := rootOf path ++ joinNames ((names path).filter (!isIdle ·))
  if simple.isEmpty then Text.ofString "." else simple

/-- Why nothing is reached by a path. -/
inductive PathFault
  | missing
  | notDirectory
  | isDirectory
  | tooLong
  | embeddedNull
  deriving DecidableEq

/-- Why a path leads nowhere, whatever the files: it has a null character, is empty or is too long. -/
def spellingFault? (path : Text) : Option PathFault :=
  if path.any (·.val = 0) then some .embeddedNull
  else if path.isEmpty then some .missing
  else if 4096 ≤ byteLength path then some .tooLong
  else none

end Uncurry.Command
