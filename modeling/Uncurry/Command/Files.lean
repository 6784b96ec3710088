import Uncurry.Command.Path

/-!
# The files that a command sees

A command is run in a directory with some files, which may lie in directories of their own. Around
it there are only directories without anything else in them.
-/
namespace Uncurry.Command

/-- Contents of files, by their paths from the working directory. -/
abbrev FileSet := List (Text × ByteArray)

/-- What a path leads to. -/
inductive FileNode
  | file (contents : ByteArray)
  | directory

/-- Where a walk along a path stands: in a directory at or below the working directory, by the names
down to it, at a file, or outside. -/
inductive Stand
  | inside (down : List Text)
  | atFile (path : Text)
  | outside
  deriving DecidableEq

namespace FileSet

def contents? (files : FileSet) (path : Text) : Option ByteArray :=
  (files.find? fun file => file.1 = path).map (·.2)

/-- Whether some names lead to a directory: some file lies below it. -/
def isDirectory (files : FileSet) (down : List Text) : Bool :=
  files.any fun file => down.isPrefixOf (names file.1) && down.length < (names file.1).length

/-- One step of a walk. -/
def step (files : FileSet) (stand : Stand) (name : Text) : Except PathFault Stand :=
  match stand with
  | .atFile _ => .error .notDirectory
  | .outside =>
    if isIdle name || name = Text.ofString ".." then .ok .outside
    else if 255 < byteLength name then .error .tooLong
    else .error .missing
  | .inside down =>
    if isIdle name then .ok stand
    else if name = Text.ofString ".." then
      .ok (if down.isEmpty then .outside else .inside down.dropLast)
    else if 255 < byteLength name then .error .tooLong
    else
      let down := down ++ [name]
      if (files.contents? (joinNames down)).isSome then .ok (.atFile (joinNames down))
      else if files.isDirectory down then .ok (.inside down)
      else .error .missing

/-- Where the walk along a path starts: the directories above the working directory, or that one. -/
def startOf (path : Text) : Stand :=
  if path.head? = some (CodePoint.ofChar '/') then .outside else .inside []

/-- Where a path leads to. -/
def walk (files : FileSet) (path : Text) : Except PathFault Stand :=
  match spellingFault? path with
  | some fault => .error fault
  | none => (names path).foldlM files.step (startOf path)

/-- What stands at a path. -/
def find (files : FileSet) (path : Text) : Except PathFault FileNode := do
  match ← files.walk path with
  | .atFile path => return .file ((files.contents? path).getD .empty)
  | _ => return .directory

/-- Contents put in the place of those of a file. -/
def put (files : FileSet) (path : Text) (contents : ByteArray) : FileSet :=
  files.map fun file => if file.1 = path then (path, contents) else file

/-- Why there is no file to open for writing at a path that ends in a slash: it asks for a directory,
unless what comes before its last name fails already. -/
def slashFault (files : FileSet) (path : Text) : PathFault :=
  let before := ((names path).filter (!·.isEmpty)).dropLast
  match before.foldlM files.step (startOf path) with
  | .error fault => fault
  | .ok (.atFile _) => .notDirectory
  | .ok _ => .isDirectory

/-- Why there is no file to open for writing at a path. -/
def writeFault? (files : FileSet) (path : Text) : Option PathFault :=
  match spellingFault? path with
  | some fault => some fault
  | none =>
    if path.getLast? = some (CodePoint.ofChar '/') then some (files.slashFault path)
    else match files.walk path with
      | .ok (.atFile _) => none
      | .ok _ => some .isDirectory
      | .error fault => some fault

/-- The files after the one at a path was written, if there is one. -/
def write (files : FileSet) (path : Text) (contents : ByteArray) : FileSet :=
  match files.walk path with
  | .ok (.atFile found) => files.put found contents
  | _ => files

end FileSet

/-- How a command gets at files: what stands at a path, and why a file cannot be written. -/
structure FileAccess where
  find : Text → Except PathFault FileNode
  writeFault? : Text → Option PathFault

def FileSet.access (files : FileSet) : FileAccess := ⟨files.find, files.writeFault?⟩

end Uncurry.Command
