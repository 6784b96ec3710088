import Uncurry.Text.CodePoint

/-!
# Template literals

A template is cut into chunks at its substitutions. A chunk ends at a backtick or at the `${` that
opens the next substitution; a backslash takes the character after it along.
-/
namespace Uncurry.Lexeme

/-- What ends a chunk of a template. -/
inductive ChunkEnd
  | backtick
  | substitution
  deriving DecidableEq

/-- How many characters a chunk takes after its first, its end included, and what that end is. -/
def chunkLength? : Text → Option (Nat × ChunkEnd)
  | [] => none
  | c :: rest =>
    if c = '\\' then
      match rest with
      | [] => none
      | _ :: later => (chunkLength? later).map fun chunk => (chunk.1 + 2, chunk.2)
    else if c = '`' then some (1, .backtick)
    else if c = '$' && rest.head? = some (CodePoint.ofChar '{') then some (2, .substitution)
    else (chunkLength? rest).map fun chunk => (chunk.1 + 1, chunk.2)

end Uncurry.Lexeme
