import Uncurry.Command.Listing
import Uncurry.Command.Transform
import Uncurry.Console.Session
import Uncurry.Highlight
import Uncurry.Main
import Uncurry.Proofs.Command.Overwriting
import Uncurry.Proofs.Console.Cleaning
import Uncurry.Proofs.Console.Continuations
import Uncurry.Proofs.Console.Highlighting
import Uncurry.Proofs.Console.Submissions
import Uncurry.Proofs.Console.Tables
import Uncurry.Proofs.Curry.Aliases
import Uncurry.Proofs.Curry.Arities
import Uncurry.Proofs.Curry.Interruption
import Uncurry.Proofs.Curry.Rebuilding
import Uncurry.Proofs.Curry.Repetition
import Uncurry.Proofs.Curry.Respelling
import Uncurry.Proofs.Curry.Safety
import Uncurry.Proofs.Document.Insertions
import Uncurry.Proofs.Document.Removals
import Uncurry.Proofs.Document.Severing
import Uncurry.Proofs.Grafting.Reparsing
import Uncurry.Proofs.Lexical.Comments
import Uncurry.Proofs.Lexical.Coverage
import Uncurry.Proofs.Lexical.Newlines
import Uncurry.Proofs.Lexical.Quotations
import Uncurry.Proofs.Lexical.Regexes
import Uncurry.Proofs.Lexical.Slashes
import Uncurry.Proofs.Lexical.Templates
import Uncurry.Proofs.Progress.Brackets
import Uncurry.Proofs.Progress.Layout
import Uncurry.Proofs.Progress.Positions
import Uncurry.Proofs.Progress.Semicolons
import Uncurry.Proofs.Syntax.Grouping
