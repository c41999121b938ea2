import Rebind.Grammar.Statement

/-!
# Reading a snippet

`Productions.upTo n` reads whatever nests at most `n` deep.  Between two nested productions at least
every second time a token is read, so twice the length of the source is enough for the whole of
it, and `Program.parse` never runs out.
-/

namespace Rebind.Grammar

open Rebind.Text (byteSize)
open Rebind.Snippet

/-- The productions, each of which finds what it nests in `g`. -/
def Productions.nest (g : Productions) : Productions where
  assignment := Rebind.Grammar.assignment g
  unary := Rebind.Grammar.unary g
  binary := Rebind.Grammar.binary g
  access := Rebind.Grammar.access g
  pattern := Rebind.Grammar.pattern g
  statement := Rebind.Grammar.statement g

/-- The productions that read nothing. -/
def Productions.empty : Productions where
  assignment _ := Parser.unexpected
  unary _ := Parser.unexpected
  binary _ _ := Parser.unexpected
  access _ _ := Parser.unexpected
  pattern _ := Parser.unexpected
  statement _ _ := Parser.unexpected

/-- The productions for whatever nests at most `n` deep. -/
def Productions.upTo : Nat → Productions
  | 0 => .empty
  | n + 1 => (upTo n).nest

end Rebind.Grammar

namespace Rebind.Snippet

open Rebind.Text (byteSize)
open Rebind.Grammar

/-- The largest offset, since offsets are words of 32 bits. -/
def maxOffset : Nat := 4294967295

/-- Reads a text whose offsets can be counted. -/
def Program.read (source : List Char) : Except LocatedFault Program := do
  let limit := byteSize source
  let lexeme ← Lexeme.first source
  let state : State := { lexeme, lastStop := 0, limit, hosts := [], exports := [] }
  let ((directives, statements), _) ←
    (directivesAndStatements (Productions.upTo (2 * limit + 4)) {} false).run state
  return { directives, statements }

/-- Reads a snippet, or says why the text is none. -/
def Program.parse (source : List Char) : Except LocatedFault Program :=
  if byteSize source ≤ maxOffset then Program.read source else .error ⟨.tooLong, ⟨0, 0⟩⟩

end Rebind.Snippet
