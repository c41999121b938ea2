import Rebind.Code.Statement

/-!
# Templates of snippets

The value of a snippet is that of its last statement if that is an expression.  With hoisting on,
the functions of a snippet come before its other statements, so that they can be called before
the place of their declarations.
-/

namespace Rebind.Code

open Rebind.Snippet

/-- Whether a statement declares a function. -/
def isFunction : Statement → Bool
  | .function _ _ => true
  | _ => false

/-- The code that gives a copied part of the source as the value of the snippet. -/
def returned (value : Fragment) : Template :=
  Template.write (.text "return " :: value) ++ Template.endStatement

variable [Wording]

/-- The last statement of a snippet, whose value is that of the snippet. -/
def lastStatement (hoist : Bool) (s : Statement) : Result :=
  match s with
  | .expression _ value => .ok (returned (expression value))
  | s => if hoist && isFunction s then .ok [] else statement .topLevel 0 .listed s

/-- A snippet without statements: its last directive gives the value. -/
def directivesOnly (directives : List Text.Span) : Template :=
  directives.dropLast.flatMap directive ++
    match directives.getLast? with
    | some last => returned (Wording.stripped [Piece.copy last])
    | none => []

/-- The template of a snippet. -/
def program (hoist : Bool) (p : Program) : Result :=
  match p.statements.getLast? with
  | none => .ok (directivesOnly p.directives)
  | some last => do
    let functions := if hoist then p.statements.filter isFunction else []
    let others := p.statements.dropLast.filter fun s => !(hoist && isFunction s)
    let functions ← statements .topLevel 0 functions
    let others ← statements .topLevel 0 others
    let last ← lastStatement hoist last
    return p.directives.flatMap directive ++ functions ++ others ++ last

end Rebind.Code
