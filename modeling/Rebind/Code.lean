import Rebind.Grammar.Program
import Rebind.Options
import Rebind.Code.Program

/-!
# Code for snippets

`checkedRebind` turns a snippet into code whose declarations outlive it: they become properties of
objects of the host.  `rebind` does the same in two steps, by filling a template.  `wrap` puts the
code into the function that runs it, and `parameters` are the names under which that function takes
the objects.
-/

namespace Rebind

open Rebind.Snippet

/-- The code of a snippet and the bindings it makes. -/
structure Output where
  code : String
  bindings : Bindings
  deriving Repr, DecidableEq, Inhabited

namespace Options

/-- What the options put into a template. -/
def filling (options : Options) : Filling where
  globalObject := options.globalBinding
  moduleObject := options.moduleBinding
  indentWidth := options.indentWidth

end Options

/-- Reads a snippet. -/
def parse (source : List Char) : Except RebindError Program :=
  (Program.parse source).mapError (RebindError.ofFault source)

/-- The template of a snippet, in which the names of the host objects are open. -/
def template (hoist : Bool) (source : List Char) : Except RebindError Template := do
  Code.program hoist (← parse source)

/-- What is printed of a snippet under known options. -/
def printed (options : Options) (source : List Char) : Except RebindError Template := do
  let program ← parse source
  @Code.program (.filled options.filling source) options.hoistFunctions program

/-- Rebinds a snippet by filling its template.  This is `checkedRebind` for valid names. -/
def rebind (options : Options) (source : String) : Except RebindError Output := do
  let template ← template options.hoistFunctions source.toList
  return {
    code := template.code options.filling source.toList
    bindings := template.bindings }

/-- Rebinds a snippet if the names in the options are valid. -/
def checkedRebind (options : Options) (source : String) : Except RebindError Output := do
  options.validate
  let template ← printed options source.toList
  return {
    code := template.code options.filling source.toList
    bindings := template.bindings }

/-! ## Patterns of single declarations -/

/-- The pattern of the first target in a text that starts with a declaration of variables. -/
def firstPattern (source : List Char) : Except RebindError Pattern := do
  let program ← parse source
  match program.statements.head? with
  | some (.declaration start declaration) =>
    match declaration.declarators.head? with
    | some declarator => return declarator.target
    | none => throw (.unexpectedNode "empty declaration" "pattern input" start)
  | some other => throw (.unexpectedNode "statement" "pattern input" other.start)
  | none => throw (.unexpectedNode "empty input" "pattern input" 0)

/-- The names bound by the first pattern of a declaration. -/
def patternNames (source : String) : Except RebindError (List String) := do
  return (← firstPattern source.toList).names

/-- The first pattern of a declaration, written anew under the options that are the default. -/
def patternText (source : String) : Except RebindError String := do
  let pattern ← firstPattern source.toList
  let filling := ({} : Options).filling
  let fragment := @Code.pattern (.filled filling source.toList) pattern
  return String.ofList (Code.textOf filling source.toList fragment)

/-! ## Running the code -/

/-- The body of the function that runs the code. -/
def wrap (options : Options) (code : String) : String :=
  "with (" ++ options.scopeBinding ++ ") \x7b\nreturn (async () => \x7b\n\"use strict\";\n" ++
    code ++ "\n;\n\x7d)();\n\x7d"

/-- The names under which the function takes the objects of the host, each once. -/
def parameters (options : Options) : List String :=
  ["arguments", "self", options.globalBinding, "globalThis", options.scopeBinding,
    options.moduleBinding].foldl
    (fun names name => if names.contains name then names else names ++ [name]) []

end Rebind
