import Rebind.Scope
import Rebind.Snippet.Tree
import Rebind.Text.Layout
import Rebind.Text.Quoted
import Rebind.Text.Blank

/-!
# Templates of code

The code of a snippet is first a template: fixed texts, copied stretches of the source, slots for
the names of host objects, line breaks and levels of indentation, and the bindings made on the
way.  The names and the width of the indentation come in when the template is filled.
-/

namespace Rebind

open Rebind.Text (Span)

/-- The host objects whose names the code refers to. -/
inductive Slot where
  | globalObject
  | moduleObject
  deriving Repr, DecidableEq, Inhabited

/-- A piece of code. -/
inductive Piece where
  | text (text : String)
  | slot (slot : Slot)
  /-- A stretch of the source as it is. -/
  | copy (span : Span)
  /-- A stretch of the source without the blanks at its start. -/
  | copyTrimmed (span : Span)
  deriving Repr, DecidableEq, Inhabited

/-- Code on one logical line. -/
abbrev Fragment := List Piece

/-- The lists of names in which a binding is entered. -/
inductive Register where
  | sink (sink : Sink)
  | constants
  deriving Repr, DecidableEq, Inhabited

/-- One step of a template. -/
inductive Step where
  | write (piece : Piece)
  | newline
  | freshLine
  | indent
  | dedent
  /-- Enters names in a register; nothing is written. -/
  | enter (register : Register) (names : List String)
  deriving Repr, DecidableEq, Inhabited

/-- Code with open slots, and the bindings it makes. -/
abbrev Template := List Step

namespace Template

/-- Writes a fragment. -/
def write (fragment : Fragment) : Template :=
  fragment.map .write

/-- Writes a fixed text. -/
def fixed (text : String) : Template :=
  [Step.write (.text text)]

/-- Ends a statement and its line. -/
def endStatement : Template :=
  [Step.write (.text ";"), .newline]

/-- Puts steps between braces on lines of their own, one level deeper. -/
def braced (inner : Template) : Template :=
  [Step.write (.text "\x7b"), .newline, .indent] ++ inner ++
    [Step.freshLine, .dedent, .write (.text "\x7d")]

/-- The call that makes properties of names, after they are entered in the sink's register.
Without names there is none. -/
def registration (sink : Sink) (names : List String) : Template :=
  if names.isEmpty then []
  else
    [Step.enter (.sink sink) names, .write (.slot .moduleObject),
      .write (.text ("." ++ sink.method ++ "(")),
      .write (.text (", ".intercalate (names.map Text.quoted))), .write (.text ")")] ++
      endStatement

end Template

/-! ## Filling a template -/

/-- The names of the host objects and the width of one level of indentation. -/
structure Filling where
  globalObject : String
  moduleObject : String
  indentWidth : UInt64

/-- The text of a piece. -/
def Piece.fill (filling : Filling) (source : List Char) : Piece → String
  | .text fixed => fixed
  | .slot .globalObject => filling.globalObject
  | .slot .moduleObject => filling.moduleObject
  | .copy span => String.ofList (span.slice source)
  | .copyTrimmed span => String.ofList ((span.slice source).dropWhile Text.isBlank)

/-- What a step does to the laid-out text. -/
def Step.fill (filling : Filling) (source : List Char) : Step → List Layout.Action
  | .write piece => [.write (piece.fill filling source)]
  | .newline => [.newline]
  | .freshLine => [.freshLine]
  | .indent => [.indent]
  | .dedent => [.dedent]
  | .enter _ _ => []

namespace Template

/-- The code that a template stands for. -/
def code (filling : Filling) (source : List Char) (template : Template) : String :=
  Layout.render filling.indentWidth (template.flatMap (Step.fill filling source))

/-- The names entered in a register, each once in the order of their first entries. -/
def entered (register : Register) (template : Template) : List String :=
  (template.flatMap fun
    | .enter r names => if r = register then names else []
    | _ => []).foldl (fun known name => if known.contains name then known else known ++ [name]) []

/-- The bindings that a template makes. -/
def bindings (template : Template) : Bindings where
  global := template.entered (.sink .global)
  scope := template.entered (.sink .scope)
  constants := template.entered .constants

end Template

end Rebind
