import Rebind.Error
import Rebind.Unicode.Identifier

/-!
# Options
-/

namespace Rebind

/-- The names of the host objects, and how the code is written. -/
structure Options where
  /-- The object that takes the functions and variables of a snippet. -/
  globalBinding : String := "window"
  /-- The object that takes the lexical declarations of a snippet. -/
  scopeBinding : String := "__scope__"
  /-- The object that stands for the module. -/
  moduleBinding : String := "__module__"
  /-- Whether the functions of a snippet come before its other statements. -/
  hoistFunctions : Bool := true
  /-- The number of blanks for one level of indentation, a word of 64 bits. -/
  indentWidth : UInt64 := 4
  deriving Repr, DecidableEq, Inhabited

/-- The words that no reference in strict code can be. -/
def strictReservedWords : List String :=
  ["break", "case", "catch", "class", "const", "continue", "debugger", "default", "delete", "do",
    "else", "enum", "export", "extends", "false", "finally", "for", "function", "if", "import",
    "in", "instanceof", "new", "null", "return", "super", "switch", "this", "throw", "true",
    "try", "typeof", "var", "void", "while", "with", "implements", "interface", "let", "package",
    "private", "protected", "public", "static", "yield", "await"]

/-- Whether a name can be a reference in strict code. -/
def isBindingName (name : String) : Bool :=
  Unicode.isIdentifierName name && !strictReservedWords.contains name

namespace Options

/-- Refuses a name under which the code could not refer to a host object. -/
def checkBinding (option name : String) : Except RebindError Unit :=
  if isBindingName name then .ok () else .error (.invalidOption option name)

/-- Refuses the first of the three names that is no name. -/
def validate (options : Options) : Except RebindError Unit := do
  checkBinding "globalBinding" options.globalBinding
  checkBinding "scopeBinding" options.scopeBinding
  checkBinding "moduleBinding" options.moduleBinding

end Options

end Rebind
