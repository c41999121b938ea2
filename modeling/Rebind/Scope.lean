/-!
# Where declarations of a snippet live

The bindings of a snippet outlive it only if they are properties of objects that do.  Functions
and variables of the whole snippet become properties of the global object, and what the snippet
declares lexically at its top becomes a property of the scope object.
-/

namespace Rebind

/-- Where a statement stands. -/
inductive ScopeMode where
  /-- Directly in the snippet. -/
  | topLevel
  /-- In a block or other statement of the snippet, outside all functions. -/
  | topLevelBlock
  | functionBody
  deriving Repr, DecidableEq, Inhabited

namespace ScopeMode

/-- The mode of a statement inside another one. -/
def nested : ScopeMode → ScopeMode
  | .topLevel => .topLevelBlock
  | mode => mode

/-- Whether variables declared with `var` become properties. -/
def redirectsVar (mode : ScopeMode) : Bool :=
  mode != .functionBody

/-- Whether lexical declarations become properties. -/
def redirectsLexical (mode : ScopeMode) : Bool :=
  mode == .topLevel

end ScopeMode

/-- The objects that take the bindings of a snippet. -/
inductive Sink where
  | global
  | scope
  deriving Repr, DecidableEq, Inhabited

/-- The method of the module object that makes properties of a sink. -/
def Sink.method : Sink → String
  | .global => "global"
  | .scope => "scope"

/-- The names that a snippet declares, by the object that takes them, each once and in the order
in which they are declared first. -/
structure Bindings where
  global : List String := []
  scope : List String := []
  /-- The names in `scope` that cannot be assigned to. -/
  constants : List String := []
  deriving Repr, DecidableEq, Inhabited

end Rebind
