import Rebind.Text.Span

/-!
# The tree of a snippet

The tree keeps what re-emission has to walk: statements, declarations, binding patterns, functions
and classes.  An expression is copied from the source, so of it the tree keeps the stretch of the
source and the host forms inside, which are the only parts of a copy that change.
-/

namespace Rebind.Snippet

open Rebind.Text (Span)

/-- A part of an expression that refers to the module the code runs in. -/
inductive HostForm where
  /-- The metadata object of the module, `import.meta`. -/
  | metadata (span : Span)
  /-- A dynamic import with its specifier and the host forms inside the specifier. -/
  | load (span : Span) (specifier : Span) (inner : List HostForm)
  deriving Repr, Inhabited

/-- The stretch of the source that a host form takes. -/
def HostForm.span : HostForm → Span
  | .metadata span | .load span _ _ => span

/-- A copied expression: its stretch of the source and its outermost host forms in order. -/
structure Expression where
  span : Span
  hosts : List HostForm
  deriving Repr, Inhabited

/-- The name of a property or of a class member. -/
inductive Key where
  /-- A name, literal or private name, kept as it is written. -/
  | plain (span : Span)
  /-- An expression in brackets. -/
  | computed (value : Expression)
  deriving Repr, Inhabited

/-- A binding pattern. -/
inductive Pattern where
  | name (text : String) (span : Span)
  /-- An array pattern; a missing element is a hole. -/
  | array (span : Span) (elements : List (Option Pattern)) (rest : Option Pattern)
  | object (span : Span) (properties : List (Key × Pattern)) (rest : Option Pattern)
  /-- A pattern with the value that stands in for `undefined`. -/
  | withDefault (target : Pattern) (value : Expression)
  deriving Repr, Inhabited

/-- The stretch of the source that a pattern takes. -/
def Pattern.span : Pattern → Span
  | .name _ span | .array span _ _ | .object span _ _ => span
  | .withDefault target value => ⟨target.span.start, value.span.stop⟩

/-- A parameter: a pattern and its default value. -/
structure Parameter where
  pattern : Pattern
  value : Option Expression
  deriving Repr, Inhabited

/-- The keywords that declare variables. -/
inductive DeclarationKind where
  /-- `var` -/
  | variable
  /-- `let` -/
  | lexical
  /-- `const` -/
  | constant
  /-- `using` -/
  | resource
  /-- `await using` -/
  | awaitedResource
  deriving Repr, DecidableEq, Inhabited

/-- One target of a declaration with its value. -/
structure Declarator where
  target : Pattern
  value : Option Expression
  deriving Repr, Inhabited

/-- A declaration of variables. -/
structure Declaration where
  kind : DeclarationKind
  declarators : List Declarator
  deriving Repr, Inhabited

/-- The first part of the head of a counting loop. -/
inductive LoopStart where
  | declaration (declaration : Declaration)
  | expression (value : Expression)
  deriving Repr, Inhabited

/-- What a loop over the keys or the values of an object assigns to. -/
inductive LoopTarget where
  | declaration (declaration : Declaration)
  /-- A place that is assigned to, without parentheses around it. -/
  | place (value : Expression)
  deriving Repr, Inhabited

/-- Whether a class member is called, read or written. -/
inductive MethodKind where
  | plain
  | getter
  | setter
  deriving Repr, DecidableEq, Inhabited

/-- Whether a jump leaves a statement or starts the next round of a loop. -/
inductive Jump where
  /-- `break` -/
  | leave
  /-- `continue` -/
  | next
  deriving Repr, DecidableEq, Inhabited

mutual

/-- A statement, with the offset at which it starts. -/
inductive Statement where
  | block (start : Nat) (body : List Statement)
  | conditional (start : Nat) (test : Expression) (consequent : Statement)
      (alternate : Option Statement)
  | whileLoop (start : Nat) (test : Expression) (body : Statement)
  | doLoop (start : Nat) (body : Statement) (test : Expression)
  | forLoop (start : Nat) (init : Option LoopStart) (test update : Option Expression)
      (body : Statement)
  | forIn (start : Nat) (target : LoopTarget) (object : Expression) (body : Statement)
  | forOf (start : Nat) (isAwait : Bool) (target : LoopTarget) (values : Expression)
      (body : Statement)
  | choice (start : Nat) (value : Expression) (cases : List Case)
  | attempt (start : Nat) (body : List Statement) (handler : Option Handler)
      (finalizer : Option (List Statement))
  | withObject (start : Nat) (object : Expression) (body : Statement)
  /-- A statement with all the labels before it; it is not labeled itself. -/
  | labeled (start : Nat) (labels : List String) (body : Statement)
  | returnValue (start : Nat) (value : Option Expression)
  | throwValue (start : Nat) (value : Expression)
  | jump (start : Nat) (kind : Jump) (label : Option String)
  | expression (start : Nat) (value : Expression)
  /-- A statement that does nothing here: an empty one or a break for a debugger. -/
  | idle (start : Nat)
  | declaration (start : Nat) (declaration : Declaration)
  | function (start : Nat) (callable : Callable)
  | classDeclaration (start : Nat) (definition : ClassDefinition)
  /-- An import or export declaration, of which nothing is kept. -/
  | moduleItem (start : Nat)

/-- A clause of a choice; the default clause has no test. -/
structure Case where
  test : Option Expression
  body : List Statement

/-- What runs when an attempt throws, with the pattern that takes the thrown value. -/
structure Handler where
  parameter : Option Pattern
  body : List Statement

/-- The body of a function: the offset of its opening brace, its directives and statements. -/
structure Body where
  start : Nat
  directives : List Span
  statements : List Statement

/-- A function or method. -/
structure Callable where
  isAsync : Bool
  isGenerator : Bool
  name : Option String
  parameters : List Parameter
  rest : Option Pattern
  body : Body

/-- A member of a class. -/
inductive Element where
  | staticBlock (start : Nat) (body : List Statement)
  | method (decorators : List Expression) (isStatic : Bool) (kind : MethodKind) (key : Key)
      (callable : Callable)
  | field (decorators : List Expression) (isStatic isAccessor : Bool) (key : Key)
      (value : Option Expression)

/-- A class, with the offset at which it and its decorators start. -/
structure ClassDefinition where
  start : Nat
  decorators : List Expression
  name : Option String
  heritage : Option Expression
  elements : List Element

end

/-- The offset at which a statement starts. -/
def Statement.start : Statement → Nat
  | .block start _ | .conditional start _ _ _ | .whileLoop start _ _ | .doLoop start _ _
  | .forLoop start _ _ _ _ | .forIn start _ _ _ | .forOf start _ _ _ _ | .choice start _ _
  | .attempt start _ _ _ | .withObject start _ _ | .labeled start _ _ | .returnValue start _
  | .throwValue start _ | .jump start _ _ | .expression start _ | .idle start
  | .declaration start _ | .function start _ | .classDeclaration start _ | .moduleItem start =>
    start

/-- A statement with one more label before it. -/
def Statement.label (start : Nat) (label : String) : Statement → Statement
  | .labeled _ labels body => .labeled start (label :: labels) body
  | body => .labeled start [label] body

/-- A snippet: its directives and its statements, in source order. -/
structure Program where
  directives : List Span
  statements : List Statement

/-! ## Names that a pattern binds -/

namespace Pattern

mutual

/-- The names that a pattern binds, from left to right. -/
def names : Pattern → List String
  | .name text _ => [text]
  | .array _ elements rest => elementNames elements ++ restNames rest
  | .object _ properties rest => propertyNames properties ++ restNames rest
  | .withDefault target _ => target.names

/-- The names that the elements of an array pattern bind. -/
def elementNames : List (Option Pattern) → List String
  | [] => []
  | none :: elements => elementNames elements
  | some element :: elements => element.names ++ elementNames elements

/-- The names that the properties of an object pattern bind. -/
def propertyNames : List (Key × Pattern) → List String
  | [] => []
  | (_, value) :: properties => value.names ++ propertyNames properties

/-- The names that a rest element binds. -/
def restNames : Option Pattern → List String
  | none => []
  | some rest => rest.names

end

end Pattern

/-- The names that a declaration binds, duplicates kept. -/
def Declaration.names (declaration : Declaration) : List String :=
  declaration.declarators.flatMap (·.target.names)

end Rebind.Snippet
