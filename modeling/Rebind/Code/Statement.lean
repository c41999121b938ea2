import Rebind.Error
import Rebind.Code.Fragment

/-!
# Templates of statements

`statement` gives the template of a statement.  It depends on where the statement stands and on
how deep it is nested, and on nothing that was written before, so templates are put together by
appending them.

A declaration whose names outlive the snippet is written as assignments after a call that makes
the properties assigned to.  Every other declaration stays one.
-/

namespace Rebind.Code

open Rebind.Snippet

/-- The number of statements, classes and functions that may lie around one another. -/
def depthLimit : Nat := 256

/-- The template of a part of a snippet, or why there is none. -/
abbrev Result := Except RebindError Template

/-- Refuses a part that starts at an offset inside too many others. -/
def enter (depth start : Nat) : Except RebindError Unit :=
  if depth < depthLimit then .ok () else .error (.nestedTooDeep depthLimit start)

/-- What a statement is to the part it stands in. -/
inductive Role where
  /-- One statement of a list. -/
  | listed
  /-- The statement after labels, before which its names are registered. -/
  | afterLabels
  /-- The only statement between braces; if it is a block, the braces are its own. -/
  | inBraces
  /-- What follows `else` on the same line. -/
  | afterElse
  deriving Repr, DecidableEq

/-! ## Declarations -/

/-- Whether a declaration is written as assignments to properties of the global object. -/
def redirects (mode : ScopeMode) (d : Declaration) : Bool :=
  d.kind == .variable && mode.redirectsVar

/-- The names that a statement makes properties of the global object before it runs. -/
def registeredNames (mode : ScopeMode) : Statement → List String
  | .declaration _ d
  | .forLoop _ (some (.declaration d)) _ _ _
  | .forIn _ (.declaration d) _ _
  | .forOf _ _ (.declaration d) _ _ => if redirects mode d then d.names else []
  | _ => []

/-- The call that registers the names of a statement. -/
def registration (mode : ScopeMode) (s : Statement) : Template :=
  Template.registration .global (registeredNames mode s)

/-- The statement that labels stand before. -/
def unlabeled : Statement → Statement
  | .labeled _ _ body => unlabeled body
  | s => s

/-! ## Words and names -/

/-- A jump to the end or to the next round of a statement, which it can name. -/
def jumpText (kind : Jump) (label : Option String) : String :=
  (match kind with
    | .leave => "break"
    | .next => "continue") ++
  match label with
    | some label => " " ++ label
    | none => ""

/-- A jump as a statement. -/
def jumpLine (kind : Jump) (label : Option String) : Template :=
  Template.fixed (jumpText kind label) ++ Template.endStatement

/-- Labels before a statement. -/
def labelsBefore (labels : List String) : Template :=
  Template.write (labels.map fun label => .text (label ++ ": "))

/-- The property of the global object that a function becomes. -/
def functionTarget (name : String) : Template :=
  [Step.enter (.sink .global) [name], .write (.slot .globalObject),
    .write (.text ("[" ++ Text.quoted name ++ "] = "))]

/-- The property of the scope object that a class becomes. -/
def classTarget (name : String) : Template :=
  Template.registration .scope [name] ++ Template.fixed (name ++ " = ")

/-- The registration before a statement; after labels it stands before them. -/
def registrationUnless (role : Role) (mode : ScopeMode) (s : Statement) : Template :=
  if role = .afterLabels then [] else registration mode s

/-! ## Refused parts -/

def namelessFunction (start : Nat) : RebindError :=
  .unexpectedNode "anonymous function" "function declaration" start

def namelessClass (start : Nat) : RebindError :=
  .unexpectedNode "anonymous class" "class declaration" start

def nestedModuleItem (start : Nat) : RebindError :=
  .unexpectedNode "module declaration" "nested statement" start

/-! ## Declarations and heads -/

section

variable [Wording]

/-- A declaration of variables as a statement; those in `registeredNames` are registered. -/
def variableStatement (mode : ScopeMode) (d : Declaration) : Template :=
  if (d.kind == .lexical || d.kind == .constant) && mode.redirectsLexical then
    Template.registration .scope d.names ++
      (if d.kind == .constant then [Step.enter .constants d.names] else []) ++
      Template.write (assignments d) ++ Template.endStatement
  else if redirects mode d then Template.write (assignments d) ++ Template.endStatement
  else Template.write (declaration d) ++ Template.endStatement

/-- The first part of the head of a counting loop. -/
def loopStart (mode : ScopeMode) : LoopStart → Fragment
  | .declaration d => if redirects mode d then assignments d else declaration d
  | .expression value => expression value

/-- What a loop over keys or values assigns to if its head declares properties: the first target of
the declaration.  A name `async` before `of` stands in parentheses. -/
def assignedTarget (isOf : Bool) (d : Declaration) : Fragment :=
  match d.declarators with
  | [] => []
  | first :: _ =>
    let target := pattern first.target
    if isOf && Wording.reads target "async" then [Piece.text "(async)"] else target

/-- What a loop over keys or values assigns to. -/
def loopTarget (mode : ScopeMode) (isOf : Bool) : LoopTarget → Fragment
  | .declaration d => if redirects mode d then assignedTarget isOf d else declaration d
  | .place value => expression value

/-- A keyword with an expression in parentheses, before a body. -/
def headed (word : String) (value : Expression) : Template :=
  Template.write ([Piece.text (word ++ " (")] ++ expression value ++ [Piece.text ") "])

/-- A value after a blank, if there is one. -/
def optionalValue : Option Expression → Fragment
  | some value => [Piece.text " "] ++ expression value
  | none => []

/-- What follows the body of a loop with its condition at the end. -/
def doTail (test : Expression) : Template :=
  Template.write ([Piece.text " while ("] ++ expression test ++ [Piece.text ")"]) ++
    Template.endStatement

/-- The head of a counting loop past its first part. -/
def forTail (test update : Option Expression) : Template :=
  Template.write ([Piece.text ";"] ++ optionalValue test ++ [Piece.text ";"] ++
    optionalValue update ++ [Piece.text ") "])

/-- The head of a counting loop. -/
def forHead (mode : ScopeMode) (init : Option LoopStart)
    (test update : Option Expression) : Template :=
  Template.write ([Piece.text "for ("] ++ (init.map (loopStart mode)).getD []) ++
    forTail test update

/-- The head of a loop over keys or values past what it assigns to. -/
def targetTail (word : String) (value : Expression) : Template :=
  Template.write ([Piece.text word] ++ expression value ++ [Piece.text ") "])

/-- The head of a loop over keys. -/
def forInHead (mode : ScopeMode) (target : LoopTarget) (object : Expression) : Template :=
  Template.write ([Piece.text "for ("] ++ loopTarget mode false target) ++
    targetTail " in " object

/-- The head of a loop over values. -/
def forOfHead (mode : ScopeMode) (isAwait : Bool) (target : LoopTarget) (values : Expression) :
    Template :=
  Template.write ([Piece.text (if isAwait then "for await (" else "for (")] ++
    loopTarget mode true target) ++ targetTail " of " values

/-- The line that begins a clause of a choice. -/
def caseLabel : Option Expression → Template
  | some test => Template.write ([Piece.text "case "] ++ expression test ++ [Piece.text ":"])
  | none => Template.fixed "default:"

/-- What stands before the body of a handler. -/
def catchHead (parameter : Option Pattern) : Template :=
  Template.write ([Piece.text " catch "] ++ match parameter with
    | some p => [Piece.text "("] ++ pattern p ++ [Piece.text ") "]
    | none => [])

/-- A function up to its body. -/
def functionHead (callable : Callable) (isNamed : Bool) : Template :=
  let name : Fragment := match callable.name with
    | some name => if isNamed then [Piece.text (" " ++ name)] else [Piece.text " "]
    | none => [Piece.text " "]
  Template.write ((if callable.isAsync then [Piece.text "async "] else []) ++
    [Piece.text (if callable.isGenerator then "function*" else "function")] ++ name ++
    [Piece.text "("] ++ parameters callable ++ [Piece.text ") "])

/-- The decorators of a class or member. -/
def decorators (values : List Expression) : Fragment :=
  values.flatMap fun value => [Piece.text "@"] ++ expression value ++ [Piece.text " "]

/-- A method up to its body. -/
def methodHead (values : List Expression) (isStatic : Bool) (kind : MethodKind)
    (name : Key) (callable : Callable) : Template :=
  let word := match kind with
    | .plain => ""
    | .getter => "get "
    | .setter => "set "
  Template.write (decorators values ++ (if isStatic then [Piece.text "static "] else []) ++
    (if callable.isAsync then [Piece.text "async "] else []) ++
    (if callable.isGenerator then [Piece.text "*"] else []) ++ [Piece.text word] ++ key name ++
    [Piece.text "("] ++ parameters callable ++ [Piece.text ") "])

/-- A field of a class. -/
def field (values : List Expression) (isStatic isAccessor : Bool) (name : Key)
    (value : Option Expression) : Template :=
  Template.write (decorators values ++ (if isStatic then [Piece.text "static "] else []) ++
    (if isAccessor then [Piece.text "accessor "] else []) ++ key name ++ [Piece.text " = "] ++
    valueOrVoid value) ++ Template.endStatement

/-- A class up to its body. -/
def classHead (definition : ClassDefinition) : Template :=
  let name : Fragment := match definition.name with
    | some name => [Piece.text (name ++ " ")]
    | none => []
  let heritage : Fragment := match definition.heritage with
    | some value => [Piece.text "extends "] ++ expression value ++ [Piece.text " "]
    | none => []
  Template.write (decorators definition.decorators ++ [Piece.text "class "] ++ name ++ heritage)

/-- The end of a function, with the value that it gives. -/
def returnLine (value : Option Expression) : Template :=
  Template.write ([Piece.text "return"] ++ optionalValue value) ++ Template.endStatement

def throwLine (value : Expression) : Template :=
  Template.write ([Piece.text "throw "] ++ expression value) ++ Template.endStatement

/-- An expression as a statement. -/
def expressionLine (value : Expression) : Template :=
  Template.write (expression value) ++ Template.endStatement

/-- A directive as a statement. -/
def directive (span : Text.Span) : Template :=
  Template.write (Wording.stripped [Piece.copy span]) ++ Template.endStatement

end

/-! ## Statements -/

section

variable [Wording]

mutual

/-- The template of a statement at a depth. -/
def statement (mode : ScopeMode) (depth : Nat) (role : Role) : Statement → Result
  | .block start body => do
    if role = .inBraces then return ← statements mode.nested depth body
    enter depth start
    let body ← statements mode.nested (depth + 1) body
    return Template.braced body ++ [Step.newline]
  | .conditional start test consequent alternate => do
    enter depth start
    let consequent ← statement mode.nested (depth + 1) .inBraces consequent
    let alternate ← elseArm mode (depth + 1) alternate
    return headed "if" test ++ Template.braced consequent ++ alternate ++
      (if role = .afterElse then [] else [Step.newline])
  | .whileLoop start test body => do
    enter depth start
    let body ← statement mode.nested (depth + 1) .inBraces body
    return headed "while" test ++ Template.braced body ++ [Step.newline]
  | .doLoop start body test => do
    enter depth start
    let body ← statement mode.nested (depth + 1) .inBraces body
    return Template.fixed "do " ++ Template.braced body ++ doTail test
  | .forLoop start init test update body => do
    enter depth start
    let loop := Statement.forLoop start init test update body
    let inner ← statement mode.nested (depth + 1) .inBraces body
    return registrationUnless role mode loop ++
      forHead mode init test update ++ Template.braced inner ++ [Step.newline]
  | .forIn start target object body => do
    enter depth start
    let loop := Statement.forIn start target object body
    let inner ← statement mode.nested (depth + 1) .inBraces body
    return registrationUnless role mode loop ++
      forInHead mode target object ++ Template.braced inner ++ [Step.newline]
  | .forOf start isAwait target values body => do
    enter depth start
    let loop := Statement.forOf start isAwait target values body
    let inner ← statement mode.nested (depth + 1) .inBraces body
    return registrationUnless role mode loop ++
      forOfHead mode isAwait target values ++ Template.braced inner ++ [Step.newline]
  | .choice start value clauses => do
    enter depth start
    let clauses ← cases mode.nested (depth + 1) clauses
    return headed "switch" value ++ Template.braced clauses ++ [Step.newline]
  | .attempt start body handler finalizer => do
    enter depth start
    let body ← statements mode.nested (depth + 1) body
    let handler ← handlerArm mode.nested (depth + 1) handler
    let finalizer ← finalizerArm mode.nested (depth + 1) finalizer
    return Template.fixed "try " ++ Template.braced body ++ handler ++ finalizer ++ [Step.newline]
  | .withObject start object body => do
    enter depth start
    let body ← statement mode.nested (depth + 1) .inBraces body
    return headed "with" object ++ Template.braced body ++ [Step.newline]
  | .labeled start labels body => do
    -- Labels after labels belong to the same statement.
    if role = .afterLabels then
      return labelsBefore labels ++ (← statement mode.nested depth .afterLabels body)
    enter depth start
    let inner ← statement mode.nested (depth + 1) .afterLabels body
    return registration mode.nested (unlabeled body) ++ labelsBefore labels ++ inner
  | .returnValue start value => do
    enter depth start
    return returnLine value
  | .throwValue start value => do
    enter depth start
    return throwLine value
  | .jump start kind label => do
    enter depth start
    return jumpLine kind label
  | .expression start value => do
    enter depth start
    return expressionLine value
  | .idle start => do
    enter depth start
    return []
  | .declaration start d => do
    enter depth start
    return registrationUnless role mode (.declaration start d) ++
      variableStatement mode d
  | .function start callable => do
    enter depth start
    match callable.name with
    | none => throw (namelessFunction start)
    | some name =>
      let body ← callableBody (depth + 1) callable
      if mode.redirectsVar then
        return functionTarget name ++ functionHead callable false ++ body ++ Template.endStatement
      return functionHead callable true ++ body ++ [Step.newline]
  | .classDeclaration start definition => do
    enter depth start
    if mode.redirectsLexical then
      match definition.name with
      | none => throw (namelessClass definition.start)
      | some name =>
        let inner ← classDefinition (depth + 1) definition
        return classTarget name ++ inner ++ Template.endStatement
    else
      let inner ← classDefinition (depth + 1) definition
      return inner ++ [Step.newline]
  | .moduleItem start => do
    enter depth start
    if mode = .topLevel then return []
    throw (nestedModuleItem start)

/-- The templates of statements, one after the other. -/
def statements (mode : ScopeMode) (depth : Nat) : List Statement → Result
  | [] => .ok []
  | s :: rest => do
    let first ← statement mode depth .listed s
    let rest ← statements mode depth rest
    return first ++ rest

/-- What stands for the part of a conditional that starts with `else`. -/
def elseArm (mode : ScopeMode) (depth : Nat) : Option Statement → Result
  | none => .ok []
  | some s => do
    if s matches .conditional _ _ _ _ then
      return Template.fixed " else " ++ (← statement mode depth .afterElse s)
    return Template.fixed " else " ++ Template.braced (← statement mode.nested depth .inBraces s)

/-- The clauses of a choice. -/
def cases (mode : ScopeMode) (depth : Nat) : List Case → Result
  | [] => .ok []
  | ⟨test, body⟩ :: rest => do
    let body ← statements mode depth body
    let rest ← cases mode depth rest
    return caseLabel test ++ [Step.newline, .indent] ++ body ++ [Step.dedent] ++ rest

/-- The handler of an attempt. -/
def handlerArm (mode : ScopeMode) (depth : Nat) : Option Handler → Result
  | none => .ok []
  | some ⟨parameter, body⟩ => do
    let body ← statements mode depth body
    return catchHead parameter ++ Template.braced body

/-- What runs after an attempt in any case. -/
def finalizerArm (mode : ScopeMode) (depth : Nat) : Option (List Statement) → Result
  | none => .ok []
  | some body => do
    let body ← statements mode depth body
    return Template.fixed " finally " ++ Template.braced body

/-- The body of a function or method. -/
def callableBody (depth : Nat) : Callable → Result
  | ⟨_, _, _, _, _, body⟩ => functionBody depth body

/-- The directives and statements of a function between braces. -/
def functionBody (depth : Nat) : Body → Result
  | ⟨start, directives, body⟩ => do
    enter depth start
    let body ← statements .functionBody (depth + 1) body
    return Template.braced (directives.flatMap directive ++ body)

/-- A class, from its decorators to its closing brace. -/
def classDefinition (depth : Nat) : ClassDefinition → Result
  | ⟨start, decorators, name, heritage, members⟩ => do
    enter depth start
    let inner ← elements (depth + 1) members
    return classHead ⟨start, decorators, name, heritage, []⟩ ++ Template.braced inner

/-- The members of a class. -/
def elements (depth : Nat) : List Element → Result
  | [] => .ok []
  | e :: rest => do
    let first ← element depth e
    let rest ← elements depth rest
    return first ++ rest

/-- A member of a class. -/
def element (depth : Nat) : Element → Result
  | .staticBlock start body => do
    enter depth start
    let body ← statements .functionBody (depth + 1) body
    return Template.fixed "static " ++ Template.braced body ++ [Step.newline]
  | .method values isStatic kind name callable => do
    let body ← callableBody depth callable
    return methodHead values isStatic kind name callable ++ body ++ [Step.newline]
  | .field values isStatic isAccessor name value =>
    .ok (field values isStatic isAccessor name value)

end

end

/-! ## In a template -/

theorem directive_eq (span : Text.Span) :
    directive span = .write (.copy span) :: Template.endStatement := rfl

theorem assignedTarget_cons (isOf : Bool) {d : Declaration} {first : Declarator}
    {rest : List Declarator} (h : d.declarators = first :: rest) :
    assignedTarget isOf d =
      if isOf = true ∧ pattern first.target = [Piece.text "async"] then [Piece.text "(async)"]
      else pattern first.target := by
  simp [assignedTarget, h, Wording.reads]

end Rebind.Code
