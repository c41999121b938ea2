import Rebind.Grammar.ModuleItem

/-!
# Statements
-/

namespace Rebind.Grammar

open Rebind.Text (Span)
open Rebind.Snippet
open Rebind.Grammar.Parser

/-- An expression with commas, copied from the source. -/
def expression (g : Productions) (ctx : Context) : Parser Expression :=
  copied (sequence g ctx.inBrackets)

/-- An expression in parentheses that belong to the statement. -/
def head (g : Productions) (ctx : Context) : Parser Expression := do
  expectMark "("
  let value ← expression g ctx
  expectMark ")"
  return value

/-- An expression with commas, unless the place is one at which it is left out. -/
def optionalExpression (g : Productions) (ctx : Context) (isAbsent : Bool) :
    Parser (Option Expression) := do
  if isAbsent then return none
  return some (← expression g ctx)

/-- Refuses a declaration as the body of another statement. -/
def requireListed (placement : Placement) (start : Nat) : Parser Unit := do
  if placement == .alone then fail .misplacedDeclaration (← spanFrom start)

/-! ## Declarations -/

/-- A declaration of variables past its keyword. -/
def variableStatement (g : Productions) (ctx : Context) (kind : DeclarationKind)
    (start : Nat) : Parser Statement := do
  let declaration ← declaration g ctx.inBrackets kind true
  endStatement
  return .declaration start declaration

/-- A declaration that stands only in a list of statements, past its keyword. -/
def listedVariables (g : Productions) (ctx : Context) (placement : Placement)
    (kind : DeclarationKind) (start : Nat) : Parser Statement := do
  let statement ← variableStatement g ctx kind start
  requireListed placement start
  return statement

/-- A function declaration.  As the body of another statement it has to be a plain one. -/
def functionDeclaration (g : Productions) (ctx : Context) (placement : Placement) :
    Parser Statement := do
  let start ← position
  let isAsync ← eatKeyword "async"
  let callable ← function g ctx isAsync .required
  if isAsync || callable.isGenerator then requireListed placement start
  return .function start callable

/-- A class declaration past its decorators. -/
def classDeclaration (g : Productions) (ctx : Context) (placement : Placement) (start : Nat)
    (decorators : List Expression) : Parser Statement := do
  let definition ← classDefinition g ctx start decorators
  requireListed placement start
  return .classDeclaration start definition

/-- A class or an export with decorators before it. -/
def decoratedStatement (g : Productions) (ctx : Context) (placement : Placement) :
    Parser Statement := do
  let start ← position
  let decorators ← decorators g ctx
  if ← atKeyword "export" then return ← exportDeclaration g ctx true
  unless ← atKeyword "class" do unexpected
  classDeclaration g ctx placement start decorators

/-! ## Expressions and labels -/

/-- An expression, or a label with the statement that it names. -/
def expressionOrLabel (g : Productions) (ctx : Context) : Parser Statement := do
  let start ← position
  let count := (← get).hosts.length
  let term ← sequence g ctx.inBrackets
  if let .name label := term.shape then
    if ← eatMark ":" then return .label start label (← g.statement ctx .alone)
  let span ← term.value
  let hosts ← hostsSince count
  endStatement
  return .expression start ⟨span, hosts⟩

/-- Whether a token after the word `let` goes on with an expression that `let` is the first operand
of. -/
def isOperatorAfterLet (ctx : Context) (token : Token) : Bool :=
  isAssignmentOperator token ||
    match strength? ctx.inBrackets token with
    | some strength => strength > 3
    | none => false

/-- A statement that starts with the word `let`.  It declares unless an operator, a property or
call, or a semicolon follows; as the body of another statement it declares only before a
bracket, and is refused then.  Before a property or call the expression alone is the statement, so
that a semicolon after it is a statement of its own. -/
def letStatement (g : Productions) (ctx : Context) (placement : Placement) :
    Parser Statement := do
  let word ← current
  let next ← peek
  if isOperatorAfterLet ctx next.token then
    let value ← copied (g.assignment ctx.inBrackets)
    endStatement
    return .expression word.start value
  if isMark next.token "." || isMark next.token "(" then
    return .expression word.start (← expression g ctx)
  if (placement == .alone && !isMark next.token "[") || isMark next.token ";" then
    advance
    endStatement
    return .expression word.start ⟨⟨word.start, word.stop⟩, []⟩
  advance
  listedVariables g ctx placement .lexical word.start

/-! ## Resources -/

/-- Whether a name follows a lexeme on its line. -/
def nameFollows (ctx : Context) (lexeme : Lexeme) : Parser Bool := do
  let next ← Lexeme.scan lexeme.stop lexeme.rest
  return (name? ctx next.token).isSome && !next.afterBreak

/-- The kind of resource declaration that comes next. -/
def resourceKind? (ctx : Context) : Parser (Option DeclarationKind) := do
  let lexeme ← current
  if isKeyword lexeme.token "using" then
    return if ← nameFollows ctx lexeme then some .resource else none
  if isKeyword lexeme.token "await" then
    let next ← peek
    if isKeyword next.token "using" && !next.afterBreak then
      return if ← nameFollows ctx next then some .awaitedResource else none
  return none

/-- Moves past the keywords of a resource declaration. -/
def skipResourceKeywords (ctx : Context) (kind : DeclarationKind) : Parser Unit := do
  if kind == .awaitedResource then
    unless ctx.allowsAwait do unexpected
    advance
  advance

/-- A declaration of resources, or an expression that starts with the same word. -/
def resourceStatement (g : Productions) (ctx : Context) (placement : Placement) :
    Parser Statement := do
  let start ← position
  match ← resourceKind? ctx with
  | some kind =>
    skipResourceKeywords ctx kind
    listedVariables g ctx placement kind start
  | none => expressionOrLabel g ctx

/-! ## Loops -/

/-- Checks that the first part of a head suits a counting loop, which never awaits. -/
def checkLoopStart (isAwait : Bool) (init : Option LoopStart) : Parser Unit := do
  if let some (.declaration declaration) := init then
    declaration.declarators.forM (requireValue declaration.kind)
  if isAwait then unexpected

/-- A counting loop from the first semicolon of its head on. -/
def forRest (g : Productions) (ctx : Context) (start : Nat) (isAwait : Bool)
    (init : Option LoopStart) : Parser Statement := do
  checkLoopStart isAwait init
  expectMark ";"
  let test ← optionalExpression g ctx ((← atMark ";") || (← atMark ")"))
  expectMark ";"
  let update ← optionalExpression g ctx (← atMark ")")
  expectMark ")"
  return .forLoop start init test update (← g.statement ctx .alone)

/-- A loop over keys or values from the word `in` or `of` on. -/
def forEachRest (g : Productions) (ctx : Context) (start : Nat) (isAwait : Bool)
    (target : LoopTarget) : Parser Statement := do
  if ← eatKeyword "of" then
    let values ← copied (g.assignment ctx.inBrackets)
    expectMark ")"
    return .forOf start isAwait target values (← g.statement ctx .alone)
  if isAwait then unexpected
  expectKeyword "in"
  let object ← expression g ctx
  expectMark ")"
  return .forIn start target object (← g.statement ctx .alone)

/-- Whether the head of a loop over keys or values comes next. -/
def atForEach : Parser Bool := do
  return (← atKeyword "of") || (← atKeyword "in")

/-- The head of a loop that starts with a declaration, past its keywords. -/
def forDeclaration (g : Productions) (ctx : Context) (start : Nat) (isAwait : Bool)
    (kind : DeclarationKind) : Parser Statement := do
  let declaration ← declaration g { ctx with allowsIn := false } kind false
  if ← atForEach then
    if (kind == .resource || kind == .awaitedResource) && (← atKeyword "in") then unexpected
    return ← forEachRest g ctx start isAwait (.declaration declaration)
  forRest g ctx start isAwait (some (.declaration declaration))

/-- Whether the expression that comes next cannot stand before `of`: one that starts with `let`, or
with the words `async of` if the loop does not await. -/
def isAmbiguousBeforeOf (isAwait : Bool) : Parser Bool := do
  if ← atKeyword "let" then return true
  unless ← atKeyword "async" do return false
  return isKeyword (← peek).token "of" && !isAwait

/-- The head of a loop that starts with an expression. -/
def forExpression (g : Productions) (ctx : Context) (start : Nat) (isAwait : Bool) :
    Parser Statement := do
  let first ← current
  let isAmbiguous ← isAmbiguousBeforeOf isAwait
  let count := (← get).hosts.length
  let term ← sequence g { ctx with allowsIn := false }
  if ← atForEach then
    if (← atKeyword "of") && isAmbiguous then
      fail .unexpectedToken ⟨first.start, first.stop⟩
    if let some span := term.targetObstacle then fail .notAssignable span
    let place : Expression := ⟨term.place, ← hostsSince count⟩
    return ← forEachRest g ctx start isAwait (.place place)
  let span ← term.value
  forRest g ctx start isAwait (some (.expression ⟨span, ← hostsSince count⟩))

/-- A resource declaration in the head of a loop, where `using of` is no declaration. -/
def loopResourceKind? (ctx : Context) : Parser (Option DeclarationKind) := do
  if ← atKeyword "using" then
    if isKeyword (← peek).token "of" then return none
  resourceKind? ctx

/-- Whether `let` declares before a token in the head of a loop. -/
def declaresAfterLet (token : Token) : Bool :=
  match token with
  | .word word _ => word != "in"
  | token => isMark token "[" || isMark token "\x7b"

/-- Moves past the keywords of a resource declaration in the head of a loop, if one comes next. -/
def eatLoopResource (ctx : Context) : Parser (Option DeclarationKind) := do
  match ← loopResourceKind? ctx with
  | some kind =>
    skipResourceKeywords ctx kind
    return some kind
  | none => return none

/-- Moves past the keywords of the declaration that comes next in the head of a loop, if one does.
The answer is its kind. -/
def eatLoopKeywords (ctx : Context) : Parser (Option DeclarationKind) := do
  if ← eatKeyword "var" then return some .variable
  if ← eatKeyword "const" then return some .constant
  if ← atKeyword "let" then
    if declaresAfterLet (← peek).token then
      advance
      return some .lexical
  eatLoopResource ctx

/-- Moves past the word `await` of a loop if it comes next. -/
def eatAwait (ctx : Context) : Parser Bool := do
  unless ← atKeyword "await" do return false
  unless ctx.allowsAwait do unexpected
  advance
  return true

/-- A loop that starts with the word `for`. -/
def forStatement (g : Productions) (ctx : Context) : Parser Statement := do
  let start ← position
  advance
  let isAwait ← eatAwait ctx
  expectMark "("
  if ← atMark ";" then return ← forRest g ctx start isAwait none
  match ← eatLoopKeywords ctx with
  | some kind => forDeclaration g ctx start isAwait kind
  | none => forExpression g ctx start isAwait

/-- A loop that tests before each round. -/
def whileStatement (g : Productions) (ctx : Context) : Parser Statement := do
  let start ← position
  advance
  let test ← head g ctx
  return .whileLoop start test (← g.statement ctx .alone)

/-- A loop that tests after each round.  It needs no semicolon. -/
def doStatement (g : Productions) (ctx : Context) : Parser Statement := do
  let start ← position
  advance
  let body ← g.statement ctx .alone
  expectKeyword "while"
  let test ← head g ctx
  let _ ← eatMark ";"
  return .doLoop start body test

/-! ## Choices and jumps -/

/-- The part of a conditional from `else` on, if there is one. -/
def elseBranch (g : Productions) (ctx : Context) : Parser (Option Statement) := do
  if ← eatKeyword "else" then return some (← g.statement ctx .alone)
  return none

def ifStatement (g : Productions) (ctx : Context) : Parser Statement := do
  let start ← position
  advance
  let test ← head g ctx
  let consequent ← g.statement ctx .alone
  return .conditional start test consequent (← elseBranch g ctx)

/-- The test of a clause; the default clause has none. -/
def caseTest (g : Productions) (ctx : Context) : Parser (Option Expression) := do
  if ← eatKeyword "default" then return none
  unless ← eatKeyword "case" do unexpected
  return some (← expression g ctx)

/-- Refuses a resource as a statement of a clause. -/
def refuseResource (start : Nat) (s : Statement) : Parser Unit := do
  if let .declaration _ declaration := s then
    if declaration.kind == .resource || declaration.kind == .awaitedResource then
      fail .resourceInClause (← spanFrom start)

/-- The statements of a clause, up to the next clause or the end of the choice. -/
def caseBody (g : Productions) (ctx : Context) : Parser (List Statement) := do
  repeatFrom ([] : List Statement) fun statements => do
    if (← atKeyword "case") || (← atKeyword "default") || (← atMark "\x7d") || (← atEnd) then
      return .inr statements.reverse
    let start ← position
    let statement ← g.statement ctx .listed
    refuseResource start statement
    return .inl (statement :: statements)

/-- A clause of a choice. -/
def switchCase (g : Productions) (ctx : Context) : Parser Case := do
  let test ← caseTest g ctx
  expectMark ":"
  return ⟨test, ← caseBody g ctx⟩

def switchStatement (g : Productions) (ctx : Context) : Parser Statement := do
  let start ← position
  advance
  let value ← head g ctx
  expectMark "\x7b"
  let cases ← repeatFrom ([] : List Case) fun cases => do
    if (← atMark "\x7d") || (← atEnd) then return .inr cases.reverse
    return .inl ((← switchCase g ctx) :: cases)
  expectMark "\x7d"
  return .choice start value cases

/-- The pattern that takes the thrown value, if there is one. -/
def catchParameter (g : Productions) (ctx : Context) : Parser (Option Pattern) := do
  unless ← eatMark "(" do return none
  let pattern ← g.pattern ctx
  expectMark ")"
  return some pattern

/-- The handler of an attempt, if it has one. -/
def catchClause (g : Productions) (ctx : Context) : Parser (Option Handler) := do
  unless ← eatKeyword "catch" do return none
  let parameter ← catchParameter g ctx
  return some ⟨parameter, ← bracedStatements g ctx⟩

/-- What runs after an attempt in any case, if there is such a part. -/
def finallyClause (g : Productions) (ctx : Context) : Parser (Option (List Statement)) := do
  unless ← eatKeyword "finally" do return none
  return some (← bracedStatements g ctx)

def tryStatement (g : Productions) (ctx : Context) : Parser Statement := do
  let start ← position
  advance
  let body ← bracedStatements g ctx
  let handler ← catchClause g ctx
  let finalizer ← finallyClause g ctx
  if handler.isNone && finalizer.isNone then
    fail .incompleteStatement (← spanFrom start)
  return .attempt start body handler finalizer

def withStatement (g : Productions) (ctx : Context) : Parser Statement := do
  let start ← position
  advance
  let object ← head g ctx
  return .withObject start object (← g.statement ctx .alone)

def returnStatement (g : Productions) (ctx : Context) : Parser Statement := do
  let start ← position
  unless ctx.allowsReturn do unexpected
  advance
  let value ← optionalExpression g ctx (← atImplicitEnd)
  endStatement
  return .returnValue start value

def throwStatement (g : Productions) (ctx : Context) : Parser Statement := do
  let start ← position
  advance
  if (← current).afterBreak then unexpected
  let value ← expression g ctx
  endStatement
  return .throwValue start value

/-- The label that a jump names, if it names one. -/
def jumpLabel (ctx : Context) : Parser (Option String) := do
  if ← atImplicitEnd then return none
  return some (← name ctx).1

def jumpStatement (ctx : Context) (kind : Jump) : Parser Statement := do
  let start ← position
  advance
  let label ← jumpLabel ctx
  endStatement
  return .jump start kind label

/-! ## All statements -/

/-- A statement that starts with a keyword written without escapes. -/
def keywordStatement (g : Productions) (ctx : Context) (placement : Placement)
    (word : String) : Parser Statement := do
  let start ← position
  match word with
  | "if" => ifStatement g ctx
  | "do" => doStatement g ctx
  | "while" => whileStatement g ctx
  | "for" => forStatement g ctx
  | "break" => jumpStatement ctx .leave
  | "continue" => jumpStatement ctx .next
  | "with" => withStatement g ctx
  | "switch" => switchStatement g ctx
  | "throw" => throwStatement g ctx
  | "try" => tryStatement g ctx
  | "return" => returnStatement g ctx
  | "debugger" =>
    advance
    endStatement
    return .idle start
  | "class" => classDeclaration g ctx placement start []
  | "function" => functionDeclaration g ctx placement
  | "var" =>
    advance
    variableStatement g ctx .variable start
  | "const" =>
    advance
    listedVariables g ctx placement .constant start
  | "let" => letStatement g ctx placement
  | "export" => exportDeclaration g ctx false
  | "import" =>
    let next ← peek
    if isMark next.token "." || isMark next.token "(" then expressionOrLabel g ctx
    else importDeclaration ctx
  | "async" =>
    let next ← peek
    if isKeyword next.token "function" && !next.afterBreak then
      functionDeclaration g ctx placement
    else expressionOrLabel g ctx
  | "using" | "await" => resourceStatement g ctx placement
  | _ => expressionOrLabel g ctx

/-- A statement. -/
def statement (g : Productions) (ctx : Context) (placement : Placement) : Parser Statement := do
  let lexeme ← current
  match lexeme.token with
  | .punctuator "\x7b" => return .block lexeme.start (← bracedStatements g ctx)
  | .punctuator ";" =>
    advance
    return .idle lexeme.start
  | .punctuator "@" => decoratedStatement g ctx placement
  | .word word false => keywordStatement g ctx placement word
  | _ => expressionOrLabel g ctx

end Rebind.Grammar
