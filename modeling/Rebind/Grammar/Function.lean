import Rebind.Grammar.Pattern

/-!
# Functions
-/

namespace Rebind.Grammar

open Rebind.Text (Span)
open Rebind.Snippet
open Rebind.Grammar.Parser

/-- Statements up to a closing brace or the end of the source, with the string literals that
stand alone at their head split off as directives. -/
def directivesAndStatements (g : Productions) (ctx : Context) (isClosed : Bool) :
    Parser (List Span × List Statement) := do
  repeatFrom (([] : List Span), ([] : List Statement)) fun (directives, statements) => do
    let lexeme ← current
    if lexeme.token == .endOfInput || (isClosed && isMark lexeme.token "\x7d") then
      return .inr (directives.reverse, statements.reverse)
    let statement ← g.statement ctx .listed
    match statement, lexeme.token, statements with
    | .expression _ value, .string _ _, [] =>
      if value.span = ⟨lexeme.start, lexeme.stop⟩ then
        return .inl (value.span :: directives, [])
      return .inl (directives, [statement])
    | _, _, _ => return .inl (directives, statement :: statements)

/-- The statements between two braces. -/
def bracedStatements (g : Productions) (ctx : Context) : Parser (List Statement) := do
  expectMark "\x7b"
  let statements ← repeatFrom ([] : List Statement) fun statements => do
    if (← atMark "\x7d") || (← atEnd) then return .inr statements.reverse
    return .inl ((← g.statement ctx .listed) :: statements)
  expectMark "\x7d"
  return statements

/-- The body of a function. -/
def functionBody (g : Productions) (ctx : Context) : Parser Body := do
  let start ← position
  expectMark "\x7b"
  let (directives, statements) ← directivesAndStatements g ctx true
  expectMark "\x7d"
  return ⟨start, directives, statements⟩

/-- One parameter, or the rest parameter. -/
def parameter (g : Productions) (ctx : Context) :
    Parser (Sum Parameter (Pattern × Span)) := do
  let start ← position
  if ← eatMark "..." then
    let rest ← g.pattern ctx
    return .inr (rest, ← spanFrom start)
  let pattern ← g.pattern ctx
  if ← eatMark "=" then
    return .inl ⟨pattern, some (← copied (g.assignment ctx.inBrackets))⟩
  return .inl ⟨pattern, none⟩

/-- Splits parameters from the rest parameter, which has to be the last one without a comma
after it. -/
def splitParameters (comma : Option Span) :
    List (Sum Parameter (Pattern × Span)) → Parser (List Parameter × Option Pattern)
  | [] => return ([], none)
  | [.inr (rest, _)] => do
    match comma with
    | some span => fail .restNotLast span
    | none => return ([], some rest)
  | .inr (_, span) :: _ => fail .restNotLast span
  | .inl parameter :: parts => do
    let (parameters, rest) ← splitParameters comma parts
    return (parameter :: parameters, rest)

/-- A function from its parameters on. -/
def callable (g : Productions) (isAsync isGenerator : Bool) (name : Option String) :
    Parser Callable := do
  let ctx := Context.inFunction isAsync isGenerator
  expectMark "("
  let (parts, comma) ← separated ")" (parameter g ctx)
  let (parameters, rest) ← splitParameters comma parts
  expectMark ")"
  let body ← functionBody g ctx
  return { isAsync, isGenerator, name, parameters, rest, body }

/-- A method from its parameters on.  A getter takes none and a setter exactly one. -/
def method (g : Productions) (kind : MethodKind) (isAsync isGenerator : Bool) :
    Parser Callable := do
  let start ← position
  let callable ← callable g isAsync isGenerator none
  let fits := match kind with
    | .plain => true
    | .getter => callable.parameters.isEmpty && callable.rest.isNone
    | .setter => callable.parameters.length == 1 && callable.rest.isNone
  unless fits do fail .accessorParameters (← spanFrom start)
  return callable

/-- Where the name of a function comes from. -/
inductive Naming where
  /-- The name is bound around the function and has to be there. -/
  | required
  /-- The name is bound around the function and may be left out. -/
  | optional
  /-- The name is bound inside the function and may be left out. -/
  | inner

/-- A function from the word `function` on. -/
def function (g : Productions) (ctx : Context) (isAsync : Bool) (naming : Naming) :
    Parser Callable := do
  expectKeyword "function"
  let isGenerator ← eatMark "*"
  let name ← match naming with
    | .required => pure (some (← name ctx).1)
    | .optional =>
      if ← atMark "(" then pure none else pure (some (← name ctx).1)
    | .inner =>
      if ← atMark "(" then pure none
      else pure (some (← name { ctx with inGenerator := isGenerator }).1)
  callable g isAsync isGenerator name

end Rebind.Grammar
