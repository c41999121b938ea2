import Rebind.Grammar.Function

/-!
# Classes
-/

namespace Rebind.Grammar

open Rebind.Text (Span)
open Rebind.Snippet
open Rebind.Grammar.Parser

/-- The decorators before a class or a member. -/
def decorators (g : Productions) (ctx : Context) : Parser (List Expression) := do
  repeatFrom ([] : List Expression) fun found => do
    unless ← eatMark "@" do return .inr found.reverse
    let value ← copied (g.access { ctx with allowsIn := true, inDecorator := true } true)
    return .inl (value :: found)

/-- Moves past a word that changes the member after it: a word that the name of a member follows.
`async` and `accessor` need the name on their line, `static` and `async` may have a star after
them, and `static` a block. -/
def eatModifier (word : String) : Parser Bool := do
  unless ← atKeyword word do return false
  let next ← peek
  let applies :=
    if word == "static" then
      startsKey next.token || isMark next.token "*" || isMark next.token "\x7b"
    else if word == "async" then
      !next.afterBreak && (startsKey next.token || isMark next.token "*")
    else if word == "accessor" then !next.afterBreak && startsKey next.token
    else startsKey next.token
  if applies then advance
  return applies

/-- Whether a member read as a getter or setter. -/
def accessorKind : Parser MethodKind := do
  if ← eatModifier "get" then return .getter
  if ← eatModifier "set" then return .setter
  return .plain

/-- Refuses the names that a method cannot have. -/
def checkMethodName (isStatic isPlain : Bool) (name : Option String) (span : Span) :
    Parser Unit := do
  if isStatic && name == some "prototype" then fail .memberName span
  if !isStatic && !isPlain && name == some "constructor" then fail .memberName span

/-- Refuses the names that a field cannot have. -/
def checkFieldName (isStatic : Bool) (name : Option String) (span : Span) :
    Parser Unit := do
  if isStatic && name == some "prototype" then fail .memberName span
  if name == some "constructor" then fail .memberName span

/-- A field past its name. -/
def fieldRest (g : Productions) (ctx : Context) (decorators : List Expression)
    (isStatic isAccessor : Bool) (key : Key) : Parser Element := do
  let value ←
    if ← eatMark "=" then
      let ctx := { ctx.inBrackets with inGenerator := false, allowsAwait := false }
      pure (some (← copied (g.assignment ctx)))
    else pure none
  endStatement
  return .field decorators isStatic isAccessor key value

/-- What the words before the name of a member make of it. -/
structure ElementModifiers where
  isAccessor : Bool := false
  isAsync : Bool := false
  isGenerator : Bool := false
  kind : MethodKind := .plain

/-- The words before the name of a member, past `static`. -/
def elementModifiers : Parser ElementModifiers := do
  if ← eatModifier "accessor" then return { isAccessor := true }
  let isAsync ← eatModifier "async"
  let isGenerator ← eatMark "*"
  if isAsync || isGenerator then return { isAsync, isGenerator }
  return { kind := ← accessorKind }

/-- A member from its name on. -/
def elementRest (g : Productions) (ctx : Context) (decorators : List Expression) (isStatic : Bool)
    (modifiers : ElementModifiers) : Parser Element := do
  let { isAccessor, isAsync, isGenerator, kind } := modifiers
  let keyStart ← position
  let (key, name) ← key g ctx.inBrackets true
  let keySpan ← spanFrom keyStart
  if !isAccessor && (isAsync || isGenerator || kind != .plain || (← atMark "(")) then
    checkMethodName isStatic (kind == .plain && !isAsync && !isGenerator) name keySpan
    unless ← atMark "(" do unexpected
    return .method decorators isStatic kind key (← method g kind isAsync isGenerator)
  checkFieldName isStatic name keySpan
  fieldRest g ctx decorators isStatic isAccessor key

/-- A member of a class. -/
def classElement (g : Productions) (ctx : Context) : Parser Element := do
  let start ← position
  let decorators ← decorators g ctx
  let isStatic ← eatModifier "static"
  if isStatic && decorators.isEmpty && (← atMark "\x7b") then
    let ctx : Context := { allowsReturn := false }
    return .staticBlock start (← bracedStatements g ctx)
  elementRest g ctx decorators isStatic (← elementModifiers)

/-- The name of a class, if it has one. -/
def className (ctx : Context) : Parser (Option String) := do
  if (← atMark "\x7b") || (← atKeyword "extends") || (← atEnd) then return none
  return some (← name ctx).1

/-- The class that a class extends, if it extends one. -/
def classHeritage (g : Productions) (ctx : Context) : Parser (Option Expression) := do
  if ← eatKeyword "extends" then return some (← copied (g.access ctx.inBrackets true))
  return none

/-- The members of a class between its braces. -/
def classBody (g : Productions) (ctx : Context) : Parser (List Element) := do
  expectMark "\x7b"
  let elements ← repeatFrom ([] : List Element) fun elements => do
    if ← eatMark ";" then return .inl elements
    if (← atMark "\x7d") || (← atEnd) then return .inr elements.reverse
    return .inl ((← classElement g ctx) :: elements)
  expectMark "\x7d"
  return elements

/-- A class from the word `class` on. -/
def classDefinition (g : Productions) (ctx : Context) (start : Nat) (decorators : List Expression) :
    Parser ClassDefinition := do
  expectKeyword "class"
  let name ← className ctx
  let heritage ← classHeritage g ctx
  return { start, decorators, name, heritage, elements := ← classBody g ctx }

end Rebind.Grammar
