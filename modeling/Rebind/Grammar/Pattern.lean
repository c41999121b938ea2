import Rebind.Grammar.Basic

/-!
# Binding patterns and declarations
-/

namespace Rebind.Grammar

open Rebind.Text (Span)
open Rebind.Snippet
open Rebind.Grammar.Parser

/-- A pattern with or without a default value. -/
def patternElement (g : Productions) (ctx : Context) : Parser Pattern := do
  let target ← g.pattern ctx
  if ← eatMark "=" then
    return .withDefault target (← copied (g.assignment ctx.inBrackets))
  return target

/-- One part of an array or object pattern, or its rest element. -/
inductive PatternPart (α : Type) where
  | part (value : α)
  | rest (pattern : Pattern) (span : Span)

/-- Splits the parts of a pattern from its rest element, which has to be the last one without a
comma after it. -/
def splitRest {α : Type} (comma : Option Span) :
    List (PatternPart α) → Parser (List α × Option Pattern)
  | [] => return ([], none)
  | [.rest pattern _] => do
    match comma with
    | some span => fail .restNotLast span
    | none => return ([], some pattern)
  | .rest _ span :: _ => fail .restNotLast span
  | .part value :: parts => do
    let (values, rest) ← splitRest comma parts
    return (value :: values, rest)

/-- A part of a pattern: a rest element or what `part` reads. -/
def patternPart {α : Type} (part : Parser α) (rest : Parser Pattern) :
    Parser (PatternPart α) := do
  let start ← position
  if ← eatMark "..." then
    let pattern ← rest
    return .rest pattern (← spanFrom start)
  return .part (← part)

/-- A property of an object pattern. -/
def patternProperty (g : Productions) (ctx : Context) : Parser (Key × Pattern) := do
  let lexeme ← current
  let (key, _) ← key g ctx false
  if ← eatMark ":" then return (key, ← patternElement g ctx)
  match name? ctx lexeme.token with
  | none => fail .unexpectedToken ⟨lexeme.start, lexeme.stop⟩
  | some text =>
    let target := .name text ⟨lexeme.start, lexeme.stop⟩
    if ← eatMark "=" then
      return (key, .withDefault target (← copied (g.assignment ctx.inBrackets)))
    return (key, target)

/-- The rest element of an object pattern, which is a plain name. -/
def restName (ctx : Context) : Parser Pattern := do
  let (text, span) ← name ctx
  return .name text span

/-- A binding pattern. -/
def pattern (g : Productions) (ctx : Context) : Parser Pattern := do
  let start ← position
  if ← eatMark "[" then
    let element : Parser (Option Pattern) := do
      if ← atMark "," then return none
      return some (← patternElement g ctx)
    let (parts, comma) ← separated "]" (patternPart element (g.pattern ctx))
    let (elements, rest) ← splitRest comma parts
    expectMark "]"
    return .array (← spanFrom start) elements rest
  if ← eatMark "\x7b" then
    let (parts, comma) ← separated "\x7d" (patternPart (patternProperty g ctx) (restName ctx))
    let (properties, rest) ← splitRest comma parts
    expectMark "\x7d"
    return .object (← spanFrom start) properties rest
  let (text, span) ← name ctx
  return .name text span

/-! ## Declarations -/

/-- Checks that a declarator has a value if its form needs one. -/
def requireValue (kind : DeclarationKind) (declarator : Declarator) : Parser Unit := do
  if declarator.value.isSome then return
  match declarator.target, kind with
  | .name _ _, .variable | .name _ _, .lexical => return
  | .name _ span, _ => fail .missingConstantValue span
  | target, _ => fail .missingPatternValue target.span

/-- One target of a declaration with its value.  A resource has to have a plain name. -/
def declarator (g : Productions) (ctx : Context) (kind : DeclarationKind) : Parser Declarator := do
  let target ←
    if kind == .resource || kind == .awaitedResource then
      let (text, span) ← name ctx
      pure (Pattern.name text span)
    else g.pattern ctx
  if ← eatMark "=" then return ⟨target, some (← copied (g.assignment ctx))⟩
  return ⟨target, none⟩

/-- The declarators of a declaration, past its keyword.  As a statement each of them is checked at
once for a missing value. -/
def declaration (g : Productions) (ctx : Context) (kind : DeclarationKind) (isStatement : Bool) :
    Parser Declaration := do
  repeatFrom [] fun declarators => do
    let declarator ← declarator g ctx kind
    if isStatement then requireValue kind declarator
    let declarators := declarator :: declarators
    if ← eatMark "," then return .inl declarators
    return .inr ⟨kind, declarators.reverse⟩

end Rebind.Grammar
