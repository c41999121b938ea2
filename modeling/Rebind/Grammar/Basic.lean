import Rebind.Grammar.Parser

/-!
# Productions and what they need from each other

The grammar nests: an expression holds functions, a function holds statements, a statement holds
expressions.  `Productions` holds the productions through which it does, and each module
defines its own over given ones.  The knot is tied once, by nesting depth, so no production is
defined by an unbounded recursion.

`Term` is an expression as the grammar sees it while it does not know yet what the expression is
for: an object literal may turn out to be a pattern, and a list in parentheses the parameters of
an arrow function.
-/

namespace Rebind.Grammar

open Rebind.Text (Span)
open Rebind.Snippet

/-- What the place of a production allows. -/
structure Context where
  /-- Whether `in` is an operator here. -/
  allowsIn : Bool := true
  /-- Whether the place lies directly in a generator, where `yield` is an operator. -/
  inGenerator : Bool := false
  /-- Whether `await` is an operator here.  It is never a name. -/
  allowsAwait : Bool := true
  /-- Whether the place lies in a decorator, which no bracket continues. -/
  inDecorator : Bool := false
  /-- Whether a statement here may return. -/
  allowsReturn : Bool := true

namespace Context

/-- The context inside brackets of any kind. -/
def inBrackets (ctx : Context) : Context :=
  { ctx with allowsIn := true, inDecorator := false }

/-- The context inside a function. -/
def inFunction (isAsync isGenerator : Bool) : Context :=
  { inGenerator := isGenerator, allowsAwait := isAsync }

end Context

/-- What an expression may still be read as. -/
inductive Shape where
  /-- A value only. -/
  | value
  /-- A string literal alone. -/
  | string
  | name (text : String)
  /-- The property of a value. -/
  | member
  /-- A name or property in parentheses. -/
  | enclosedPlace
  /-- An array or object literal.  It is a target unless the obstacle, a part of it, cannot be
  assigned to; `binds` says whether it is a binding pattern too. -/
  | literal (obstacle : Option Span) (binds : Bool)
  /-- A target with a default value, as `binds` says also a binding with a default value. -/
  | assignment (binds : Bool)
  /-- An expression made by `??`. -/
  | coalescing
  /-- An expression made by `||` or `&&`. -/
  | logical
  deriving Repr, DecidableEq, Inhabited

/-- An expression that has been read. -/
structure Term where
  span : Span
  shape : Shape
  /-- The expression without parentheses around it. -/
  place : Span
  /-- An `{a = b}` inside that is a fault unless the expression turns out to be a pattern. -/
  pending : Option Span := none
  deriving Inhabited

namespace Term

/-- A term that can only be a value. -/
def plain (span : Span) (shape : Shape := .value) : Term :=
  { span, shape, place := span }

/-- Whether the term is a single place. -/
def isPlace (term : Term) : Bool :=
  match term.shape with
  | .name _ | .member | .enclosedPlace => true
  | _ => false

/-- The part of the term that keeps it from being the target of an assignment. -/
def targetObstacle (term : Term) : Option Span :=
  match term.shape with
  | .name _ | .member | .enclosedPlace => none
  | .literal obstacle _ => obstacle
  | _ => some term.place

/-- The part of the term that keeps it from being a target with or without a default value. -/
def elementObstacle (term : Term) : Option Span :=
  match term.shape with
  | .assignment _ => none
  | _ => term.targetObstacle

/-- Whether the term is a binding pattern. -/
def binds (term : Term) : Bool :=
  match term.shape with
  | .name _ | .literal _ true => true
  | _ => false

/-- Whether the term is a binding pattern with or without a default value. -/
def bindsElement (term : Term) : Bool :=
  term.binds || term.shape == .assignment true

/-- The span of a term that is used for its value. -/
def value (term : Term) : Parser Span :=
  match term.pending with
  | some span => Parser.fail .valueInObjectLiteral span
  | none => return term.span

end Term

/-- Whether a statement stands in a list of statements or alone, as the body of another one. -/
inductive Placement where
  | listed
  | alone
  deriving Repr, DecidableEq

/-- The productions through which the grammar nests. -/
structure Productions where
  /-- An expression without commas. -/
  assignment : Context → Parser Term
  /-- An operand, with the unary operators before it. -/
  unary : Context → Parser Term
  /-- Operands joined by binary operators that bind tighter than the given strength. -/
  binary : Context → Nat → Parser Term
  /-- A value with the properties taken from it and, if asked for, the calls made to it. -/
  access : Context → (calls : Bool) → Parser Term
  /-- A binding pattern. -/
  pattern : Context → Parser Pattern
  statement : Context → Placement → Parser Statement

namespace Parser

/-- An expression that is copied from the source, with the host forms inside. -/
def copied (term : Parser Term) : Parser Expression := do
  let count := (← get).hosts.length
  let term ← term
  let span ← term.value
  return ⟨span, ← hostsSince count⟩

end Parser

/-! ## Names -/

/-- The words that are never names. -/
def reservedWords : List String :=
  ["await", "break", "case", "catch", "class", "const", "continue", "debugger", "default",
    "delete", "do", "else", "enum", "export", "extends", "false", "finally", "for", "function",
    "if", "import", "in", "instanceof", "new", "null", "return", "super", "switch", "this",
    "throw", "true", "try", "typeof", "var", "void", "while", "with"]

/-- Whether a word can be a name in a context. -/
def isName (ctx : Context) (word : String) : Bool :=
  !reservedWords.contains word && !(word == "yield" && ctx.inGenerator)

/-- The name that a token is in a context, if it is one. -/
def name? (ctx : Context) (token : Token) : Option String :=
  match token with
  | .word word _ => if isName ctx word then some word else none
  | _ => none

namespace Parser

/-- A name, with its place. -/
def name (ctx : Context) : Parser (String × Span) := do
  let lexeme ← current
  match name? ctx lexeme.token with
  | some text =>
    advance
    return (text, ⟨lexeme.start, lexeme.stop⟩)
  | none => unexpected

end Parser

/-- Whether the name of a property can start with a token. -/
def startsKey (token : Token) : Bool :=
  match token with
  | .word _ _ | .string _ _ | .number | .privateName _ => true
  | token => isMark token "["

/-- The name of a property or member, and its text if that is fixed. -/
def key (g : Productions) (ctx : Context) (allowsPrivate : Bool) :
    Parser (Key × Option String) := do
  let lexeme ← Parser.current
  let plain : Key := .plain ⟨lexeme.start, lexeme.stop⟩
  match lexeme.token with
  | .word text _ | .string text _ =>
    Parser.advance
    return (plain, some text)
  | .number =>
    Parser.advance
    return (plain, none)
  | .privateName text =>
    unless allowsPrivate do Parser.unexpected
    if text == "constructor" then Parser.fail .memberName ⟨lexeme.start, lexeme.stop⟩
    Parser.advance
    return (plain, none)
  | _ =>
    unless ← Parser.eatMark "[" do Parser.unexpected
    let value ← Parser.copied (g.assignment ctx.inBrackets)
    Parser.expectMark "]"
    return (.computed value, none)

end Rebind.Grammar
