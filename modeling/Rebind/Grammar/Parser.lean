import Rebind.Snippet.Token
import Rebind.Snippet.Tree

/-!
# Parsers over tokens

A parser reads from the current token on and either moves past what it has read or stops with a
fault.  Its state also collects the host forms met so far, so that an expression can be cut out of
the source together with the host forms inside it.

`Parser.repeatFrom` is the only loop.  It runs at most as many rounds as bytes are left, which is
enough for every loop whose rounds each move past a token.
-/

namespace Rebind.Grammar

open Rebind.Text (Span takeBytes)
open Rebind.Snippet

/-- Where a parser stands. -/
structure State where
  /-- The current token. -/
  lexeme : Lexeme
  /-- The offset past the token before the current one. -/
  lastStop : Nat
  /-- The number of bytes of the whole source. -/
  limit : Nat
  /-- The host forms met so far that lie in no other one, latest first. -/
  hosts : List HostForm
  /-- The names exported so far. -/
  exports : List String

/-- A reader of a part of a snippet. -/
abbrev Parser := StateT State (Except LocatedFault)

namespace Parser

/-- Stops with a fault at a stretch of the source. -/
def fail {α : Type} (fault : Fault) (span : Span) : Parser α :=
  throw ⟨fault, span⟩

/-- The current token with its place. -/
def current : Parser Lexeme := do
  return (← get).lexeme

/-- The offset of the current token. -/
def position : Parser Nat := do
  return (← get).lexeme.start

/-- The stretch of the source from an offset to the end of the last token read. -/
def spanFrom (start : Nat) : Parser Span := do
  return ⟨start, (← get).lastStop⟩

/-- Stops at the current token. -/
def unexpected {α : Type} : Parser α := do
  let lexeme ← current
  fail .unexpectedToken ⟨lexeme.start, lexeme.stop⟩

/-- The token after the current one. -/
def peek : Parser Lexeme := do
  let lexeme ← current
  Lexeme.scan lexeme.stop lexeme.rest

/-- Moves to the next token. -/
def advance : Parser Unit := do
  let state ← get
  let lexeme ← Lexeme.scan state.lexeme.stop state.lexeme.rest
  set { state with lexeme, lastStop := state.lexeme.stop }

/-- Puts another reading of the current token in its place. -/
def reread (scan : Lexeme → Except LocatedFault Lexeme) : Parser Unit := do
  let state ← get
  let lexeme ← scan state.lexeme
  set { state with lexeme }

end Parser

/-- Whether a token is the given punctuator. -/
def isMark (token : Token) (mark : String) : Bool :=
  token == .punctuator mark

/-- Whether a token is the given keyword, written without escapes. -/
def isKeyword (token : Token) (word : String) : Bool :=
  token == .word word false

namespace Parser

/-- Whether the current token is the given punctuator. -/
def atMark (mark : String) : Parser Bool := do
  return isMark (← current).token mark

/-- Whether the current token is the given keyword. -/
def atKeyword (word : String) : Parser Bool := do
  return isKeyword (← current).token word

/-- Whether the source is read to its end. -/
def atEnd : Parser Bool := do
  return (← current).token == .endOfInput

/-- Moves past the given punctuator if it comes next. -/
def eatMark (mark : String) : Parser Bool := do
  if ← atMark mark then
    advance
    return true
  return false

/-- Moves past the given keyword if it comes next. -/
def eatKeyword (word : String) : Parser Bool := do
  if ← atKeyword word then
    advance
    return true
  return false

/-- Stops because the given text should stand at the current token. -/
def missing {α : Type} (wanted : String) : Parser α := do
  let lexeme ← current
  let found :=
    if lexeme.token == .endOfInput then "EOF"
    else String.ofList (takeBytes (lexeme.stop - lexeme.start) lexeme.here)
  fail (.expected wanted found) ⟨lexeme.start, lexeme.stop⟩

/-- Moves past the given punctuator, which has to come next. -/
def expectMark (mark : String) : Parser Unit := do
  unless ← eatMark mark do missing mark

/-- Moves past the given keyword, which has to come next. -/
def expectKeyword (word : String) : Parser Unit := do
  unless ← eatKeyword word do missing word

/-- Whether a statement may end before the current token without a semicolon. -/
def atImplicitEnd : Parser Bool := do
  let lexeme ← current
  return lexeme.afterBreak || lexeme.token == .endOfInput || isMark lexeme.token ";" ||
    isMark lexeme.token "\x7d"

/-- Ends a statement: by a semicolon, a line break, a closing brace or the end of the source. -/
def endStatement : Parser Unit := do
  if ← eatMark ";" then return
  unless ← atImplicitEnd do
    let state ← get
    fail .missingSemicolon ⟨state.lastStop, state.lastStop⟩

/-- Runs `step` until it answers, for at most `rounds` rounds. -/
def iterate {σ α : Type} (step : σ → Parser (Sum σ α)) : Nat → σ → Parser α
  | 0, _ => unexpected
  | rounds + 1, s => do
    match ← step s with
    | .inl s => iterate step rounds s
    | .inr a => return a

/-- Runs `step` until it answers.  Each round that asks for another one has to read a token. -/
def repeatFrom {σ α : Type} (s : σ) (step : σ → Parser (Sum σ α)) : Parser α := do
  let state ← get
  iterate step (state.limit - state.lexeme.start + 2) s

/-- Items with commas between them, up to a closing mark that is not read.  The second part of
the answer is the place of a comma after the last item. -/
def separated {α : Type} (close : String) (item : Parser α) :
    Parser (List α × Option Span) := do
  if (← atMark close) || (← atEnd) then return ([], none)
  repeatFrom [] fun items => do
    let items := (← item) :: items
    if (← atMark close) || (← atEnd) then return .inr (items.reverse, none)
    let comma ← current
    unless ← eatMark "," do missing close
    if ← atMark close then return .inr (items.reverse, some ⟨comma.start, comma.stop⟩)
    return .inl items

/-- The host forms met since `count` of them were known, in source order. -/
def hostsSince (count : Nat) : Parser (List HostForm) := do
  let hosts := (← get).hosts
  return (hosts.take (hosts.length - count)).reverse

/-- Notes that names are exported, each of them for the first time. -/
def addExports (names : List String) (span : Span) : Parser Unit := do
  names.forM fun name => do
    let state ← get
    if state.exports.contains name then fail .repeatedExport span
    set { state with exports := name :: state.exports }

end Parser

end Rebind.Grammar
