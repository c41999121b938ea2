import Rebind.Grammar.Class

/-!
# Expressions

The productions go from the outside in: lists with commas, assignments and arrow functions, binary
operators, operands, properties and calls, and values.  A list in parentheses is read once, as a
`Group`, and is then either the parameters of an arrow function or a value.
-/

namespace Rebind.Grammar

open Rebind.Text (Span)
open Rebind.Snippet
open Rebind.Grammar.Parser

/-! ## Lists of values -/

/-- An expression with commas. -/
def sequence (g : Productions) (ctx : Context) : Parser Term := do
  let first ← g.assignment ctx
  unless ← atMark "," do return first
  let _ ← first.value
  repeatFrom first.span.stop fun stop => do
    unless ← eatMark "," do return .inr (.plain ⟨first.span.start, stop⟩)
    let next ← g.assignment ctx
    return .inl (← next.value).stop

/-- An item of a list, after three points or not. -/
structure Item where
  /-- The three points, if they stand before the item. -/
  spread : Option Span
  term : Term

/-- An item of a list. -/
def item (g : Productions) (ctx : Context) : Parser Item := do
  let lexeme ← current
  if ← eatMark "..." then
    return ⟨some ⟨lexeme.start, lexeme.stop⟩, ← g.assignment ctx.inBrackets⟩
  return ⟨none, ← g.assignment ctx.inBrackets⟩

/-- A list in parentheses. -/
structure Group where
  span : Span
  items : List Item
  /-- A comma after the last item. -/
  comma : Option Span

/-- A list in parentheses. -/
def group (g : Productions) (ctx : Context) : Parser Group := do
  let start ← position
  expectMark "("
  let (items, comma) ← separated ")" (item g ctx)
  expectMark ")"
  return ⟨← spanFrom start, items, comma⟩

/-- Whether items can be the parameters of a function, the last one perhaps as rest parameter. -/
def Group.bindsAll (comma : Option Span) : List Item → Bool
  | [] => true
  | [⟨some _, term⟩] => term.binds && comma.isNone
  | ⟨some _, _⟩ :: _ => false
  | ⟨none, term⟩ :: items => term.bindsElement && Group.bindsAll comma items

namespace Group

/-- Whether the list can be the parameters of a function. -/
def isParameters (group : Group) : Bool :=
  Group.bindsAll group.comma group.items

/-- The list as arguments of a call: all items have to be values. -/
def checkArguments (group : Group) : Parser Unit :=
  group.items.forM fun item => do
    let _ ← item.term.value

/-- The list as a value in parentheses. -/
def term (group : Group) : Parser Term := do
  for item in group.items do
    if let some span := item.spread then fail .unexpectedToken span
  group.checkArguments
  if let some span := group.comma then fail (.expected ")" ",") span
  match group.items with
  | [] => fail .unexpectedToken ⟨group.span.stop - 1, group.span.stop⟩
  | [item] =>
    let shape := if item.term.isPlace then .enclosedPlace else .value
    let place := if item.term.shape matches .literal _ _ then group.span else item.term.place
    return { span := group.span, shape, place }
  | first :: items =>
    let stop := (items.getLast?.map (·.term.span.stop)).getD first.term.span.stop
    return { span := group.span, shape := .value, place := ⟨first.term.span.start, stop⟩ }

end Group

/-- The arguments of a call. -/
def arguments (g : Productions) (ctx : Context) : Parser Unit := do
  (← group g ctx).checkArguments

/-! ## Literals that may be patterns -/

/-- What the parts of an array or object literal say about reading it as a pattern. -/
structure PatternView where
  obstacle : Option Span := none
  binds : Bool := true
  pending : Option Span := none

namespace PatternView

/-- Two parts one after the other. -/
def append (left right : PatternView) : PatternView where
  obstacle := left.obstacle <|> right.obstacle
  binds := left.binds && right.binds
  pending := left.pending <|> right.pending

/-- A part that is a target with or without a default value. -/
def element (term : Term) : PatternView where
  obstacle := term.elementObstacle
  binds := term.bindsElement
  pending := term.pending

/-- A rest element, which has to be the last part without a comma after it. -/
def rest (points : Span) (term : Term) (isLast : Bool) : PatternView where
  obstacle := if isLast then term.targetObstacle else some points
  binds := isLast && term.binds
  pending := term.pending

/-- A part that no pattern has. -/
def never (span : Span) : PatternView where
  obstacle := some span
  binds := false

/-- The literal that has these parts. -/
def term (view : PatternView) (span : Span) : Term where
  span := span
  shape := .literal view.obstacle view.binds
  place := span
  pending := view.pending

end PatternView

/-- An array literal. -/
def arrayLiteral (g : Productions) (ctx : Context) : Parser Term := do
  let start ← position
  expectMark "["
  let element : Parser (Option Item) := do
    if ← atMark "," then return none
    return some (← item g ctx)
  let (items, comma) ← separated "]" element
  expectMark "]"
  let view (isLast : Bool) : Option Item → PatternView
    | none => {}
    | some ⟨none, term⟩ => .element term
    | some ⟨some points, term⟩ => .rest points term (isLast && comma.isNone)
  let views := (items.dropLast.map (view false)) ++ (items.getLast?.map (view true)).toList
  return (views.foldl PatternView.append {}).term (← spanFrom start)

/-- A member of an object literal. -/
inductive Member where
  | fixed (view : PatternView)
  | spread (points : Span) (term : Term)

/-- The words that change the member after them: whether the member is asynchronous, a generator,
or an accessor. -/
def memberModifiers : Parser (Bool × Bool × MethodKind) := do
  if ← eatMark "*" then return (false, true, .plain)
  let lexeme ← current
  let accessor : Option MethodKind :=
    if isKeyword lexeme.token "get" then some .getter
    else if isKeyword lexeme.token "set" then some .setter
    else none
  if let some kind := accessor then
    if startsKey (← peek).token then
      advance
      return (false, false, kind)
    return (false, false, .plain)
  if isKeyword lexeme.token "async" then
    let next ← peek
    if !next.afterBreak && (startsKey next.token || isMark next.token "*") then
      advance
      return (true, ← eatMark "*", .plain)
  return (false, false, .plain)

/-- Reads a member of an object literal. -/
def objectMember (g : Productions) (ctx : Context) : Parser Member := do
  let start ← position
  let first ← current
  if ← eatMark "..." then
    return .spread ⟨first.start, first.stop⟩ (← g.assignment ctx.inBrackets)
  let (isAsync, isGenerator, kind) ← memberModifiers
  let isModified := isAsync || isGenerator || kind != .plain
  let lexeme ← current
  let _ ← key g ctx false
  if isModified || (← atMark "(") then
    unless ← atMark "(" do unexpected
    let _ ← method g kind isAsync isGenerator
    return .fixed (.never (← spanFrom start))
  if ← eatMark ":" then
    return .fixed (.element (← g.assignment ctx.inBrackets))
  match lexeme.token with
  | .word word _ =>
    unless isName ctx word do fail .unexpectedToken ⟨lexeme.start, lexeme.stop⟩
    if ← eatMark "=" then
      let value ← g.assignment ctx.inBrackets
      let _ ← value.value
      return .fixed { pending := some (← spanFrom start) }
    return .fixed {}
  | _ =>
    if (← atMark ",") || (← atMark "\x7d") then unexpected
    missing "\x7d"

/-- An object literal. -/
def objectLiteral (g : Productions) (ctx : Context) : Parser Term := do
  let start ← position
  expectMark "\x7b"
  let (members, comma) ← separated "\x7d" (objectMember g ctx)
  expectMark "\x7d"
  let view (isLast : Bool) : Member → PatternView
    | .fixed view => view
    | .spread points term =>
      let rest := PatternView.rest points term (isLast && comma.isNone)
      { rest with binds := rest.binds && !(term.shape matches .literal _ _) }
  let views := (members.dropLast.map (view false)) ++ (members.getLast?.map (view true)).toList
  return (views.foldl PatternView.append {}).term (← spanFrom start)

/-! ## Templates -/

/-- A template from its first part on.  Only a tagged one may hold escapes without a value. -/
def template (g : Productions) (ctx : Context) (isTagged : Bool) : Parser Unit := do
  repeatFrom () fun _ => do
    let lexeme ← current
    match lexeme.token with
    | .template closed sound =>
      unless sound || isTagged do fail .invalidEscape ⟨lexeme.start, lexeme.stop⟩
      advance
      if closed then return .inr ()
      let value ← sequence g ctx.inBrackets
      let _ ← value.value
      unless ← atMark "\x7d" do missing "\x7d"
      reread Lexeme.scanTemplatePart
      return .inl ()
    | _ => unexpected

/-! ## Host forms -/

/-- Adds a host form that contains all those met since `count` of them were known. -/
def recordHost (count : Nat) (host : HostForm) : Parser Unit :=
  modify fun state =>
    { state with hosts := host :: state.hosts.drop (state.hosts.length - count) }

/-- A dynamic import, from its opening parenthesis on. -/
def dynamicImport (g : Productions) (ctx : Context) (start : Nat) : Parser Term := do
  expectMark "("
  let count := (← get).hosts.length
  let specifier ← g.assignment ctx.inBrackets
  let specifier ← specifier.value
  let inner ← hostsSince count
  if ← eatMark "," then
    unless ← atMark ")" do
      let options ← g.assignment ctx.inBrackets
      let _ ← options.value
      let _ ← eatMark ","
  expectMark ")"
  let span ← spanFrom start
  recordHost count (.load span specifier inner)
  return .plain span

/-- An expression that starts with the word `import`. -/
def importForm (g : Productions) (ctx : Context) : Parser Term := do
  let start ← position
  advance
  unless ← eatMark "." do
    unless ← atMark "(" do unexpected
    return ← dynamicImport g ctx start
  if ← eatKeyword "meta" then
    let span ← spanFrom start
    recordHost (← get).hosts.length (.metadata span)
    return .plain span
  unless ← eatKeyword "defer" do
    unless ← eatKeyword "source" do unexpected
  dynamicImport g ctx start

/-! ## Values -/

/-- An expression that starts with the word `new`. -/
def newForm (g : Productions) (ctx : Context) : Parser Term := do
  let start ← position
  advance
  if ← eatMark "." then
    unless ← eatKeyword "target" do unexpected
    return .plain (← spanFrom start)
  let callee ← g.access ctx false
  let calleeSpan ← callee.value
  if let some (.load span _ _) := (← get).hosts.head? then
    if span = calleeSpan then fail .unexpectedToken span
  if ← atMark "(" then arguments g ctx
  return .plain (← spanFrom start)

/-- A value that is one word or starts with one. -/
def wordForm (g : Productions) (ctx : Context) (word : String) (isEscaped : Bool) :
    Parser Term := do
  let lexeme ← current
  let here : Span := ⟨lexeme.start, lexeme.stop⟩
  if isEscaped && reservedWords.contains word then fail .escapedKeyword here
  match word with
  | "this" | "null" | "true" | "false" =>
    advance
    return .plain here
  | "function" =>
    let _ ← function g ctx false .inner
    return .plain (← spanFrom lexeme.start)
  | "class" =>
    let _ ← classDefinition g ctx lexeme.start []
    return .plain (← spanFrom lexeme.start)
  | "new" => newForm g ctx
  | "import" => importForm g ctx
  | "super" =>
    advance
    let next ← current
    if isMark next.token "." then
      unless (← peek).token matches .word _ _ do fail .unexpectedToken here
    else unless isMark next.token "[" || isMark next.token "(" do
      fail .unexpectedToken here
    return .plain here
  | _ =>
    if word == "async" && !isEscaped then
      let next ← peek
      if isKeyword next.token "function" && !next.afterBreak then
        advance
        let _ ← function g ctx true .inner
        return .plain (← spanFrom lexeme.start)
    unless isName ctx word do unexpected
    advance
    return .plain here (.name word)

/-- A value. -/
def primary (g : Productions) (ctx : Context) : Parser Term := do
  let lexeme ← current
  let here : Span := ⟨lexeme.start, lexeme.stop⟩
  match lexeme.token with
  | .word word isEscaped => wordForm g ctx word isEscaped
  | .number =>
    advance
    return .plain here
  | .string _ _ =>
    advance
    return .plain here .string
  | .template _ _ =>
    template g ctx false
    return .plain (← spanFrom lexeme.start)
  | .punctuator "[" => arrayLiteral g ctx
  | .punctuator "\x7b" => objectLiteral g ctx
  | .punctuator "(" => (← group g ctx).term
  | .punctuator "/" | .punctuator "/=" =>
    reread Lexeme.scanRegularExpression
    let lexeme ← current
    advance
    return .plain ⟨lexeme.start, lexeme.stop⟩
  | .punctuator "@" =>
    let decorators ← decorators g ctx
    unless ← atKeyword "class" do unexpected
    let _ ← classDefinition g ctx lexeme.start decorators
    return .plain (← spanFrom lexeme.start)
  | _ => unexpected

/-! ## Properties and calls -/

/-- An index in brackets. -/
def subscript (g : Productions) (ctx : Context) : Parser Unit := do
  expectMark "["
  let index ← sequence g ctx.inBrackets
  let _ ← index.value
  expectMark "]"

/-- A property taken from a value that starts at an offset, or a call made to it if asked for.  The
answer is the value with it, and whether the value may be missing, or the value alone. -/
def accessRound (g : Productions) (ctx : Context) (calls : Bool) (start : Nat) (term : Term)
    (isOptional : Bool) : Parser (Sum (Term × Bool) Term) := do
  let lexeme ← current
  let extend (shape : Shape) (isOptional : Bool) : Parser (Sum (Term × Bool) Term) := do
    let span ← spanFrom start
    return .inl (.plain span (if isOptional then .value else shape), isOptional)
  match lexeme.token with
  | .punctuator "." =>
    let _ ← term.value
    advance
    unless (← current).token matches .word _ _ | .privateName _ do unexpected
    advance
    extend .member isOptional
  | .punctuator "?." =>
    let _ ← term.value
    unless calls do unexpected
    advance
    match (← current).token with
    | .word _ _ | .privateName _ => advance
    | .punctuator "[" => subscript g ctx
    | .punctuator "(" => arguments g ctx
    | _ => unexpected
    extend .value true
  | .punctuator "[" =>
    if ctx.inDecorator then return .inr term
    let _ ← term.value
    subscript g ctx
    extend .member isOptional
  | .punctuator "(" =>
    unless calls do return .inr term
    let _ ← term.value
    arguments g ctx
    extend .value isOptional
  | .template _ _ =>
    let _ ← term.value
    if isOptional then unexpected
    template g ctx true
    extend .value false
  | _ => return .inr term

/-- The properties taken from a value and, if asked for, the calls made to it. -/
def accessRest (g : Productions) (ctx : Context) (calls : Bool) (head : Term) : Parser Term :=
  repeatFrom (head, false) fun (term, isOptional) =>
    accessRound g ctx calls head.span.start term isOptional

/-- A value with the properties taken from it and, if asked for, the calls made to it. -/
def access (g : Productions) (ctx : Context) (calls : Bool) : Parser Term := do
  accessRest g ctx calls (← primary g ctx)

/-! ## Operators -/

/-- Refuses a term that is not a single place. -/
def requirePlace (term : Term) : Parser Unit := do
  unless term.isPlace do fail .notAssignable term.place

/-- The increment or decrement after an operand on the same line. -/
def postfixRest (term : Term) : Parser Term := do
  let lexeme ← current
  unless (isMark lexeme.token "++" || isMark lexeme.token "--") && !lexeme.afterBreak do
    return term
  requirePlace term
  advance
  return .plain (← spanFrom term.span.start)

/-- The operand of a unary operator, which is not the base of a power. -/
def unaryOperand (g : Productions) (ctx : Context) (start : Nat) : Parser Term := do
  let operand ← g.unary ctx
  let _ ← operand.value
  let span ← spanFrom start
  if ← atMark "**" then fail .unaryPower span
  return .plain span

/-- An operand, with the unary operators before it. -/
def unary (g : Productions) (ctx : Context) : Parser Term := do
  let lexeme ← current
  match lexeme.token with
  | .punctuator "+" | .punctuator "-" | .punctuator "~" | .punctuator "!"
  | .word "delete" false | .word "typeof" false | .word "void" false =>
    advance
    unaryOperand g ctx lexeme.start
  | .word "await" false =>
    unless ctx.allowsAwait do unexpected
    advance
    unaryOperand g ctx lexeme.start
  | .punctuator "++" | .punctuator "--" =>
    advance
    let operand ← g.unary ctx
    requirePlace operand
    return .plain (← spanFrom lexeme.start)
  | _ => postfixRest (← access g ctx true)

/-- How tight `in` binds. -/
def relationalStrength : Nat := 8

/-- How tight a binary operator binds. -/
def strength? (ctx : Context) (token : Token) : Option Nat :=
  match token with
  | .punctuator "??" => some 1
  | .punctuator "||" => some 2
  | .punctuator "&&" => some 3
  | .punctuator "|" => some 4
  | .punctuator "^" => some 5
  | .punctuator "&" => some 6
  | .punctuator "==" | .punctuator "!=" | .punctuator "===" | .punctuator "!==" => some 7
  | .punctuator "<" | .punctuator ">" | .punctuator "<=" | .punctuator ">=" =>
    some relationalStrength
  | .word "instanceof" false => some relationalStrength
  | .word "in" false => if ctx.allowsIn then some relationalStrength else none
  | .punctuator "<<" | .punctuator ">>" | .punctuator ">>>" => some 9
  | .punctuator "+" | .punctuator "-" => some 10
  | .punctuator "*" | .punctuator "/" | .punctuator "%" => some 11
  | .punctuator "**" => some 12
  | _ => none

/-- The shape of two operands joined by an operator.  `??` is not mixed with `||` and `&&`. -/
def joined (token : Token) (left right : Term) (span : Span) : Parser Shape := do
  let mixes (shape : Shape) : Parser Unit := do
    if left.shape == shape || right.shape == shape then fail .mixedCoalescing span
  match token with
  | .punctuator "??" =>
    mixes .logical
    return .coalescing
  | .punctuator "||" | .punctuator "&&" =>
    mixes .coalescing
    return .logical
  | _ => return .value

/-- The operators after an operand that bind tighter than `least`, with their right operands.  A
power groups to the right. -/
def binaryRest (g : Productions) (ctx : Context) (least : Nat) (left : Term) : Parser Term := do
  repeatFrom left fun left => do
    let lexeme ← current
    let some strength := strength? ctx lexeme.token | return .inr left
    unless strength > least do return .inr left
    let _ ← left.value
    advance
    let right ← g.binary ctx (if isMark lexeme.token "**" then strength - 1 else strength)
    let _ ← right.value
    let span ← spanFrom left.span.start
    return .inl (.plain span (← joined lexeme.token left right span))

/-- Operands joined by binary operators that bind tighter than `least`.  A private name is an
operand only before `in`. -/
def binary (g : Productions) (ctx : Context) (least : Nat) : Parser Term := do
  let lexeme ← current
  match lexeme.token with
  | .privateName _ =>
    unless ctx.allowsIn && least < relationalStrength do unexpected
    advance
    unless ← eatKeyword "in" do unexpected
    let object ← g.binary ctx relationalStrength
    let _ ← object.value
    binaryRest g ctx least (.plain (← spanFrom lexeme.start))
  | _ => binaryRest g ctx least (← unary g ctx)

/-! ## Assignments and arrow functions -/

/-- The operators that assign. -/
def assignmentOperators : List String :=
  ["=", "+=", "-=", "*=", "/=", "%=", "**=", "<<=", ">>=", ">>>=", "&=", "|=", "^=", "&&=",
    "||=", "??="]

/-- Whether a token is an operator that assigns. -/
def isAssignmentOperator (token : Token) : Bool :=
  match token with
  | .punctuator mark => assignmentOperators.contains mark
  | _ => false

/-- The assignment or choice that an operand starts, or the operand alone. -/
def assignmentRest (g : Productions) (ctx : Context) (left : Term) : Parser Term := do
  let lexeme ← current
  if isAssignmentOperator lexeme.token then
    let isPlain := isMark lexeme.token "="
    if isPlain then
      if let some span := left.targetObstacle then fail .notAssignable span
    else requirePlace left
    advance
    let right ← g.assignment ctx
    let _ ← right.value
    let shape := if isPlain then .assignment left.binds else .value
    return .plain (← spanFrom left.span.start) shape
  if isMark lexeme.token "?" then
    let _ ← left.value
    advance
    let consequent ← g.assignment ctx.inBrackets
    let _ ← consequent.value
    expectMark ":"
    let alternate ← g.assignment ctx
    let _ ← alternate.value
    return .plain (← spanFrom left.span.start)
  return left

/-- An arrow function from its arrow on, which stands on the line where the parameters end. -/
def arrow (g : Productions) (ctx : Context) (isAsync : Bool) (start : Nat) :
    Parser Term := do
  if (← current).afterBreak then unexpected
  expectMark "=>"
  if ← atMark "\x7b" then
    let _ ← functionBody g (.inFunction isAsync false)
  else
    let value ← g.assignment { ctx with inGenerator := false, allowsAwait := isAsync }
    let _ ← value.value
  return .plain (← spanFrom start)

/-- An assignment whose first value is read already. -/
def assignmentFrom (g : Productions) (ctx : Context) (head : Term) : Parser Term := do
  let term ← accessRest g ctx true head
  let term ← postfixRest term
  let term ← binaryRest g ctx 0 term
  assignmentRest g ctx term

/-- An assignment that starts with an operand. -/
def assignmentFromOperand (g : Productions) (ctx : Context) : Parser Term := do
  let start ← position
  let term ← binary g ctx 0
  if (term.shape matches .name _) && (← atMark "=>") then return ← arrow g ctx false start
  assignmentRest g ctx term

/-- An assignment that starts with the word `async`. -/
def assignmentFromAsync (g : Productions) (ctx : Context) : Parser Term := do
  let word ← current
  let next ← peek
  if (name? ctx next.token).isSome && !next.afterBreak then
    let after ← Lexeme.scan next.stop next.rest
    if isMark after.token "=>" && !after.afterBreak then
      advance
      advance
      return ← arrow g ctx true word.start
  if isMark next.token "(" && !next.afterBreak then
    advance
    let group ← group g ctx
    if (← atMark "=>") && !(← current).afterBreak && group.isParameters then
      return ← arrow g ctx true word.start
    group.checkArguments
    return ← assignmentFrom g ctx (.plain ⟨word.start, group.span.stop⟩)
  assignmentFromOperand g ctx

/-- An expression that starts with the word `yield` in a generator. -/
def yieldForm (g : Productions) (ctx : Context) : Parser Term := do
  let start ← position
  advance
  let lexeme ← current
  if lexeme.afterBreak then return .plain (← spanFrom start)
  let isDelegate ← eatMark "*"
  let lexeme ← current
  let isBare := match lexeme.token with
    | .punctuator mark => [";", "\x7d", ")", "]", ":", ","].contains mark
    | .word "in" false | .word "of" false | .endOfInput => true
    | _ => false
  if isDelegate || !isBare then
    let value ← g.assignment ctx
    let _ ← value.value
  return .plain (← spanFrom start)

/-- An expression without commas. -/
def assignment (g : Productions) (ctx : Context) : Parser Term := do
  let lexeme ← current
  match lexeme.token with
  | .word "yield" false =>
    if ctx.inGenerator then yieldForm g ctx else assignmentFromOperand g ctx
  | .word "async" false => assignmentFromAsync g ctx
  | .punctuator "(" =>
    let group ← group g ctx
    if (← atMark "=>") && group.isParameters then return ← arrow g ctx false lexeme.start
    assignmentFrom g ctx (← group.term)
  | _ => assignmentFromOperand g ctx

end Rebind.Grammar
