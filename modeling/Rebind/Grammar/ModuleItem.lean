import Rebind.Grammar.Expression

/-!
# Import and export declarations

They are read for their form only, since nothing of them is kept.
-/

namespace Rebind.Grammar

open Rebind.Snippet
open Rebind.Grammar.Parser

/-- A string literal. -/
def stringLiteral : Parser Unit := do
  unless (← current).token matches .string _ _ do unexpected
  advance

/-- The attributes of an import, if they are there. -/
def importAttributes : Parser Unit := do
  let lexeme ← current
  unless isKeyword lexeme.token "with" ||
      (isKeyword lexeme.token "assert" && !lexeme.afterBreak) do
    return
  advance
  expectMark "\x7b"
  let start ← position
  let (keys, _) ← separated "\x7d" do
    let key ← match (← current).token with
      | .word text _ | .string text _ => pure text
      | _ => unexpected
    advance
    expectMark ":"
    stringLiteral
    return key
  unless keys.Nodup do fail .repeatedAttribute (← spanFrom start)
  expectMark "\x7d"

/-- The word `from`, the name of a module and the attributes of the import. -/
def moduleSource : Parser Unit := do
  unless ← eatKeyword "from" do unexpected
  stringLiteral
  importAttributes

/-- The name of an export as another module sees it: any word or a string of characters. -/
def exportName : Parser String := do
  let lexeme ← current
  match lexeme.token with
  | .word text _ =>
    advance
    return text
  | .string text sound =>
    unless sound do fail .halfCharacter ⟨lexeme.start, lexeme.stop⟩
    advance
    return text
  | _ => unexpected

/-- A star and the name that all exports get together. -/
def namespaceImport (ctx : Context) : Parser Unit := do
  expectMark "*"
  unless ← eatKeyword "as" do unexpected
  let _ ← name ctx

/-- The names imported one by one. -/
def namedImports (ctx : Context) : Parser Unit := do
  expectMark "\x7b"
  let _ ← separated "\x7d" do
    let lexeme ← current
    let _ ← exportName
    if ← eatKeyword "as" then
      let _ ← name ctx
    else if (name? ctx lexeme.token).isNone then fail .reservedName ⟨lexeme.start, lexeme.stop⟩
  expectMark "\x7d"

/-- Whether the current word asks for the source of a module: a name follows it that is not the
word `from` before the module. -/
def atSourcePhase (ctx : Context) : Parser Bool := do
  unless ← atKeyword "source" do return false
  let next ← peek
  if (name? ctx next.token).isNone then return false
  unless isKeyword next.token "from" do return true
  let after ← Lexeme.scan next.stop next.rest
  return isKeyword after.token "from"

/-- What an import binds that starts with a name: the source of a module, or its default export
and perhaps more. -/
def defaultImport (ctx : Context) : Parser Unit := do
  if ← atSourcePhase ctx then
    advance
    let _ ← name ctx
    return
  let _ ← name ctx
  if ← eatMark "," then
    if ← atMark "*" then namespaceImport ctx else namedImports ctx

/-- What an import binds, up to the module it comes from. -/
def importClause (ctx : Context) : Parser Unit := do
  if ← atMark "*" then return ← namespaceImport ctx
  if ← atMark "\x7b" then return ← namedImports ctx
  if ← atKeyword "defer" then
    if isMark (← peek).token "*" then
      advance
      return ← namespaceImport ctx
  defaultImport ctx

/-- An import declaration. -/
def importDeclaration (ctx : Context) : Parser Statement := do
  let start ← position
  expectKeyword "import"
  if (← current).token matches .string _ _ then
    stringLiteral
    importAttributes
  else
    importClause ctx
    moduleSource
  endStatement
  return .moduleItem start

/-- The words that are no names of exported bindings, besides those that are never names. -/
def reservedExports : List String :=
  ["yield", "let", "static", "implements", "interface", "package", "private", "protected",
    "public"]

/-- The names exported one by one.  Without a module they come from they have to be bindings. -/
def namedExports : Parser Unit := do
  expectMark "\x7b"
  let start ← position
  let (items, _) ← separated "\x7d" do
    let lexeme ← current
    let inner ← exportName
    if ← eatKeyword "as" then return (lexeme, ← exportName)
    return (lexeme, inner)
  addExports (items.map (·.2)) (← spanFrom start)
  expectMark "\x7d"
  if ← atKeyword "from" then return ← moduleSource
  for (lexeme, _) in items do
    let isBinding := match lexeme.token with
      | .word text _ => !reservedWords.contains text && !reservedExports.contains text
      | _ => false
    unless isBinding do fail .reservedName ⟨lexeme.start, lexeme.stop⟩

/-- A class with the decorators before it.  The answer is its name. -/
def decoratedClass (g : Productions) (ctx : Context) : Parser (Option String) := do
  let start ← position
  let decorators ← decorators g ctx
  unless ← atKeyword "class" do unexpected
  return (← classDefinition g ctx start decorators).name

/-- Whether a function that is asynchronous or not comes next. -/
def atFunction : Parser Bool := do
  if ← atKeyword "function" then return true
  unless ← atKeyword "async" do return false
  let next ← peek
  return isKeyword next.token "function" && !next.afterBreak

/-- A function with the word `async` before it or not.  The answer is its name. -/
def exportedFunction (g : Productions) (ctx : Context) (naming : Naming) :
    Parser (Option String) := do
  let isAsync ← eatKeyword "async"
  return (← function g ctx isAsync naming).name

/-- The keyword of an exported declaration of variables. -/
def eatVariableKeyword : Parser (Option DeclarationKind) := do
  if ← eatKeyword "var" then return some .variable
  if ← eatKeyword "let" then return some .lexical
  if ← eatKeyword "const" then return some .constant
  return none

/-- The value of a default export. -/
def defaultValue (g : Productions) (ctx : Context) : Parser Unit := do
  if (← atMark "@") || (← atKeyword "class") then
    let _ ← decoratedClass g ctx
  else if ← atFunction then
    let _ ← exportedFunction g ctx .optional
  else
    let value ← g.assignment ctx.inBrackets
    let _ ← value.value
    endStatement

/-- The names of variables that are exported together with their declaration. -/
def exportedVariables (g : Productions) (ctx : Context) : Parser (List String) := do
  let some kind ← eatVariableKeyword | unexpected
  let declaration ← declaration g ctx kind true
  endStatement
  return declaration.names

/-- The names exported together with their declaration. -/
def exportedNames (g : Productions) (ctx : Context) : Parser (List String) := do
  if (← atMark "@") || (← atKeyword "class") then return (← decoratedClass g ctx).toList
  if ← atFunction then return (← exportedFunction g ctx .required).toList
  exportedVariables g ctx

/-- An export declaration.  After decorators it has to export a class. -/
def exportDeclaration (g : Productions) (ctx : Context) (isDecorated : Bool) :
    Parser Statement := do
  let start ← position
  expectKeyword "export"
  if ← eatKeyword "default" then
    if isDecorated then
      unless ← atKeyword "class" do unexpected
    defaultValue g ctx
    addExports ["default"] (← spanFrom start)
  else if isDecorated then
    unless ← atKeyword "class" do unexpected
    let names ← exportedNames g ctx
    addExports names (← spanFrom start)
  else if ← eatMark "*" then
    if ← eatKeyword "as" then addExports [← exportName] (← spanFrom start)
    moduleSource
    endStatement
  else if ← atMark "\x7b" then
    namedExports
    endStatement
  else
    let names ← exportedNames g ctx
    addExports names (← spanFrom start)
  return .moduleItem start

end Rebind.Grammar
