import Rebind.Text.Span

/-!
# Why a snippet is not in the language

A fault is one way in which a text fails to be a snippet, together with the place at which this
shows: the first one that a reading from left to right meets.
-/

namespace Rebind.Snippet

open Rebind.Text (Span)

/-- The ways in which a text fails to be a snippet. -/
inductive Fault where
  /-- The text takes more bytes than offsets can count. -/
  | tooLong
  /-- A token stands where nothing can start with it or go on with it. -/
  | unexpectedToken
  /-- One given token is needed, and another stands there. -/
  | expected (wanted found : String)
  /-- A statement goes on past its end without a semicolon or a line break. -/
  | missingSemicolon
  /-- A constant is declared without a value. -/
  | missingConstantValue
  /-- A pattern is declared without a value to take apart. -/
  | missingPatternValue
  | unterminatedString
  | unterminatedComment
  | unterminatedRegularExpression
  /-- The left side of an assignment is not a place that can be assigned to. -/
  | notAssignable
  | invalidCharacter
  | invalidEscape
  | invalidNumber
  | invalidFlag
  /-- A keyword is written with an escape. -/
  | escapedKeyword
  /-- A reserved word stands as a name. -/
  | reservedName
  /-- The object literal form `{a = b}` stands outside a pattern. -/
  | valueInObjectLiteral
  /-- `??` is mixed with `||` or `&&` without parentheses. -/
  | mixedCoalescing
  /-- A unary expression is the base of a power without parentheses. -/
  | unaryPower
  /-- A declaration stands where only one plain statement may. -/
  | misplacedDeclaration
  /-- A rest element is not the last one, or a comma follows it. -/
  | restNotLast
  /-- A getter has parameters, or a setter has not exactly one. -/
  | accessorParameters
  /-- A class member has a name that is kept for the class itself. -/
  | memberName
  /-- Two exports have one name. -/
  | repeatedExport
  /-- Two attributes of an import have one name. -/
  | repeatedAttribute
  /-- The name of an export holds half of a surrogate pair. -/
  | halfCharacter
  /-- A resource is declared directly in a clause of a choice. -/
  | resourceInClause
  /-- A break or a handler is missing where the statement needs one. -/
  | incompleteStatement
  deriving Repr, DecidableEq, Inhabited

namespace Fault

/-- What is said about a fault. -/
def message : Fault → String
  | tooLong => "Source length exceeds 4 GiB limit"
  | unexpectedToken => "Unexpected token"
  | expected wanted found => "Expected `" ++ wanted ++ "` but found `" ++ found ++ "`"
  | missingSemicolon =>
    "Expected a semicolon or an implicit semicolon after a statement, but found none"
  | missingConstantValue => "Missing initializer in const declaration"
  | missingPatternValue => "Missing initializer in destructuring declaration"
  | unterminatedString => "Unterminated string"
  | unterminatedComment => "Unterminated multiline comment"
  | unterminatedRegularExpression => "Unterminated regular expression"
  | notAssignable => "Cannot assign to this expression"
  | invalidCharacter => "Invalid character"
  | invalidEscape => "Invalid escape sequence"
  | invalidNumber => "Invalid number"
  | invalidFlag => "Invalid regular expression flag"
  | escapedKeyword => "Keywords cannot contain escape characters"
  | reservedName => "A reserved word cannot be used as a name"
  | valueInObjectLiteral => "Invalid assignment in object literal"
  | mixedCoalescing => "Logical expressions and coalesce expressions cannot be mixed"
  | unaryPower => "Unexpected exponentiation expression"
  | misplacedDeclaration => "A declaration is not allowed as a single statement"
  | restNotLast => "A rest element must be last"
  | accessorParameters => "An accessor has the wrong number of parameters"
  | memberName => "A class member cannot have this name"
  | repeatedExport => "Duplicated export"
  | repeatedAttribute => "Duplicated import attribute"
  | halfCharacter => "An export name cannot include a lone surrogate"
  | resourceInClause => "Using declaration cannot appear in the bare case statement"
  | incompleteStatement => "The statement is not complete"

end Fault

/-- A fault and the stretch of the text at which it shows. -/
structure LocatedFault where
  fault : Fault
  span : Span
  deriving Repr, DecidableEq, Inhabited

end Rebind.Snippet
