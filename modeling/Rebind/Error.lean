import Rebind.Snippet.Fault
import Rebind.Text.Display
import Rebind.Text.Lines

/-!
# Why a snippet is refused

A snippet gives the whole of its code or one of these errors, never a part of the code.
-/

namespace Rebind

open Rebind.Text (LineMap)
open Rebind.Snippet (LocatedFault)

/-- Why a snippet is refused. -/
inductive RebindError where
  /-- The text is no snippet.  Line and column count from one. -/
  | malformed (message : String) (offset length line column : Nat)
  /-- A part of the snippet stands where no rule applies to it. -/
  | unexpectedNode (node context : String) (offset : Nat)
  /-- Statements, classes and functions nest too deep. -/
  | nestedTooDeep (depth offset : Nat)
  /-- The name given to a host object is no name. -/
  | invalidOption (option value : String)
  deriving Repr, DecidableEq, Inhabited

namespace RebindError

/-- The error of a fault in a text.  Offset and length are words of 32 bits from here on. -/
def ofFault (source : List Char) (located : LocatedFault) : RebindError :=
  let offset := (UInt32.ofNat located.span.start).toNat
  let length := (UInt32.ofNat located.span.length).toNat
  let position := (LineMap.ofText source).position offset source
  .malformed located.fault.message offset length position.lineNumber position.columnNumber

/-- What is said about an error. -/
def message : RebindError → String
  | malformed message _ _ line column => message ++ s!" ({line}:{column})"
  | unexpectedNode node context offset =>
    "unexpected " ++ node ++ " in " ++ context ++ s!" at offset {offset}"
  | nestedTooDeep depth offset =>
    s!"statements nested deeper than {depth} levels at offset {offset}"
  | invalidOption option value =>
    "option `" ++ option ++ "` must be a JavaScript identifier, got " ++ Text.displayed value

/-- The offset at which the error shows, if it lies in the snippet. -/
def offset? : RebindError → Option Nat
  | malformed _ offset _ _ _ | unexpectedNode _ _ offset | nestedTooDeep _ offset => some offset
  | invalidOption _ _ => none

end RebindError

end Rebind
