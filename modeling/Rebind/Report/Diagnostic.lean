import Rebind.Error

/-!
# Diagnostics

A diagnostic is a message about a stretch of a named text.  Its offsets are words of 32 bits, as
texts are shorter than that.
-/

namespace Rebind

/-- How bad it is what a diagnostic is about. -/
inductive Category where
  | warning
  | error
  deriving Repr, DecidableEq, Inhabited

/-- The word for a category. -/
def Category.label : Category → String
  | .warning => "warning"
  | .error => "error"

/-- A message about a stretch of a named text. -/
structure Diagnostic where
  category : Category := .error
  file : String
  start : UInt32
  length : UInt32
  message : String
  deriving Repr, DecidableEq, Inhabited

/-- The diagnostic of an error in a named text.  A fault of the text comes without its position in
the message, since the position is that of the diagnostic. -/
def RebindError.diagnostic (file : String) : RebindError → Diagnostic
  | .malformed message offset length _ _ =>
    { file, message, start := UInt32.ofNat offset, length := UInt32.ofNat length }
  | error =>
    { file, message := error.message, start := UInt32.ofNat (error.offset?.getD 0), length := 0 }

end Rebind
