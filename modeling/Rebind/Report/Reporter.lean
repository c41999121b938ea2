import Rebind.Report.Diagnostic
import Rebind.Report.Excerpt

/-!
# Reporting diagnostics

A reporter knows the texts of some files.  It writes a diagnostic with the position of its start
and an excerpt if it knows the file, and without them if not.  The line map of a file is made when
it is needed first and kept from then on, until the file has another text.
-/

namespace Rebind

open Rebind.Text (LineMap)

/-- The styles of a terminal that a report uses. -/
inductive Style where
  | red
  | boldRed
  | boldYellow
  deriving Repr, DecidableEq

/-- The numbers that select a style. -/
def Style.selector : Style → String
  | .red => "31"
  | .boldRed => "1;31"
  | .boldYellow => "1;33"

/-- A text in a style. -/
def Style.apply (style : Style) (text : String) : String :=
  "\x1b[" ++ style.selector ++ "m" ++ text ++ "\x1b[0m"

/-- The style of the word for a category. -/
def Category.style : Category → Style
  | .warning => .boldYellow
  | .error => .boldRed

/-- The texts of files and the line maps made so far. -/
structure Reporter where
  color : Bool := false
  sources : List (String × List Char) := []
  lineMaps : List (String × LineMap) := []
  deriving Repr, Inhabited

namespace Reporter

/-- A text in a style, if the report is in color. -/
def styled (reporter : Reporter) (style : Style) (text : String) : String :=
  if reporter.color then style.apply text else text

/-- Gives a file its text, in place of the one it had. -/
def addSource (reporter : Reporter) (file text : String) : Reporter :=
  { reporter with
    sources := (file, text.toList) :: reporter.sources.filter (·.1 != file)
    lineMaps := reporter.lineMaps.filter (·.1 != file) }

/-- The text of a file and its line map, made now if it is needed for the first time.  No file has
the empty name. -/
def lookup (reporter : Reporter) (file : String) :
    Option (List Char × LineMap) × Reporter :=
  if file.isEmpty then (none, reporter)
  else
    match reporter.sources.lookup file with
    | none => (none, reporter)
    | some text =>
      match reporter.lineMaps.lookup file with
      | some map => (some (text, map), reporter)
      | none =>
        let map := LineMap.ofText text
        (some (text, map), { reporter with lineMaps := (file, map) :: reporter.lineMaps })

/-- The report of one diagnostic.  It ends without an excerpt if there is none. -/
def format (reporter : Reporter) (diagnostic : Diagnostic) : String × Reporter :=
  let (found, next) := reporter.lookup diagnostic.file
  let subject :=
    " - " ++ reporter.styled diagnostic.category.style diagnostic.category.label ++ ": " ++
      diagnostic.message
  let report :=
    match found with
    | some (text, map) =>
      let position := map.position diagnostic.start.toNat text
      let located :=
        diagnostic.file ++ s!":{position.lineNumber}:{position.columnNumber}" ++ subject
      match Excerpt.ofText? (reporter.styled .red) map position diagnostic.length text with
      | some excerpt => located ++ excerpt
      | none => located
    | none => (if diagnostic.file.isEmpty then "<unknown>" else diagnostic.file) ++ subject
  (report, next)

/-- The reports of some diagnostics, in order. -/
def formatAll (reporter : Reporter) : List Diagnostic → List String × Reporter
  | [] => ([], reporter)
  | diagnostic :: more =>
    let (report, next) := reporter.format diagnostic
    let (reports, last) := next.formatAll more
    (report :: reports, last)

/-- The report of some diagnostics, one below the other. -/
def render (reporter : Reporter) (diagnostics : List Diagnostic) : String × Reporter :=
  let (reports, next) := reporter.formatAll diagnostics
  ("\n".intercalate reports, next)

end Reporter

end Rebind
