import Rebind.CommandLine.Arguments
import Rebind.CommandLine.Workspace
import Rebind.Json.Bindings
import Rebind.Options.Decode
import Rebind.Report.Reporter
import Rebind.Code

/-!
# Running a command line

A run finds its options, then reads its sources, then rebinds each of them on its own.  A source
that has code gives a section of the output, and one that is refused gives a diagnostic.
-/

namespace Rebind.CommandLine

/-- Why a run ends before any source is rebound. -/
inductive RunError where
  | unreadableOptions (path : String)
  | rejectedOptions (path : String) (error : OptionsError)
  | invalidOptions (error : RebindError)
  | unreadableStandardInput
  | unreadableInput (path : String)
  deriving Repr, DecidableEq, Inhabited

/-- What is said about a run that ends early. -/
def RunError.message : RunError → String
  | unreadableOptions path => "failed to read options: " ++ path
  | rejectedOptions path _ => "failed to parse options: " ++ path
  | invalidOptions _ => "invalid rewrite options"
  | unreadableStandardInput => "failed to read stdin"
  | unreadableInput path => "failed to read input: " ++ path

/-- The options file that is used without being named. -/
def defaultConfig : String := "replscope.json"

/-- A snippet under the name that reports use for it. -/
structure Source where
  name : String
  text : String
  deriving Repr, DecidableEq, Inhabited

/-- What a run gives. -/
structure RunResult where
  output : String
  /-- A diagnostic for each source that is refused. -/
  diagnostics : List Diagnostic
  sources : List Source
  deriving Repr, DecidableEq, Inhabited

/-- Whether no source is refused. -/
def RunResult.isSuccess (result : RunResult) : Bool :=
  result.diagnostics.isEmpty

/-- The report of a run. -/
def RunResult.report (color : Bool) (result : RunResult) : String :=
  let reporter : Reporter := result.sources.foldl
    (fun reporter source => reporter.addSource source.name source.text) { color }
  (reporter.render result.diagnostics).1

namespace Arguments

/-! ## Options -/

/-- The path of the options file. -/
def configPath? (arguments : Arguments) (workspace : Workspace) : Option String :=
  match arguments.config with
  | some path => some path
  | none => if workspace.isFile defaultConfig then some defaultConfig else none

/-- The options in the options file. -/
def fileOptions (arguments : Arguments) (workspace : Workspace) : Except RunError Options :=
  match arguments.configPath? workspace with
  | none => .ok {}
  | some path =>
    match workspace.read path with
    | none => .error (.unreadableOptions path)
    | some text => (Options.decode text).mapError (.rejectedOptions path)

/-- Options with those of the command line in place of others. -/
def override (arguments : Arguments) (options : Options) : Options where
  globalBinding := arguments.global.getD options.globalBinding
  scopeBinding := arguments.scope.getD options.scopeBinding
  moduleBinding := arguments.module.getD options.moduleBinding
  hoistFunctions := options.hoistFunctions && !arguments.noHoistFunctions
  indentWidth := options.indentWidth

/-- The options of a run. -/
def options (arguments : Arguments) (workspace : Workspace) : Except RunError Options := do
  let options := arguments.override (← arguments.fileOptions workspace)
  options.validate.mapError .invalidOptions
  return options

/-! ## Sources -/

/-- The sources of a run: the code on the command line, the files, or the input. -/
def sources (arguments : Arguments) (workspace : Workspace) : Except RunError (List Source) :=
  match arguments.eval with
  | some code => .ok [⟨"<eval>", code⟩]
  | none =>
    if arguments.files.isEmpty then
      match workspace.input with
      | some text => .ok [⟨"<stdin>", text⟩]
      | none => .error .unreadableStandardInput
    else
      arguments.files.mapM fun path =>
        match workspace.read path with
        | some text => .ok ⟨path, text⟩
        | none => .error (.unreadableInput path)

/-! ## Output -/

/-- A section in JSON. -/
def jsonSection (pretty : Bool) (name code : String) (bindings : Bindings) : String :=
  let record : Json.Value :=
    .object [("file", .string name), ("code", .string code), ("bindings", bindings.json)]
  (if pretty then record.pretty 0 else record.compact) ++ "\n"

/-- A section of plain code, which ends its last line. -/
def textSection (named : Bool) (name code : String) : String :=
  (if named then "// " ++ name ++ "\n" else "") ++ code ++
    (if code.endsWith "\n" then "" else "\n")

/-- The section of a source. -/
def writtenSection (arguments : Arguments) (options : Options) (named : Bool) (source : Source) :
    Except RebindError String := do
  let output ← rebind options source.text
  let code := if arguments.wrap then Rebind.wrap options output.code else output.code
  return if arguments.json then jsonSection arguments.pretty source.name code output.bindings
    else textSection named source.name code

/-- Rebinds sources under options whose names are valid. -/
def runSources (arguments : Arguments) (options : Options) (sources : List Source) : RunResult :=
  let named := sources.length > 1
  let results := sources.map fun source =>
    (source.name, arguments.writtenSection options named source)
  { output := String.join (results.filterMap fun (_, result) => result.toOption)
    diagnostics := results.filterMap fun (name, result) =>
      match result with
      | .ok _ => none
      | .error error => some (error.diagnostic name)
    sources }

/-- Carries out a command line. -/
def run (arguments : Arguments) (workspace : Workspace) : Except RunError RunResult := do
  let options ← arguments.options workspace
  let sources ← arguments.sources workspace
  return arguments.runSources options sources

end Arguments

end Rebind.CommandLine
