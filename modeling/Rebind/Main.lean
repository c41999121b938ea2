import Rebind.CommandLine.Run

/-!
# The command

Reads what the command line names, runs it, and writes the output and the report.
-/

namespace Rebind.CommandLine

/-- How the command is used. -/
def usage : String :=
  "Usage: rebind [OPTIONS] [FILES]...\n\n" ++
  "  -e, --eval <CODE>         Rebind this code instead of reading files\n" ++
  "  -c, --config <CONFIG>     Path to an options file\n" ++
  "      --global <NAME>       Name of the object for variables and functions\n" ++
  "      --scope <NAME>        Name of the object for lexical declarations and classes\n" ++
  "      --module <NAME>       Name of the object that stands for the module\n" ++
  "      --no-hoist-functions  Keep functions in the order of the source\n" ++
  "      --wrap                Print the function body that runs the code\n" ++
  "      --json                Print one JSON object for each input\n" ++
  "      --pretty              Lay the JSON out over lines\n" ++
  "  -h, --help                Print help\n" ++
  "  -V, --version             Print version\n"

/-- What is said about a command line that is refused. -/
def ArgumentsError.message : ArgumentsError → String
  | .unknownArgument => "unexpected argument found"
  | .argumentConflict => "an argument cannot be used with another one, or twice"
  | .invalidValue => "a value is required for an argument but none was supplied"
  | .missingRequiredArgument => "a required argument was not provided"
  | .tooManyValues => "unexpected value for an argument that takes none"
  | .displayHelp => usage
  | .displayVersion => "rebind 0.1.0"

/-- What lies behind an error that ends a run. -/
def RunError.cause? : RunError → Option String
  | .rejectedOptions _ error => error.cause?
  | .invalidOptions error => some error.message
  | _ => none

/-- The text that an action reads, if it succeeds. -/
def text? (action : IO String) : IO (Option String) := do
  try return some (← action) catch _ => return none

/-- The texts of the files that can be read. -/
def textsAt (paths : List String) : IO (List (String × Option String)) :=
  paths.mapM fun (path : String) => return (path, ← text? (IO.FS.readFile path))

/-- Whether the bytes of a file can be read. -/
def isReadable (path : String) : IO Bool := do
  try
    let _ ← IO.FS.readBinFile path
    return true
  catch _ => return false

/-- What the command line can need of its surroundings.  No input is read for a run that ends for
its options. -/
def surroundings (arguments : Arguments) : IO Workspace := do
  let settings ← textsAt (defaultConfig :: arguments.config.toList)
  let hasDefault ← isReadable defaultConfig
  let place (texts : List (String × Option String)) (input : Option String) : Workspace :=
    { read := fun path => (texts.lookup path).join
      isFile := fun path => path == defaultConfig && hasDefault
      input }
  match arguments.options (place settings none), arguments.eval, arguments.files with
  | .ok _, none, [] => return place settings (← text? do (← IO.getStdin).readToEnd)
  | .ok _, none, files => return place (settings ++ (← textsAt files)) none
  | _, _, _ => return place settings none

/-- Runs the command. -/
def command (words : List String) : IO UInt32 := do
  match Arguments.parse words with
  | .error .displayHelp => IO.print ArgumentsError.displayHelp.message; return 0
  | .error .displayVersion => IO.println ArgumentsError.displayVersion.message; return 0
  | .error error => IO.eprintln ("error: " ++ error.message); return 2
  | .ok arguments =>
    match arguments.run (← surroundings arguments) with
    | .error error =>
      IO.eprintln ("Error: " ++ error.message)
      for cause in error.cause? do IO.eprintln ("\nCaused by:\n    " ++ cause)
      return 1
    | .ok result =>
      IO.print result.output
      if result.isSuccess then return 0
      let count := result.diagnostics.length
      IO.eprintln (result.report (← (← IO.getStderr).isTty))
      IO.eprintln (s!"\nFound {count} error" ++ (if count == 1 then "." else "s."))
      return 1

end Rebind.CommandLine

def main (words : List String) : IO UInt32 :=
  Rebind.CommandLine.command words
