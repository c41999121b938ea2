/-!
# Command lines

A command line is a list of words.  A word that starts with a dash names an option, and an option
that takes a value takes it from the same word or from the next one.  All other words, and all
words after `--`, are files.

An option with its value in the next word, and a run of files, stay open until something else
follows, and only then are they checked.  So the first problem from left to right counts.
-/

namespace Rebind.CommandLine

/-- The options that take a value. -/
inductive Setting where
  | eval
  | config
  | global
  | scope
  | module
  deriving Repr, DecidableEq

/-- The options without a value. -/
inductive Switch where
  | noHoistFunctions
  | wrap
  | json
  | pretty
  deriving Repr, DecidableEq

/-- What a word with a dash names. -/
inductive Item where
  | setting (setting : Setting)
  | switch (switch : Switch)
  | help
  | version
  deriving Repr, DecidableEq

/-- The item of a long name. -/
def Item.ofLongName? : String → Option Item
  | "eval" => some (.setting .eval)
  | "config" => some (.setting .config)
  | "global" => some (.setting .global)
  | "scope" => some (.setting .scope)
  | "module" => some (.setting .module)
  | "no-hoist-functions" => some (.switch .noHoistFunctions)
  | "wrap" => some (.switch .wrap)
  | "json" => some (.switch .json)
  | "pretty" => some (.switch .pretty)
  | "help" => some .help
  | "version" => some .version
  | _ => none

/-- The item of a letter. -/
def Item.ofLetter? : Char → Option Item
  | 'e' => some (.setting .eval)
  | 'c' => some (.setting .config)
  | 'h' => some .help
  | 'V' => some .version
  | _ => none

/-- Why a command line is not carried out on sources. -/
inductive ArgumentsError where
  | unknownArgument
  /-- An option is given twice, or two things are given that exclude each other. -/
  | argumentConflict
  /-- A value is missing, or it is no path. -/
  | invalidValue
  /-- An option is given without the one that it needs. -/
  | missingRequiredArgument
  /-- A value is given to an option that takes none. -/
  | tooManyValues
  /-- Help is asked for. -/
  | displayHelp
  /-- The version is asked for. -/
  | displayVersion
  deriving Repr, DecidableEq, Inhabited

/-- What a command line says. -/
structure Arguments where
  /-- The snippet to rebind, in place of files. -/
  eval : Option String := none
  /-- The file with the options. -/
  config : Option String := none
  global : Option String := none
  scope : Option String := none
  module : Option String := none
  noHoistFunctions : Bool := false
  /-- Whether the function body around the code is written too. -/
  wrap : Bool := false
  json : Bool := false
  /-- Whether JSON is laid out over lines. -/
  pretty : Bool := false
  files : List String := []
  deriving Repr, DecidableEq, Inhabited

namespace Arguments

/-- The value of a setting. -/
def value? (arguments : Arguments) : Setting → Option String
  | .eval => arguments.eval
  | .config => arguments.config
  | .global => arguments.global
  | .scope => arguments.scope
  | .module => arguments.module

/-- Gives a setting its value. -/
def setValue (arguments : Arguments) (value : String) : Setting → Arguments
  | .eval => { arguments with eval := some value }
  | .config => { arguments with config := some value }
  | .global => { arguments with global := some value }
  | .scope => { arguments with scope := some value }
  | .module => { arguments with module := some value }

/-- Whether a switch is on. -/
def isOn (arguments : Arguments) : Switch → Bool
  | .noHoistFunctions => arguments.noHoistFunctions
  | .wrap => arguments.wrap
  | .json => arguments.json
  | .pretty => arguments.pretty

/-- Turns a switch on. -/
def turnOn (arguments : Arguments) : Switch → Arguments
  | .noHoistFunctions => { arguments with noHoistFunctions := true }
  | .wrap => { arguments with wrap := true }
  | .json => { arguments with json := true }
  | .pretty => { arguments with pretty := true }

end Arguments

/-! ## What is open -/

/-- What the last words have left open. -/
inductive Pending where
  | nothing
  /-- A setting, and its value once that has come. -/
  | setting (setting : Setting) (value? : Option String)
  /-- A run of files. -/
  | files (paths : List String)
  deriving Repr, DecidableEq, Inhabited

/-- Takes a setting with its value.  Only the file with the options has to have a name. -/
def Arguments.takeSetting (arguments : Arguments) (setting : Setting) (value : String) :
    Except ArgumentsError Arguments :=
  if (arguments.value? setting).isSome then .error .argumentConflict
  else if setting = .config ∧ value.isEmpty then .error .invalidValue
  else .ok (arguments.setValue value setting)

/-- Takes what is open. -/
def Arguments.close (arguments : Arguments) : Pending → Except ArgumentsError Arguments
  | .nothing => .ok arguments
  | .setting _ none => .error .invalidValue
  | .setting setting (some value) => arguments.takeSetting setting value
  | .files paths =>
    if paths.any String.isEmpty then .error .invalidValue
    else .ok { arguments with files := arguments.files ++ paths }

/-- What a command line says from some word on. -/
structure Progress where
  arguments : Arguments := {}
  pending : Pending := .nothing
  deriving Repr, DecidableEq, Inhabited

namespace Progress

/-- Everything that the words have said so far. -/
def close (progress : Progress) : Except ArgumentsError Arguments :=
  progress.arguments.close progress.pending

/-- Takes a file. -/
def takeFile (progress : Progress) (path : String) : Except ArgumentsError Progress := do
  match progress.pending with
  | .files paths => return { progress with pending := .files (paths ++ [path]) }
  | _ => return { arguments := ← progress.close, pending := .files [path] }

/-- Takes a word that names no option: the value that is missing, or a file. -/
def takePlain (progress : Progress) (word : String) : Except ArgumentsError Progress :=
  match progress.pending with
  | .setting setting none => .ok { progress with pending := .setting setting (some word) }
  | _ => progress.takeFile word

/-- Takes an item, with the value that stands in the same word. -/
def takeItem (progress : Progress) (value? : Option String) :
    Item → Except ArgumentsError Progress
  | .setting setting => do
    let arguments ← progress.close
    match value? with
    | some value => return { arguments := ← arguments.takeSetting setting value }
    | none => return { arguments, pending := .setting setting none }
  | .switch switch => do
    if value?.isSome then throw .tooManyValues
    let arguments ← progress.close
    if arguments.isOn switch then throw .argumentConflict
    return { arguments := arguments.turnOn switch }
  | .help => do
    if value?.isSome then throw .tooManyValues
    let _ ← progress.close
    throw .displayHelp
  | .version => do
    if value?.isSome then throw .tooManyValues
    let _ ← progress.close
    throw .displayVersion

/-- The name in a long word and the value past its first equals sign. -/
def splitLong (word : List Char) : List Char × Option (List Char) :=
  match word.dropWhile (· != '=') with
  | [] => (word, none)
  | _ :: value => (word.takeWhile (· != '='), some value)

/-- The value that follows a letter in its word; an equals sign before it does not belong to it. -/
def attachedValue : List Char → Option (List Char)
  | [] => none
  | '=' :: value => some value
  | value => some value

/-- Takes a word before `--`. -/
def takeWord (progress : Progress) (word : String) : Except ArgumentsError Progress :=
  match word.toList with
  | '-' :: '-' :: long =>
    let (name, value?) := splitLong long
    match Item.ofLongName? (String.ofList name) with
    | some item => progress.takeItem (value?.map String.ofList) item
    | none => .error .unknownArgument
  | '-' :: letter :: rest =>
    match Item.ofLetter? letter with
    | some (.setting setting) =>
      progress.takeItem ((attachedValue rest).map String.ofList) (.setting setting)
    | some item => progress.takeItem none item
    | none => .error .unknownArgument
  | _ => progress.takePlain word

/-- Takes the words of a command line. -/
def takeWords (progress : Progress) : List String → Except ArgumentsError Progress
  | [] => .ok progress
  | word :: words => do
    if word = "--" then words.foldlM takeFile progress
    else (← progress.takeWord word).takeWords words

end Progress

/-- What a command line says.  Code and files exclude each other, and only JSON is laid out. -/
def Arguments.parse (words : List String) : Except ArgumentsError Arguments := do
  let arguments ← (← Progress.takeWords {} words).close
  if arguments.eval.isSome ∧ arguments.files ≠ [] then throw .argumentConflict
  if arguments.pretty ∧ !arguments.json then throw .missingRequiredArgument
  return arguments

end Rebind.CommandLine
