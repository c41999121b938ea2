import Mathlib.Data.List.Forall2
import Rebind.CommandLine.Run

/-!
# The options of a run

The options of a run start from a file or from the defaults (`StartsFrom`).  What the command line
says takes the place of what they say, field by field (`Combined`), and only then the names are
looked at (`Resolves`).  All this comes before the sources are read (`Inputs`), so a run that fails
for its options fails in the same way whatever its sources are (`options_resolve_before_inputs`).
-/

namespace Rebind.CommandLine

/-! ## Names in options -/

/-- The options that are names of objects of the host. -/
inductive HostObject where
  | global
  | scope
  | module
  deriving DecidableEq

namespace HostObject

/-- The objects in the order in which their names are checked. -/
def all : List HostObject := [.global, .scope, .module]

/-- The option for the name of an object. -/
def option : HostObject → String
  | global => "globalBinding"
  | scope => "scopeBinding"
  | module => "moduleBinding"

/-- The name of an object in options. -/
def nameIn (options : Options) : HostObject → String
  | global => options.globalBinding
  | scope => options.scopeBinding
  | module => options.moduleBinding

/-- The name that a command line gives to an object. -/
def given (arguments : Arguments) : HostObject → Option String
  | global => arguments.global
  | scope => arguments.scope
  | module => arguments.module

/-- Options with another name for an object. -/
def rename (options : Options) (name : String) : HostObject → Options
  | global => { options with globalBinding := name }
  | scope => { options with scopeBinding := name }
  | module => { options with moduleBinding := name }

/-- The first object whose name is none. -/
def firstUnnamed (options : Options) : Option HostObject :=
  all.find? fun object => !isBindingName (object.nameIn options)

theorem firstUnnamed_eq_none {options : Options} :
    firstUnnamed options = none ↔ ∀ object, isBindingName (nameIn options object) = true := by
  constructor
  · intro h object
    have hmem : object ∈ all := by cases object <;> decide
    simpa using List.find?_eq_none.1 h object hmem
  · intro h
    exact List.find?_eq_none.2 fun object _ => by simp [h object]

/-- The names are checked in order, and the first one that is none is the error. -/
theorem validate_eq (options : Options) :
    options.validate =
      match firstUnnamed options with
      | none => .ok ()
      | some object => .error (.invalidOption object.option (object.nameIn options)) := by
  cases hglobal : isBindingName options.globalBinding <;>
    cases hscope : isBindingName options.scopeBinding <;>
    cases hmodule : isBindingName options.moduleBinding <;>
    simp [Options.validate, Options.checkBinding, firstUnnamed, all, nameIn, option, hglobal,
      hscope, hmodule, bind, Except.bind]

end HostObject

/-! ## What the options of a run are -/

section Resolves

variable (arguments : Arguments) (workspace : Workspace)

/-- The file with options that a run reads: the one that is named, else the default one if it is
there. -/
inductive UsesFile : String → Prop where
  | named {path : String} (h : arguments.config = some path) : UsesFile path
  | default (h : arguments.config = none) (hpresent : workspace.isFile defaultConfig = true) :
      UsesFile defaultConfig

/-- What the options of a run are before the command line changes them. -/
inductive StartsFrom : Except RunError Options → Prop where
  | defaults (h : ∀ path, ¬ UsesFile arguments workspace path) : StartsFrom (.ok {})
  | unreadable {path : String} (hfile : UsesFile arguments workspace path)
      (hread : workspace.read path = none) : StartsFrom (.error (.unreadableOptions path))
  | rejected {path text : String} {e : OptionsError} (hfile : UsesFile arguments workspace path)
      (hread : workspace.read path = some text) (hdecode : Options.decode text = .error e) :
      StartsFrom (.error (.rejectedOptions path e))
  | file {path text : String} {options : Options} (hfile : UsesFile arguments workspace path)
      (hread : workspace.read path = some text) (hdecode : Options.decode text = .ok options) :
      StartsFrom (.ok options)

/-- Options say what the command line says, and else what others say. -/
structure Combined (base options : Options) : Prop where
  names : ∀ object : HostObject,
    object.nameIn options = (object.given arguments).getD (object.nameIn base)
  hoist : options.hoistFunctions =
    if arguments.noHoistFunctions then false else base.hoistFunctions
  width : options.indentWidth = base.indentWidth

/-- What comes of the options of a run. -/
inductive Resolves : Except RunError Options → Prop where
  | failed {e : RunError} (hstart : StartsFrom arguments workspace (.error e)) :
      Resolves (.error e)
  | invalid {base options : Options} {object : HostObject}
      (hstart : StartsFrom arguments workspace (.ok base))
      (hcombined : Combined arguments base options)
      (hfirst : HostObject.firstUnnamed options = some object) :
      Resolves (.error (.invalidOptions (.invalidOption object.option (object.nameIn options))))
  | valid {base options : Options} (hstart : StartsFrom arguments workspace (.ok base))
      (hcombined : Combined arguments base options)
      (hnames : ∀ object : HostObject, isBindingName (object.nameIn options) = true) :
      Resolves (.ok options)

/-- What comes of the inputs of a run: its sources, or the error for the first input that cannot
be read. -/
inductive Inputs : Except RunError (List Source) → Prop where
  | code {code : String} (heval : arguments.eval = some code) : Inputs (.ok [⟨"<eval>", code⟩])
  | standard {text : String} (heval : arguments.eval = none) (hfiles : arguments.files = [])
      (hread : workspace.input = some text) : Inputs (.ok [⟨"<stdin>", text⟩])
  | unreadableStandard (heval : arguments.eval = none) (hfiles : arguments.files = [])
      (hread : workspace.input = none) : Inputs (.error .unreadableStandardInput)
  | files {sources : List Source} (heval : arguments.eval = none) (hfiles : arguments.files ≠ [])
      (hread : List.Forall₂
        (fun path source => source.name = path ∧ workspace.read path = some source.text)
        arguments.files sources) : Inputs (.ok sources)
  | unreadable {front back : List String} {path : String} (heval : arguments.eval = none)
      (hfiles : arguments.files = front ++ path :: back)
      (hfront : ∀ earlier ∈ front, (workspace.read earlier).isSome = true)
      (hread : workspace.read path = none) : Inputs (.error (.unreadableInput path))

end Resolves

/-- What a run gives for its options and its inputs. -/
def outcome (arguments : Arguments) :
    Except RunError Options → Except RunError (List Source) → Except RunError RunResult
  | .error e, _ => .error e
  | .ok _, .error e => .error e
  | .ok options, .ok sources => .ok (arguments.runSources options sources)

/-- Two command lines say the same about options. -/
structure SameSettings (arguments other : Arguments) : Prop where
  config : other.config = arguments.config
  names : ∀ object : HostObject, object.given other = object.given arguments
  noHoistFunctions : other.noHoistFunctions = arguments.noHoistFunctions

/-- A command line finds the same file with options at two places. -/
structure SameConfig (arguments : Arguments) (workspace elsewhere : Workspace) : Prop where
  isFile : elsewhere.isFile defaultConfig = workspace.isFile defaultConfig
  read : ∀ path, UsesFile arguments workspace path → elsewhere.read path = workspace.read path

/-! ## The functions of a run -/

section Functions

variable {arguments : Arguments} {workspace : Workspace}

theorem usesFile_iff {path : String} :
    UsesFile arguments workspace path ↔ arguments.configPath? workspace = some path := by
  unfold Arguments.configPath?
  constructor
  · rintro (hnamed | ⟨hnone, hpresent⟩)
    · rw [hnamed]
    · rw [hnone]
      simp [hpresent]
  · intro h
    split at h
    · next named hnamed =>
      cases h
      exact .named hnamed
    · next hnone =>
      split at h
      · next hpresent =>
        cases h
        exact .default hnone hpresent
      · cases h

theorem startsFrom_iff {start : Except RunError Options} :
    StartsFrom arguments workspace start ↔ arguments.fileOptions workspace = start := by
  unfold Arguments.fileOptions
  constructor
  · intro h
    cases h with
    | defaults h =>
      have hnone : arguments.configPath? workspace = none :=
        Option.eq_none_iff_forall_ne_some.2 fun path hpath => h path (usesFile_iff.2 hpath)
      rw [hnone]
    | unreadable hfile hread => simp [usesFile_iff.1 hfile, hread]
    | rejected hfile hread hdecode => simp [usesFile_iff.1 hfile, hread, hdecode, Except.mapError]
    | file hfile hread hdecode => simp [usesFile_iff.1 hfile, hread, hdecode, Except.mapError]
  · rintro rfl
    split
    · next hnone => exact .defaults fun path hpath => by simp [usesFile_iff.1 hpath] at hnone
    · next path hpath =>
      have hfile := usesFile_iff.2 hpath
      split
      · next hread => exact .unreadable hfile hread
      · next text hread =>
        cases hdecode : Options.decode text with
        | error e => exact .rejected hfile hread hdecode
        | ok options => exact .file hfile hread hdecode

theorem combined_iff {base options : Options} :
    Combined arguments base options ↔ options = arguments.override base := by
  constructor
  · rintro ⟨hnames, hhoist, hwidth⟩
    obtain ⟨global, scope, module, hoist, width⟩ := options
    have hglobal := hnames .global
    have hscope := hnames .scope
    have hmodule := hnames .module
    simp only [HostObject.nameIn, HostObject.given] at hglobal hscope hmodule
    simp only at hhoist hwidth
    subst hglobal hscope hmodule hwidth
    rw [Arguments.override, hhoist]
    cases arguments.noHoistFunctions <;> simp
  · rintro rfl
    refine ⟨fun object => by cases object <;> rfl, ?_, rfl⟩
    rw [Arguments.override]
    cases arguments.noHoistFunctions <;> simp

/-- The options of a run, with what can go wrong in the order in which it is looked at. -/
theorem options_eq (arguments : Arguments) (workspace : Workspace) :
    arguments.options workspace =
      match arguments.fileOptions workspace with
      | .error e => .error e
      | .ok base =>
        match HostObject.firstUnnamed (arguments.override base) with
        | none => .ok (arguments.override base)
        | some object => .error (.invalidOptions
            (.invalidOption object.option (object.nameIn (arguments.override base)))) := by
  rw [Arguments.options]
  cases arguments.fileOptions workspace with
  | error e => rfl
  | ok base =>
    simp only [bind, Except.bind, HostObject.validate_eq]
    cases HostObject.firstUnnamed (arguments.override base) <;> rfl

theorem resolves_iff {result : Except RunError Options} :
    Resolves arguments workspace result ↔ arguments.options workspace = result := by
  rw [options_eq]
  constructor
  · rintro (hstart | ⟨hstart, hcombined, hfirst⟩ | ⟨hstart, hcombined, hnames⟩)
    · rw [startsFrom_iff.1 hstart]
    · rw [startsFrom_iff.1 hstart]
      simp only [← combined_iff.1 hcombined, hfirst]
    · rw [startsFrom_iff.1 hstart]
      simp only [← combined_iff.1 hcombined, HostObject.firstUnnamed_eq_none.2 hnames]
  · rintro rfl
    cases hstart : arguments.fileOptions workspace with
    | error e => exact .failed (startsFrom_iff.2 hstart)
    | ok base =>
      cases hfirst : HostObject.firstUnnamed (arguments.override base) with
      | none =>
        simp only [hfirst]
        exact .valid (startsFrom_iff.2 hstart) (combined_iff.2 rfl)
          (HostObject.firstUnnamed_eq_none.1 hfirst)
      | some object =>
        simp only [hfirst]
        exact .invalid (startsFrom_iff.2 hstart) (combined_iff.2 rfl) hfirst

/-- The file at a path as a source. -/
def readSource (workspace : Workspace) (path : String) : Except RunError Source :=
  match workspace.read path with
  | some text => .ok ⟨path, text⟩
  | none => .error (.unreadableInput path)

theorem mapM_readSource_of_forall {paths : List String} {sources : List Source}
    (h : List.Forall₂
      (fun path source => source.name = path ∧ workspace.read path = some source.text)
      paths sources) : paths.mapM (readSource workspace) = .ok sources := by
  induction h with
  | nil => rfl
  | cons hsource _ ih =>
    obtain ⟨rfl, hread⟩ := hsource
    simp [List.mapM_cons, readSource, hread, ih, bind, Except.bind, pure, Except.pure]

theorem mapM_readSource_of_unreadable {front back : List String} {path : String}
    (hfront : ∀ earlier ∈ front, (workspace.read earlier).isSome = true)
    (hread : workspace.read path = none) :
    (front ++ path :: back).mapM (readSource workspace) = .error (.unreadableInput path) := by
  induction front with
  | nil => simp [List.mapM_cons, readSource, hread, bind, Except.bind]
  | cons earlier front ih =>
    obtain ⟨text, htext⟩ := Option.isSome_iff_exists.1 (hfront earlier (by simp))
    rw [List.cons_append, List.mapM_cons, ih fun later h => hfront later (by simp [h])]
    simp [readSource, htext, bind, Except.bind]

/-- Either all files can be read, or there is a first one that cannot. -/
theorem readable_or_unreadable (workspace : Workspace) (paths : List String) :
    (∃ sources : List Source, List.Forall₂
      (fun path source => source.name = path ∧ workspace.read path = some source.text)
      paths sources) ∨
    ∃ front path back, paths = front ++ path :: back ∧
      (∀ earlier ∈ front, (workspace.read earlier).isSome = true) ∧
      workspace.read path = none := by
  induction paths with
  | nil => exact .inl ⟨[], .nil⟩
  | cons path paths ih =>
    cases hread : workspace.read path with
    | none => exact .inr ⟨[], path, paths, rfl, by simp, hread⟩
    | some text =>
      obtain ⟨sources, hsources⟩ | ⟨front, bad, back, rfl, hfront, hbad⟩ := ih
      · exact .inl ⟨⟨path, text⟩ :: sources, .cons ⟨rfl, hread⟩ hsources⟩
      · exact .inr ⟨path :: front, bad, back, rfl, by simpa [hread] using hfront, hbad⟩

theorem sources_of_inputs {inputs : Except RunError (List Source)}
    (h : Inputs arguments workspace inputs) : arguments.sources workspace = inputs := by
  unfold Arguments.sources
  cases h with
  | code heval => rw [heval]
  | standard heval hfiles hread => simp [heval, hfiles, hread]
  | unreadableStandard heval hfiles hread => simp [heval, hfiles, hread]
  | files heval hfiles hread =>
    simp only [heval, List.isEmpty_iff, hfiles, if_false]
    exact mapM_readSource_of_forall hread
  | unreadable heval hfiles hfront hread =>
    simp only [heval, hfiles, List.isEmpty_iff, List.append_eq_nil_iff, reduceCtorEq, and_false,
      if_false]
    exact mapM_readSource_of_unreadable hfront hread

theorem exists_inputs (arguments : Arguments) (workspace : Workspace) :
    ∃ inputs, Inputs arguments workspace inputs := by
  cases heval : arguments.eval with
  | some code => exact ⟨_, .code heval⟩
  | none =>
    by_cases hfiles : arguments.files = []
    · cases hread : workspace.input with
      | some text => exact ⟨_, .standard heval hfiles hread⟩
      | none => exact ⟨_, .unreadableStandard heval hfiles hread⟩
    obtain ⟨sources, hsources⟩ | ⟨front, path, back, hpaths, hfront, hread⟩ :=
      readable_or_unreadable workspace arguments.files
    · exact ⟨_, .files heval hfiles hsources⟩
    · exact ⟨_, .unreadable heval hpaths hfront hread⟩

/-- The inputs of a run are determined by the command line and the place. -/
theorem Inputs.unique {inputs inputs' : Except RunError (List Source)}
    (h : Inputs arguments workspace inputs) (h' : Inputs arguments workspace inputs') :
    inputs = inputs' :=
  (sources_of_inputs h).symm.trans (sources_of_inputs h')

/-- A run looks at its options first, then at its inputs. -/
theorem run_eq_outcome {inputs : Except RunError (List Source)}
    (h : Inputs arguments workspace inputs) :
    arguments.run workspace = outcome arguments (arguments.options workspace) inputs := by
  rw [Arguments.run, sources_of_inputs h]
  cases arguments.options workspace <;> cases inputs <;> rfl

/-! ## What options depend on -/

theorem SameSettings.configPath?_eq {other : Arguments} {elsewhere : Workspace}
    (hsettings : SameSettings arguments other)
    (hconfig : SameConfig arguments workspace elsewhere) :
    other.configPath? elsewhere = arguments.configPath? workspace := by
  rw [Arguments.configPath?, Arguments.configPath?, hsettings.config, hconfig.isFile]

theorem SameSettings.fileOptions_eq {other : Arguments} {elsewhere : Workspace}
    (hsettings : SameSettings arguments other)
    (hconfig : SameConfig arguments workspace elsewhere) :
    other.fileOptions elsewhere = arguments.fileOptions workspace := by
  rw [Arguments.fileOptions, Arguments.fileOptions, hsettings.configPath?_eq hconfig]
  cases hpath : arguments.configPath? workspace with
  | none => rfl
  | some path => simp only [hconfig.read path (usesFile_iff.2 hpath)]

theorem SameSettings.override_eq {other : Arguments} (hsettings : SameSettings arguments other)
    (base : Options) : other.override base = arguments.override base := by
  have hglobal := hsettings.names .global
  have hscope := hsettings.names .scope
  have hmodule := hsettings.names .module
  simp only [HostObject.given] at hglobal hscope hmodule
  simp only [Arguments.override, hglobal, hscope, hmodule, hsettings.noHoistFunctions]

/-- Options depend on nothing but what is said about them. -/
theorem SameSettings.options_eq {other : Arguments} {elsewhere : Workspace}
    (hsettings : SameSettings arguments other)
    (hconfig : SameConfig arguments workspace elsewhere) :
    other.options elsewhere = arguments.options workspace := by
  rw [Arguments.options, Arguments.options, hsettings.fileOptions_eq hconfig]
  simp only [hsettings.override_eq]

/-- A name that the command line gives takes the place of any other. -/
theorem override_rename {object : HostObject} {name : String}
    (hgiven : object.given arguments = some name) (base : Options) (other : String) :
    arguments.override (object.rename base other) = arguments.override base := by
  cases object <;> simp only [HostObject.given] at hgiven <;>
    simp [Arguments.override, HostObject.rename, hgiven]

/-- A name that is none, and that the command line leaves as it is, is an error. -/
theorem options_of_unnamed {base : Options} {object : HostObject}
    (hstart : StartsFrom arguments workspace (.ok base))
    (hgiven : object.given arguments = none)
    (hname : isBindingName (object.nameIn base) = false) :
    ∃ e, arguments.options workspace = .error (.invalidOptions e) := by
  have hcombined : Combined arguments base (arguments.override base) := combined_iff.2 rfl
  have hsome : HostObject.firstUnnamed (arguments.override base) ≠ none := by
    intro hnone
    have hvalid := HostObject.firstUnnamed_eq_none.1 hnone object
    rw [hcombined.names object, hgiven, Option.getD_none, hname] at hvalid
    exact absurd hvalid (by decide)
  obtain ⟨first, hfirst⟩ := Option.ne_none_iff_exists'.1 hsome
  exact ⟨_, resolves_iff.1 (.invalid hstart hcombined hfirst)⟩

/-- Options are resolved field by field, and before any input is read.  An error in them does not
depend on the inputs, on whether they can be read, or on where they are: code, files or the
standard input.  A name that is none does no harm where the command line gives another one,
and is an error where it does not. -/
theorem options_resolve_before_inputs (arguments : Arguments) (workspace : Workspace) :
    ∃ resolved inputs,
      (∀ result, Resolves arguments workspace result ↔ result = resolved) ∧
      (∀ result, Inputs arguments workspace result ↔ result = inputs) ∧
      arguments.run workspace = outcome arguments resolved inputs ∧
      (∀ e, resolved = .error e → ∀ other elsewhere, SameSettings arguments other →
        SameConfig arguments workspace elsewhere → other.run elsewhere = .error e) ∧
      ∀ base (object : HostObject), StartsFrom arguments workspace (.ok base) →
        match object.given arguments with
        | some _ => ∀ elsewhere name,
            StartsFrom arguments elsewhere (.ok (object.rename base name)) →
            ∀ result, Resolves arguments elsewhere result ↔ result = resolved
        | none => isBindingName (object.nameIn base) = false →
            ∃ e, resolved = .error (.invalidOptions e) := by
  obtain ⟨inputs, hinputs⟩ := exists_inputs arguments workspace
  refine ⟨arguments.options workspace, inputs, fun result => ?_, fun result => ?_,
    run_eq_outcome hinputs, ?_, ?_⟩
  · rw [resolves_iff, eq_comm]
  · exact ⟨fun h => h.unique hinputs, fun h => h ▸ hinputs⟩
  · intro e herror other elsewhere hsettings hconfig
    obtain ⟨found, hfound⟩ := exists_inputs other elsewhere
    rw [run_eq_outcome hfound, hsettings.options_eq hconfig, herror]
    rfl
  · intro base object hstart
    split
    · next name hgiven =>
      intro elsewhere other hother result
      rw [resolves_iff, eq_comm, options_eq, options_eq, startsFrom_iff.1 hstart,
        startsFrom_iff.1 hother]
      simp only [override_rename hgiven]
    · next hgiven => exact options_of_unnamed hstart hgiven

end Functions

/-- A folder with a file of options in which the name of the scope is none. -/
def unnamedScope : Workspace where
  read path := if path = defaultConfig then
    some "\x7b\"scopeBinding\": \"my scope\", \"indentWidth\": 2\x7d" else none
  isFile path := path = defaultConfig
  input := none

/-- With a name from the command line the source that cannot be read is the error, a file or the
standard input, and without it the options are, whatever the sources. -/
theorem name_of_scope_is_overridden :
    (Arguments.run { scope := some "s", files := ["a.js"] } unnamedScope =
      .error (.unreadableInput "a.js")) ∧
    (Arguments.run { scope := some "s" } unnamedScope = .error .unreadableStandardInput) ∧
    ∃ e, ∀ files input, Arguments.run { files } { unnamedScope with input } =
      .error (.invalidOptions e) := by
  have hstart (arguments : Arguments) (h : arguments.config = none) :
      StartsFrom arguments unnamedScope
        (.ok { scopeBinding := "my scope", indentWidth := 2 }) :=
    .file (.default h (by decide)) rfl (by decide +kernel)
  -- the run of a command line that names the scope, by what comes of its inputs
  have hrun (files : List String) {e : RunError}
      (hinputs : Inputs { scope := some "s", files } unnamedScope (.error e)) :
      Arguments.run { scope := some "s", files } unnamedScope = .error e := by
    obtain ⟨resolved, inputs, hresolved, hunique, hrun, -⟩ :=
      options_resolve_before_inputs { scope := some "s", files } unnamedScope
    have hoptions := (hresolved (.ok { scopeBinding := "s", indentWidth := 2 })).1
      (.valid (hstart _ rfl) (combined_iff.2 rfl) fun object => by cases object <;> decide +kernel)
    rw [hrun, ← hoptions, ← (hunique _).1 hinputs]
    rfl
  refine ⟨hrun _ (@Inputs.unreadable _ _ [] [] "a.js" rfl rfl (by simp) (by decide)),
    hrun _ (.unreadableStandard rfl rfl rfl), ?_⟩
  obtain ⟨resolved, inputs, -, -, -, hsame, hnames⟩ :=
    options_resolve_before_inputs {} unnamedScope
  obtain ⟨e, he⟩ := hnames _ .scope (hstart _ rfl) (by decide +kernel)
  exact ⟨e, fun files input => hsame _ he _ _ ⟨rfl, fun object => by cases object <;> rfl, rfl⟩
    ⟨rfl, fun _ _ => rfl⟩⟩

end Rebind.CommandLine
