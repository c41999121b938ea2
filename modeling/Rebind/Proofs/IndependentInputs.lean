import Rebind.CommandLine.Run

/-!
# Sources of a run do not know of each other

A run writes a section for each source that has code and makes a diagnostic for each one that is
refused, and what it does with a source is what a run on that source alone does.  The one thing
that a section learns of the others is whether there are any: then the name of the source stands
before it, if the output is plain text (`inputs_are_independent`).
-/

namespace Rebind.CommandLine

namespace Arguments

variable (arguments : Arguments) (options : Options)

/-- A run on one source. -/
def runAlone (source : Source) : RunResult :=
  arguments.runSources options [source]

/-- Whether a source has code. -/
def hasCode (source : Source) : Bool :=
  (rebind options source.text).toOption.isSome

/-- The section for the code of a source. -/
def sectionFor (named : Bool) (source : Source) (output : Output) : String :=
  let code := if arguments.wrap then Rebind.wrap options output.code else output.code
  if arguments.json then jsonSection arguments.pretty source.name code output.bindings
  else textSection named source.name code

/-- What stands before the section of one of `count` sources. -/
def nameLine (count : Nat) (source : Source) : String :=
  if !arguments.json && 1 < count then "// " ++ source.name ++ "\n" else ""

/-! ## One source among others -/

theorem writtenSection_eq (named : Bool) (source : Source) :
    arguments.writtenSection options named source =
      (rebind options source.text).map (arguments.sectionFor options named source) := by
  unfold writtenSection
  cases rebind options source.text <;> rfl

theorem sectionFor_named (count : Nat) (source : Source) (output : Output) :
    arguments.sectionFor options (1 < count) source output =
      arguments.nameLine count source ++ arguments.sectionFor options false source output := by
  unfold sectionFor nameLine
  cases arguments.json with
  | true => simp
  | false =>
    by_cases hcount : 1 < count
    · simp [hcount, textSection, String.append_assoc]
    · simp [hcount]

/-- What a source adds to the output and to the diagnostics of a run. -/
def share (named : Bool) (source : Source) : String × List Diagnostic :=
  match rebind options source.text with
  | .ok output => (arguments.sectionFor options named source output, [])
  | .error e => ("", [e.diagnostic source.name])

theorem join_filterMap_written (named : Bool) (sources : List Source) :
    String.join ((sources.map fun source =>
        (source.name, arguments.writtenSection options named source)).filterMap
          fun (_, result) => result.toOption) =
      String.join (sources.map fun source => (arguments.share options named source).1) := by
  induction sources with
  | nil => rfl
  | cons source sources ih =>
    rw [List.map_cons, List.map_cons, List.filterMap_cons, String.join_cons, ← ih]
    simp only [writtenSection_eq, share]
    cases rebind options source.text with
    | ok output => simp [Except.map, Except.toOption, String.join_cons]
    | error e => simp [Except.map, Except.toOption]

theorem runSources_output (sources : List Source) :
    (arguments.runSources options sources).output =
      String.join (sources.map fun source =>
        (arguments.share options (1 < sources.length) source).1) :=
  join_filterMap_written arguments options _ sources

theorem runSources_diagnostics (sources : List Source) :
    (arguments.runSources options sources).diagnostics =
      sources.flatMap fun source => (arguments.share options false source).2 := by
  simp only [runSources]
  generalize decide (1 < sources.length) = named
  induction sources with
  | nil => rfl
  | cons source sources ih =>
    rw [List.map_cons, List.filterMap_cons, List.flatMap_cons, ← ih]
    simp only [writtenSection_eq, share]
    cases rebind options source.text <;> rfl

theorem runAlone_output (source : Source) :
    (arguments.runAlone options source).output = (arguments.share options false source).1 := by
  rw [runAlone, runSources_output]
  simp [String.join_cons]

theorem runAlone_diagnostics (source : Source) :
    (arguments.runAlone options source).diagnostics = (arguments.share options false source).2 := by
  rw [runAlone, runSources_diagnostics]
  exact List.append_nil _

theorem share_of_hasCode {source : Source} (h : hasCode options source = true) (count : Nat) :
    (arguments.share options (1 < count) source).1 =
      arguments.nameLine count source ++ (arguments.share options false source).1 := by
  unfold share
  unfold hasCode at h
  cases hcode : rebind options source.text with
  | ok output => exact arguments.sectionFor_named options count source output
  | error e =>
    rw [hcode] at h
    cases h

theorem share_of_not_hasCode {source : Source} (h : hasCode options source = false) (named : Bool) :
    (arguments.share options named source).1 = "" ∧
      (arguments.share options named source).2.length = 1 := by
  unfold share
  unfold hasCode at h
  cases hcode : rebind options source.text with
  | ok output =>
    rw [hcode] at h
    cases h
  | error e => exact ⟨rfl, rfl⟩

theorem share_diagnostics_of_hasCode {source : Source} (h : hasCode options source = true)
    (named : Bool) : (arguments.share options named source).2 = [] := by
  unfold share
  unfold hasCode at h
  cases hcode : rebind options source.text with
  | ok output => rfl
  | error e =>
    rw [hcode] at h
    cases h

/-! ## All sources -/

/-- Sources that add nothing can be left out. -/
theorem join_map_filter {f : Source → String} {p : Source → Bool}
    (hf : ∀ source, p source = false → f source = "") (sources : List Source) :
    String.join (sources.map f) = String.join ((sources.filter p).map f) := by
  induction sources with
  | nil => rfl
  | cons source sources ih =>
    rw [List.map_cons, String.join_cons, ih, List.filter_cons]
    cases hp : p source with
    | true => rw [if_pos rfl, List.map_cons, String.join_cons]
    | false => rw [if_neg (by decide), hf source hp, String.empty_append]

theorem flatMap_filter {α β : Type} {f : α → List β} {p : α → Bool}
    (hf : ∀ a, p a = false → f a = []) (items : List α) :
    items.flatMap f = (items.filter p).flatMap f := by
  induction items with
  | nil => rfl
  | cons a items ih =>
    rw [List.flatMap_cons, ih, List.filter_cons]
    cases hp : p a with
    | true => rw [if_pos rfl, List.flatMap_cons]
    | false => rw [if_neg (by decide), hf a hp, List.nil_append]

theorem runSources_output_eq (sources : List Source) :
    (arguments.runSources options sources).output =
      String.join ((sources.filter (hasCode options)).map fun source =>
        arguments.nameLine sources.length source ++
          (arguments.runAlone options source).output) := by
  rw [runSources_output, join_map_filter
    fun source h => (arguments.share_of_not_hasCode options h _).1]
  congr 1
  apply List.map_congr_left
  intro source hsource
  have hcode : hasCode options source = true := (List.mem_filter.1 hsource).2
  rw [share_of_hasCode arguments options hcode, runAlone_output]

theorem runSources_diagnostics_eq (sources : List Source) :
    (arguments.runSources options sources).diagnostics =
      (sources.filter (!hasCode options ·)).flatMap fun source =>
        (arguments.runAlone options source).diagnostics := by
  simp only [runSources_diagnostics, runAlone_diagnostics]
  apply flatMap_filter
  intro source hsource
  have hcode : hasCode options source = true := by simpa using hsource
  exact arguments.share_diagnostics_of_hasCode options hcode false

theorem length_diagnostics (sources : List Source) :
    (arguments.runSources options sources).diagnostics.length =
      (sources.filter (!hasCode options ·)).length := by
  rw [runSources_diagnostics_eq, List.length_flatMap]
  have hone : ∀ source ∈ sources.filter (!hasCode options ·),
      (arguments.runAlone options source).diagnostics.length = 1 := by
    intro source hsource
    have hcode : hasCode options source = false := by simpa using (List.mem_filter.1 hsource).2
    rw [runAlone_diagnostics]
    exact (arguments.share_of_not_hasCode options hcode false).2
  rw [List.map_congr_left hone, List.map_const', List.sum_replicate_nat, Nat.mul_one]

/-- In JSON no section depends on other sources. -/
theorem runSources_output_json (hjson : arguments.json = true) (sources : List Source) :
    (arguments.runSources options sources).output =
      String.join (sources.map fun source => (arguments.share options false source).1) := by
  rw [runSources_output]
  congr 1
  apply List.map_congr_left
  intro source _
  cases hcode : hasCode options source with
  | true =>
    have hline : arguments.nameLine sources.length source = "" := by simp [nameLine, hjson]
    rw [share_of_hasCode arguments options hcode, hline, String.empty_append]
  | false =>
    rw [(arguments.share_of_not_hasCode options hcode _).1,
      (arguments.share_of_not_hasCode options hcode _).1]

end Arguments

open Arguments in
/-- **The inputs of a run are independent.**  The output is one section for each source that has
code, in order, and there is one diagnostic for each other source, in order.  Sections and
diagnostics are those of a run on the source alone, but for a line with its name before a section
in plain text if there are several sources.  In JSON the output for some sources followed by
others is the output for the first ones followed by that for the others. -/
theorem inputs_are_independent (arguments : Arguments) (options : Options)
    (sources : List Source) :
    let result := arguments.runSources options sources
    let accepted := sources.filter (hasCode options)
    let refused := sources.filter (!hasCode options ·)
    (∀ source, match rebind options source.text with
      | .ok output =>
        (arguments.runAlone options source).output =
            arguments.sectionFor options false source output ∧
          (arguments.runAlone options source).diagnostics = []
      | .error e =>
        (arguments.runAlone options source).output = "" ∧
          (arguments.runAlone options source).diagnostics = [e.diagnostic source.name]) ∧
    result.output = String.join (accepted.map fun source =>
      arguments.nameLine sources.length source ++ (arguments.runAlone options source).output) ∧
    result.diagnostics = refused.flatMap (fun source =>
      (arguments.runAlone options source).diagnostics) ∧
    accepted.length + result.diagnostics.length = sources.length ∧
    (result.isSuccess = true ↔ ∀ source ∈ sources, hasCode options source = true) ∧
    (arguments.json = true → ∀ more, (arguments.runSources options (sources ++ more)).output =
      result.output ++ (arguments.runSources options more).output) := by
  intro result accepted refused
  have hlength : result.diagnostics.length = refused.length :=
    arguments.length_diagnostics options sources
  refine ⟨?_, arguments.runSources_output_eq options sources,
    arguments.runSources_diagnostics_eq options sources, ?_, ?_, ?_⟩
  · intro source
    rw [runAlone_output, runAlone_diagnostics, share]
    cases rebind options source.text with
    | ok output => exact ⟨rfl, rfl⟩
    | error e => exact ⟨rfl, rfl⟩
  · have hsplit := List.length_eq_countP_add_countP (hasCode options) (l := sources)
    rw [List.countP_eq_length_filter, List.countP_eq_length_filter] at hsplit
    rw [hlength, hsplit]
    simp [accepted, refused]
  · rw [RunResult.isSuccess, List.isEmpty_iff_length_eq_zero, hlength, List.length_eq_zero_iff,
      List.filter_eq_nil_iff]
    simp
  · intro hjson more
    rw [arguments.runSources_output_json options hjson, List.map_append, String.join_append,
      arguments.runSources_output_json options hjson more]
    congr 1
    exact (arguments.runSources_output_json options hjson sources).symm

/-- A refused input adds nothing to the JSON of the others. -/
theorem json_around_refused_input :
    let json : Arguments := { json := true }
    let bad : Source := ⟨"bad.js", "let = ;"⟩
    let good : Source := ⟨"good.js", "1"⟩
    json.json = true ∧
      (json.runSources {} [bad]).output = "" ∧
      (json.runSources {} [bad, good]).output = (json.runSources {} [good]).output := by
  intro json bad good
  have hbad : (json.runSources {} [bad]).output = "" := by decide +kernel
  have happend := (inputs_are_independent json {} [bad]).2.2.2.2.2 rfl [good]
  rw [hbad, String.empty_append] at happend
  exact ⟨rfl, hbad, happend⟩

example : (({} : Arguments).runSources {} [⟨"bad.js", "let = ;"⟩, ⟨"good.js", "1"⟩]).output =
    "// good.js\nreturn 1;\n" := by decide +kernel

end Rebind.CommandLine
