import Rebind.Proofs.Excerpts
import Rebind.Proofs.IndependentInputs
import Rebind.Proofs.Reading.Starts
import Rebind.Proofs.ReporterAnswers

/-!
# Errors are reported where they are

The position of an error is found twice: a fault of a text keeps the line and column at which it
shows, and a reporter finds the position of a diagnostic in the text that it knows by the name.
Both are the position of the offset of the error in the text of its source, whatever other sources
a run has (`errors_are_reported_in_place`).  Two things are needed for that: offsets fit the 32 bits
that a diagnostic has for them, since errors lie in the text (`liesIn_of_rebind_error`), and a
reporter finds the text of a source under its name, since names are not empty and sources of one
name are read from one path (`distinguished_sources`).
-/

namespace Rebind

open Rebind.Snippet
open Rebind.Text (IsLine LineMap Position)

/-! ## Errors of a snippet -/

namespace RebindError

/-- What a report says about an error; it gives the position of a fault elsewhere. -/
def reportedText : RebindError → String
  | .malformed message _ _ _ _ => message
  | e => e.message

/-- The number of bytes that a report marks. -/
def reportedLength : RebindError → Nat
  | .malformed _ _ length _ _ => length
  | _ => 0

theorem diagnostic_eq (file : String) (e : RebindError) :
    e.diagnostic file =
      { file, message := e.reportedText, start := UInt32.ofNat (e.offset?.getD 0),
        length := UInt32.ofNat e.reportedLength } := by
  cases e <;> rfl

/-- An error lies at an offset of a text.  If it is a fault, it holds the position of the offset
too. -/
def LiesIn (source : List Char) (offset : Nat) (e : RebindError) : Prop :=
  e.offset? = some offset ∧ offset ≤ maxOffset ∧
    ∀ message o length line column, e = .malformed message o length line column →
      let position := (LineMap.ofText source).position offset source
      line = position.lineNumber ∧ column = position.columnNumber

theorem liesIn_ofFault (source : List Char) (located : LocatedFault) :
    LiesIn source (UInt32.ofNat located.span.start).toNat (ofFault source located) := by
  refine ⟨rfl, Nat.le_of_lt_succ (UInt32.toNat_lt _), ?_⟩
  rintro message o length line column h
  cases h
  exact ⟨rfl, rfl⟩

theorem liesIn_of_visit {source : List Char} {v : Visit} {e : RebindError}
    (h : v.error? = some e) (hstart : v.start ≤ maxOffset) : LiesIn source v.start e := by
  obtain ⟨start, depth, obstacle⟩ := v
  unfold Visit.error? at h
  split at h
  · cases h
    exact ⟨rfl, hstart, nofun⟩
  · obtain ⟨obstacle, -, rfl⟩ := Option.map_eq_some_iff.1 h
    cases obstacle <;> exact ⟨rfl, hstart, nofun⟩

end RebindError

/-- Whatever a snippet is refused for lies in its text. -/
theorem liesIn_of_rebind_error {options : Options} {source : String} {e : RebindError}
    (h : rebind options source = .error e) : ∃ offset, e.LiesIn source.toList offset := by
  cases hp : Program.parse source.toList with
  | error located =>
    have hparse : parse source.toList = .error (RebindError.ofFault source.toList located) := by
      rw [parse, hp]
      rfl
    have he : e = RebindError.ofFault source.toList located := by
      simp only [rebind, template, hparse] at h
      cases h
      rfl
    exact ⟨_, he ▸ RebindError.liesIn_ofFault source.toList located⟩
  | ok p =>
    have hcode : Code.refusal (Code.program options.hoistFunctions p) = some e := by
      rw [rebind_eq_output options (parse_eq_ok.2 hp), Program.output] at h
      cases hprogram : Code.program options.hoistFunctions p with
      | error e' =>
        rw [hprogram] at h
        cases h
        rfl
      | ok t =>
        rw [hprogram] at h
        cases h
    rw [Code.refusal_program _ (Program.parse_formed hp), Code.firstError_eq_some] at hcode
    obtain ⟨front, v, back, hvisits, -, hv⟩ := hcode
    have hmem : v ∈ p.visits options.hoistFunctions := by simp [hvisits]
    have hstart := visit_start_le hp options.hoistFunctions v hmem
    have hsize := (Program.parse_eq_ok.1 hp).1
    exact ⟨v.start, RebindError.liesIn_of_visit hv (Nat.le_trans hstart hsize)⟩

namespace CommandLine

/-! ## Names of sources -/

/-- No file of a command line has the empty name. -/
def Arguments.NamesFiles (arguments : Arguments) : Prop :=
  "" ∉ arguments.files

section NamesFiles

variable {arguments next : Arguments} {progress progress' : Progress}

theorem Arguments.NamesFiles.takeSetting (h : arguments.NamesFiles) {setting : Setting}
    {value : String} (hnext : arguments.takeSetting setting value = .ok next) :
    next.NamesFiles := by
  unfold Arguments.takeSetting at hnext
  split at hnext
  · cases hnext
  split at hnext
  · cases hnext
  · cases hnext
    cases setting <;> exact h

theorem Arguments.NamesFiles.close (h : arguments.NamesFiles) {pending : Pending}
    (hnext : arguments.close pending = .ok next) : next.NamesFiles := by
  cases pending with
  | nothing =>
    cases hnext
    exact h
  | setting setting value? =>
    cases value? with
    | none => cases hnext
    | some value => exact h.takeSetting hnext
  | files paths =>
    rw [Arguments.close] at hnext
    split at hnext
    · cases hnext
    · next hnames =>
      cases hnext
      have hpaths : "" ∉ paths := by simpa using hnames
      simpa [NamesFiles, hpaths] using h

theorem namesFiles_takeFile (h : progress.arguments.NamesFiles) {path : String}
    (hnext : progress.takeFile path = .ok progress') : progress'.arguments.NamesFiles := by
  unfold Progress.takeFile at hnext
  split at hnext
  · cases hnext
    exact h
  · obtain ⟨next, hclose, hnext⟩ := exists_ok_of_bind hnext
    cases hnext
    exact h.close hclose

theorem namesFiles_takeItem (h : progress.arguments.NamesFiles) {value? : Option String}
    {item : Item} (hnext : progress.takeItem value? item = .ok progress') :
    progress'.arguments.NamesFiles := by
  cases item with
  | setting setting =>
    obtain ⟨closed, hclose, hnext⟩ := exists_ok_of_bind hnext
    have hclosed := h.close hclose
    cases value? with
    | none =>
      cases hnext
      exact hclosed
    | some value =>
      obtain ⟨next, hsetting, hnext⟩ := exists_ok_of_bind hnext
      cases hnext
      exact hclosed.takeSetting hsetting
  | switch switch =>
    simp only [Progress.takeItem] at hnext
    split at hnext
    · cases hnext
    · obtain ⟨closed, hclose, hnext⟩ := exists_ok_of_bind hnext
      split at hnext
      · cases hnext
      · cases hnext
        have hclosed := h.close hclose
        cases switch <;> exact hclosed
  | help | version =>
    simp only [Progress.takeItem] at hnext
    split at hnext
    · cases hnext
    · obtain ⟨closed, -, hnext⟩ := exists_ok_of_bind hnext
      cases hnext

theorem namesFiles_takeWord (h : progress.arguments.NamesFiles) {word : String}
    (hnext : progress.takeWord word = .ok progress') : progress'.arguments.NamesFiles := by
  unfold Progress.takeWord at hnext
  split at hnext
  · dsimp only at hnext
    split at hnext
    · exact namesFiles_takeItem h hnext
    · cases hnext
  · split at hnext
    · exact namesFiles_takeItem h hnext
    · exact namesFiles_takeItem h hnext
    · cases hnext
  · unfold Progress.takePlain at hnext
    split at hnext
    · cases hnext
      exact h
    · exact namesFiles_takeFile h hnext

theorem namesFiles_takeWords (words : List String) (h : progress.arguments.NamesFiles)
    (hnext : progress.takeWords words = .ok progress') : progress'.arguments.NamesFiles := by
  induction words generalizing progress with
  | nil =>
    cases hnext
    exact h
  | cons word words ih =>
    rw [Progress.takeWords] at hnext
    split at hnext
    · clear ih
      induction words generalizing progress with
      | nil =>
        cases hnext
        exact h
      | cons path words ih =>
        obtain ⟨middle, hfile, hnext⟩ := exists_ok_of_bind hnext
        exact ih (namesFiles_takeFile h hfile) hnext
    · obtain ⟨middle, hword, hnext⟩ := exists_ok_of_bind hnext
      exact ih (namesFiles_takeWord h hword) hnext

theorem namesFiles_parse {words : List String} (h : Arguments.parse words = .ok arguments) :
    arguments.NamesFiles := by
  obtain ⟨progress, hwords, h⟩ := exists_ok_of_bind h
  obtain ⟨closed, hclose, h⟩ := exists_ok_of_bind h
  have hnone : ({} : Progress).arguments.NamesFiles := List.not_mem_nil
  have hclosed := (namesFiles_takeWords words hnone hwords).close hclose
  dsimp only at h
  split at h
  · cases h
  split at h
  · cases h
  · cases h
    exact hclosed

end NamesFiles

/-- Sources have names, and sources of one name have one text. -/
structure Distinguished (sources : List Source) : Prop where
  named : ∀ source ∈ sources, source.name ≠ ""
  text_eq : ∀ source ∈ sources, ∀ other ∈ sources, source.name = other.name →
    source.text = other.text

theorem distinguished_singleton {source : Source} (h : source.name ≠ "") :
    Distinguished [source] where
  named := List.forall_mem_singleton.2 h
  text_eq := by simp

/-- A file that is read as a source has its path as its name and the text at the path. -/
theorem mem_of_mapM_read {workspace : Workspace} {paths : List String} {sources : List Source}
    (h : (paths.mapM fun path => match workspace.read path with
      | some text => Except.ok (Source.mk path text)
      | none => .error (RunError.unreadableInput path)) = .ok sources) :
    ∀ source ∈ sources, source.name ∈ paths ∧ workspace.read source.name = some source.text := by
  induction paths generalizing sources with
  | nil =>
    cases h
    simp
  | cons path paths ih =>
    rw [List.mapM_cons] at h
    obtain ⟨first, hfirst, h⟩ := exists_ok_of_bind h
    obtain ⟨more, hmore, h⟩ := exists_ok_of_bind h
    cases h
    split at hfirst
    · next text hread =>
      cases hfirst
      refine List.forall_mem_cons.2 ⟨⟨List.mem_cons_self, hread⟩, fun source hmem => ?_⟩
      obtain ⟨hpath, hread⟩ := ih hmore source hmem
      exact ⟨List.mem_cons_of_mem _ hpath, hread⟩
    · cases hfirst

theorem distinguished_sources {arguments : Arguments} {workspace : Workspace}
    {sources : List Source} (hnames : arguments.NamesFiles)
    (h : arguments.sources workspace = .ok sources) : Distinguished sources := by
  unfold Arguments.sources at h
  split at h
  · cases h
    exact distinguished_singleton (by simp)
  split at h
  · split at h
    · cases h
      exact distinguished_singleton (by simp)
    · cases h
  · have hmem := mem_of_mapM_read h
    refine ⟨fun source hsource hname => hnames ?_, fun source hsource other hother hname => ?_⟩
    · rw [← hname]
      exact (hmem source hsource).1
    · have hread := (hmem source hsource).2
      rw [hname, (hmem other hother).2, Option.some.injEq] at hread
      exact hread.symm

/-! ## The reporter of a run -/

/-- The calls that give a reporter the texts of sources. -/
def additions (sources : List Source) : List ReporterCall :=
  sources.map fun source => .add source.name source.text

theorem calls_additions (sources : List Source) (reporter : Reporter) :
    (reporter.calls (additions sources)).2 =
      sources.foldl (fun reporter source => reporter.addSource source.name source.text)
        reporter := by
  induction sources generalizing reporter with
  | nil => rfl
  | cons source sources ih => exact ih (reporter.addSource source.name source.text)

theorem mem_of_latestText {sources : List Source} {name text : String}
    (h : latestText (additions sources) name = some text) :
    ∃ source ∈ sources, source.name = name ∧ source.text = text := by
  induction sources with
  | nil => cases h
  | cons first sources ih =>
    rw [additions, List.map_cons, latestText, Option.or_eq_some_iff] at h
    obtain h | ⟨-, h⟩ := h
    · obtain ⟨source, hmem, hsource⟩ := ih h
      exact ⟨source, List.mem_cons_of_mem _ hmem, hsource⟩
    · rw [Option.ite_none_right_eq_some, Option.some.injEq] at h
      exact ⟨first, List.mem_cons_self, h.1.symm, h.2⟩

theorem isSome_latestText {sources : List Source} {source : Source} (hmem : source ∈ sources) :
    (latestText (additions sources) source.name).isSome = true := by
  induction hmem with
  | head => simp [additions, latestText]
  | tail first _ ih =>
    rw [additions, List.map_cons, latestText, Option.isSome_or]
    exact Bool.or_eq_true_iff.2 (.inl ih)

/-- Under the name of a source a reporter finds its text, whatever else it has been given. -/
theorem latestText_additions {sources : List Source} (h : Distinguished sources)
    {source : Source} (hmem : source ∈ sources) :
    latestText (additions sources) source.name = some source.text := by
  obtain ⟨text, htext⟩ := Option.isSome_iff_exists.1 (isSome_latestText hmem)
  obtain ⟨other, hother, hname, rfl⟩ := mem_of_latestText htext
  rw [htext, h.text_eq other hother source hmem hname]

/-- The report of a run has an entry for each diagnostic, in order. -/
theorem report_eq (result : RunResult) (color : Bool) :
    result.report color = "\n".intercalate (result.diagnostics.map
      (Reporter.freshReport color (latestText (additions result.sources)))) := by
  have hempty : Reporter.Coherent (latestText []) { color } := Reporter.coherent_empty color
  obtain ⟨-, hcoherent, hcolor⟩ := Reporter.calls_of_coherent (additions result.sources) hempty
  rw [calls_additions, List.nil_append] at hcoherent
  rw [calls_additions] at hcolor
  obtain ⟨hreports, -, -⟩ := Reporter.formatAll_of_coherent result.diagnostics hcoherent
  rw [hcolor] at hreports
  rw [← hreports]
  rfl

/-! ## Entries -/

/-- The sources of a run that are refused, and why. -/
def refusals (options : Options) (sources : List Source) : List (Source × RebindError) :=
  sources.filterMap fun source =>
    match rebind options source.text with
    | .ok _ => none
    | .error e => some (source, e)

theorem mem_refusals {options : Options} {sources : List Source} {source : Source}
    {e : RebindError} : (source, e) ∈ refusals options sources ↔
      source ∈ sources ∧ rebind options source.text = .error e := by
  rw [refusals, List.mem_filterMap]
  constructor
  · rintro ⟨source', hmem, h⟩
    split at h
    · cases h
    · next heq =>
      cases h
      exact ⟨hmem, heq⟩
  · rintro ⟨hmem, h⟩
    exact ⟨source, hmem, by rw [h]⟩

theorem runSources_diagnostics_eq_map (arguments : Arguments) (options : Options)
    (sources : List Source) :
    (arguments.runSources options sources).diagnostics =
      (refusals options sources).map fun (source, e) => e.diagnostic source.name := by
  rw [arguments.runSources_diagnostics, refusals]
  induction sources with
  | nil => rfl
  | cons source sources ih =>
    rw [List.flatMap_cons, List.filterMap_cons, ih, Arguments.share]
    cases rebind options source.text <;> rfl

/-- The position of an offset in the text of a source. -/
def Source.position (source : Source) (offset : Nat) : Position :=
  (LineMap.ofText source.text.toList).position offset source.text.toList

/-- What stands before the excerpt in the entry for an error of a source. -/
def heading (color : Bool) (source : Source) (position : Position) (e : RebindError) : String :=
  source.name ++ s!":{position.lineNumber}:{position.columnNumber}" ++
    (" - " ++ ({ color } : Reporter).styled .boldRed "error" ++ ": " ++ e.reportedText)

/-- The excerpt in the entry for an error of a source. -/
def excerpt (color : Bool) (source : Source) (position : Position) (e : RebindError) : String :=
  (Excerpt.ofText? (({ color } : Reporter).styled .red) (LineMap.ofText source.text.toList) position
    (UInt32.ofNat e.reportedLength) source.text.toList).getD ""

/-- The entry for an error of a source. -/
def entry (color : Bool) (source : Source) (e : RebindError) : String :=
  let position := source.position (e.offset?.getD 0)
  heading color source position e ++ excerpt color source position e

/-- The entry for an error has an excerpt, and it is of the line at which the error shows. -/
theorem exists_excerpt_eq (color : Bool) (source : Source) (offset : Nat) (e : RebindError) :
    ∃ start line, IsLine source.text.toList (source.position offset).line start line ∧
      Excerpt.ofText? (({ color } : Reporter).styled .red) (LineMap.ofText source.text.toList)
          (source.position offset) (UInt32.ofNat e.reportedLength) source.text.toList =
        some (excerpt color source (source.position offset) e) ∧
      excerpt color source (source.position offset) e =
        Excerpt.rows (({ color } : Reporter).styled .red) (source.position offset)
          (UInt32.ofNat e.reportedLength) line := by
  obtain ⟨start, line, hline⟩ := LineMap.exists_isLine source.text.toList offset
  have hexcerpt := Excerpt.ofText?_of_isLine (source.position offset) hline
    (({ color } : Reporter).styled .red) (UInt32.ofNat e.reportedLength)
  refine ⟨start, line, hline, ?_, ?_⟩
  · rw [excerpt, hexcerpt, Option.getD_some]
  · rw [excerpt, hexcerpt, Option.getD_some]

theorem lookup_knowing {file text : String} (hname : file ≠ "") (color : Bool) :
    ((Reporter.knowing color file (some text)).lookup file).1 =
      some (text.toList, LineMap.ofText text.toList) :=
  Reporter.lookup_of_known (Reporter.coherent_addSource (Reporter.coherent_empty color) file text)
    hname (if_pos rfl)

theorem freshReport_eq_entry {texts : String → Option String} {source : Source}
    (htext : texts source.name = some source.text) (hname : source.name ≠ "") {e : RebindError}
    {offset : Nat} (h : e.LiesIn source.text.toList offset) (color : Bool) :
    Reporter.freshReport color texts (e.diagnostic source.name) = entry color source e := by
  obtain ⟨hoffset, hsize, -⟩ := h
  have hstart : (UInt32.ofNat offset).toNat = offset :=
    UInt32.toNat_ofNat_of_lt' (Nat.lt_succ_of_le hsize)
  have hstyled : (Reporter.knowing color source.name (some source.text)).styled =
      ({ color } : Reporter).styled := rfl
  obtain ⟨-, -, -, hexcerpt, -⟩ := exists_excerpt_eq color source offset e
  unfold Source.position at hexcerpt
  rw [RebindError.diagnostic_eq, entry, hoffset, Reporter.freshReport, htext, Reporter.format]
  simp only [lookup_knowing hname, Option.getD_some, hstart, hstyled, hexcerpt]
  rfl

/-- **Errors are reported where they are.**  The report of a run has one entry for each source that
is refused, in the order of the sources, and every entry gives the name of its source and the
position of the offset of the error in the text of this source, and shows its line.  If the source
is no snippet, this is the line and the column that the error itself holds, which its own message
has at the end and the entry has not. -/
theorem errors_are_reported_in_place {words : List String} {arguments : Arguments}
    (hwords : Arguments.parse words = .ok arguments) {workspace : Workspace} {result : RunResult}
    (hrun : arguments.run workspace = .ok result) (color : Bool) :
    ∃ options,
      arguments.options workspace = .ok options ∧
      arguments.sources workspace = .ok result.sources ∧
      result.report color = "\n".intercalate
        ((refusals options result.sources).map fun (source, e) => entry color source e) ∧
      ∀ source ∈ result.sources, ∀ e, rebind options source.text = .error e →
        ∃ offset, e.offset? = some offset ∧
          entry color source e = heading color source (source.position offset) e ++
            excerpt color source (source.position offset) e ∧
          (∃ start line, IsLine source.text.toList (source.position offset).line start line ∧
            excerpt color source (source.position offset) e =
              Excerpt.rows (({ color } : Reporter).styled .red) (source.position offset)
                (UInt32.ofNat e.reportedLength) line) ∧
          ∀ message o length line column, e = .malformed message o length line column →
            line = (source.position offset).lineNumber ∧
            column = (source.position offset).columnNumber ∧
            e.reportedText = message ∧ e.message = message ++ s!" ({line}:{column})" := by
  obtain ⟨options, hoptions, hrun⟩ := exists_ok_of_bind hrun
  obtain ⟨sources, hsources, hrun⟩ := exists_ok_of_bind hrun
  cases hrun
  have hdistinguished := distinguished_sources (namesFiles_parse hwords) hsources
  refine ⟨options, hoptions, hsources, ?_, fun source _ e he => ?_⟩
  · rw [report_eq, runSources_diagnostics_eq_map, List.map_map]
    congr 1
    refine List.map_congr_left fun (source, e) hmem => ?_
    obtain ⟨hsource, he⟩ := mem_refusals.1 hmem
    obtain ⟨offset, hlies⟩ := liesIn_of_rebind_error he
    exact freshReport_eq_entry (latestText_additions hdistinguished hsource)
      (hdistinguished.named source hsource) hlies color
  · obtain ⟨offset, hoffset, -, hposition⟩ := liesIn_of_rebind_error he
    obtain ⟨start, line, hline, -, hexcerpt⟩ := exists_excerpt_eq color source offset e
    refine ⟨offset, hoffset, ?_, ⟨start, line, hline, hexcerpt⟩, ?_⟩
    · rw [entry, hoffset, Option.getD_some]
    · rintro message o length line column rfl
      obtain ⟨hline, hcolumn⟩ := hposition message o length line column rfl
      exact ⟨hline, hcolumn, rfl, rfl⟩

/-- Of four sources three are refused, and they are two files. -/
theorem report_of_refused_files :
    let first : Source := ⟨"a.js", "let a = 1;\nlet b = ;\n"⟩
    let second : Source := ⟨"b.js", "if (a) \x7b\n  import \"m\";\n\x7d\n"⟩
    let texts := [(first.name, first.text), ("ok.js", "1"), (second.name, second.text)]
    let workspace : Workspace :=
      { read := fun path => texts.lookup path, isFile := fun _ => false, input := "" }
    let arguments : Arguments := { files := ["a.js", "ok.js", "b.js", "a.js"] }
    Arguments.parse ["a.js", "ok.js", "b.js", "a.js"] = .ok arguments ∧
      ∃ result, arguments.run workspace = .ok result ∧
        result.report false =
          "a.js:2:9 - error: Unexpected token\n    2   let b = ;\n                ~\n" ++
          "b.js:2:3 - error: unexpected module declaration in nested statement at offset 11\n" ++
          "    2     import \"m\";\n          ~\n" ++
          "a.js:2:9 - error: Unexpected token\n    2   let b = ;\n                ~" := by
  intro first second texts workspace arguments
  have hwords : Arguments.parse ["a.js", "ok.js", "b.js", "a.js"] = .ok arguments :=
    Code.eq_ok_of_toOption (by decide +kernel)
  have hrun : arguments.run workspace =
      .ok (arguments.runSources {} [first, ⟨"ok.js", "1"⟩, second, first]) :=
    Code.eq_ok_of_toOption (by decide +kernel)
  obtain ⟨options, hoptions, -, hreport, -⟩ := errors_are_reported_in_place hwords hrun false
  have hdefault : arguments.options workspace = .ok {} :=
    Code.eq_ok_of_toOption (by decide +kernel)
  cases hdefault.symm.trans hoptions
  refine ⟨hwords, _, hrun, ?_⟩
  rw [hreport]
  decide +kernel

end CommandLine

end Rebind
