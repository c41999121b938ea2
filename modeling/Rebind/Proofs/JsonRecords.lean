import Rebind.Proofs.IndependentInputs
import Rebind.Proofs.Json.Printing

/-!
# The output in JSON is a list of records

A run with JSON as its output writes a record for each source that has code.  The records are read
back whatever the texts in them are: one on each line, if they are not spread over several lines,
and one after the other in any case (`json_output_is_records`).
-/

namespace Rebind

namespace Json

/-! ## Values one after the other -/

/-- The values that a text holds one after the other, fewer than `n` of them. -/
def valuesUpTo : Nat → List Char → Option (List Value)
  | 0, _ => none
  | n + 1, cs =>
    match skipBlanks cs with
    | [] => some []
    | cs => do
      let (value, rest) ← value? true cs
      return value :: (← valuesUpTo n rest)

/-- The values that a text holds one after the other. -/
def values? (text : String) : Option (List Value) :=
  valuesUpTo (text.length + 1) text.toList

/-- Lines, each with a line feed at its end. -/
def endLines (lines : List String) : String :=
  String.join (lines.map (· ++ "\n"))

theorem toList_endLines_cons (line : String) (lines : List String) :
    (endLines (line :: lines)).toList = line.toList ++ '\n' :: (endLines lines).toList := by
  simp [endLines, String.join_cons]

theorem valuesUpTo_cons {value : Value} {before cs rest : List Char} (hbefore : IsGap before)
    (h : Spells value cs) (hrest : EndsNumber rest) (n : Nat) :
    valuesUpTo (n + 1) (before ++ (cs ++ rest)) =
      (valuesUpTo n rest).map (value :: ·) := by
  have hskip := skipBlanks_of_spells hbefore h rest
  have hread := value?_of_spells true isGap_nil h hrest
  obtain ⟨c, more, rfl, -⟩ := h.head
  rw [List.nil_append] at hread
  rw [List.cons_append] at hskip hread
  simp only [valuesUpTo, hskip, hread, Option.bind_eq_bind, Option.bind_some, List.cons_append]
  cases valuesUpTo n rest <;> rfl

theorem valuesUpTo_endLines {write : Value → String} {values : List Value}
    (h : ∀ value ∈ values, Spells value (write value).toList) {before : List Char}
    (hbefore : IsGap before) {n : Nat} (hn : (endLines (values.map write)).length < n) :
    valuesUpTo n (before ++ (endLines (values.map write)).toList) = some values := by
  obtain ⟨n, rfl⟩ := Nat.exists_eq_add_one.2 (Nat.zero_lt_of_lt hn)
  induction values generalizing before n with
  | nil =>
    have hskip : skipBlanks before = [] := by
      have h := skipBlanks_append hbefore []
      rwa [List.append_nil] at h
    simp [valuesUpTo, endLines, hskip]
  | cons value values ih =>
    simp only [List.map_cons, ← String.length_toList, toList_endLines_cons, List.length_append,
      List.length_cons] at hn ih
    obtain ⟨n, rfl⟩ := Nat.exists_eq_add_one.2 (show 0 < n by omega)
    have hfeed : IsGap ['\n'] := by simp [IsGap, isBlank]
    have hend : EndsNumber ('\n' :: (endLines (values.map write)).toList) := by
      intro c hc
      cases hc
      exact .inl rfl
    have htail := ih (fun value hmem => h value (List.mem_cons_of_mem _ hmem)) hfeed n (by omega)
    rw [List.singleton_append] at htail
    rw [List.map_cons, toList_endLines_cons,
      valuesUpTo_cons hbefore (h value List.mem_cons_self) hend, htail]
    rfl

/-- The texts of values, each with a line feed at its end, are read back as the values. -/
theorem values?_endLines {write : Value → String} {values : List Value}
    (h : ∀ value ∈ values, Spells value (write value).toList) :
    values? (endLines (values.map write)) = some values :=
  valuesUpTo_endLines h isGap_nil (Nat.lt_succ_self _)

/-- Lines without a line feed are what stands between the line feeds at their ends. -/
theorem split_endLines {lines : List String} (h : ∀ line ∈ lines, '\n' ∉ line.toList) :
    ((endLines lines).split '\n').toList.map (·.copy) = lines ++ [""] := by
  have hjoin : endLines lines = (String.singleton '\n').intercalate (lines ++ [""]) := by
    clear h
    induction lines with
    | nil => rfl
    | cons line lines ih =>
      have hcons : endLines (line :: lines) = line ++ "\n" ++ endLines lines := by
        simp [endLines, String.join_cons]
      rw [hcons, ih]
      cases lines <;> simp [String.intercalate_cons_cons]
  rw [hjoin, String.toList_split_intercalate, if_neg (by simp)]
  intro line hmem
  rcases List.mem_append.1 hmem with hmem | hmem
  · exact h line hmem
  · simp [List.mem_singleton.1 hmem]

end Json

namespace CommandLine.Arguments

variable (arguments : Arguments) (options : Options)

/-- The record of a source with what it gives: its name, its code, within a function if that is
asked for, and the three lists of names. -/
def record (source : Source) (output : Output) : Json.Value :=
  .object [
    ("file", .string source.name),
    ("code", .string (if arguments.wrap then Rebind.wrap options output.code else output.code)),
    ("bindings", .object [
      ("global", .array (output.bindings.global.map .string)),
      ("scope", .array (output.bindings.scope.map .string)),
      ("constants", .array (output.bindings.constants.map .string))])]

/-- The records of the sources that have code, in order. -/
def records (sources : List Source) : List Json.Value :=
  sources.filterMap fun source =>
    (rebind options source.text).toOption.map (arguments.record options source)

/-- The text of a record. -/
def writtenRecord (record : Json.Value) : String :=
  if arguments.pretty then record.pretty 0 else record.compact

theorem hasNumerals_strings (texts : List String) :
    Json.HasNumerals (.array (texts.map .string)) := by
  refine .array fun item hitem => ?_
  obtain ⟨text, -, rfl⟩ := List.mem_map.1 hitem
  exact .string text

theorem hasNumerals_record (source : Source) (output : Output) :
    Json.HasNumerals (arguments.record options source output) := by
  refine .object fun member hmem => ?_
  simp only [List.mem_cons, List.not_mem_nil, or_false] at hmem
  rcases hmem with rfl | rfl | rfl
  · exact .string _
  · exact .string _
  refine .object fun member hmem => ?_
  simp only [List.mem_cons, List.not_mem_nil, or_false] at hmem
  rcases hmem with rfl | rfl | rfl <;> exact hasNumerals_strings _

theorem hasNumerals_of_mem_records {sources : List Source} {record : Json.Value}
    (h : record ∈ arguments.records options sources) : Json.HasNumerals record := by
  obtain ⟨source, -, hsource⟩ := List.mem_filterMap.1 h
  obtain ⟨output, -, rfl⟩ := Option.map_eq_some_iff.1 hsource
  exact arguments.hasNumerals_record options source output

/-- In JSON the output is the texts of the records, each with a line feed at its end. -/
theorem output_eq_endLines (hjson : arguments.json = true) (sources : List Source) :
    (arguments.runSources options sources).output =
      Json.endLines ((arguments.records options sources).map arguments.writtenRecord) := by
  rw [arguments.runSources_output_json options hjson]
  induction sources with
  | nil => rfl
  | cons source sources ih =>
    rw [List.map_cons, String.join_cons, ih]
    simp only [records, List.filterMap_cons, share]
    cases rebind options source.text with
    | ok output =>
      simp [sectionFor, hjson, jsonSection, Except.toOption, Json.endLines, String.join_cons,
        writtenRecord, record, Bindings.json, Json.Value.strings]
    | error e => simp [Except.toOption]

end CommandLine.Arguments

open CommandLine

/-- **The output in JSON is a list of records.**  There is one for each source that has code, in
order.  If records are not spread over several lines, each stands on a line of its own, and the line
is read as the record.  In any case the whole output is read as the records, one after the
other. -/
theorem json_output_is_records (arguments : Arguments) (options : Options) (sources : List Source)
    (hjson : arguments.json = true) :
    let output := (arguments.runSources options sources).output
    let records := arguments.records options sources
    (arguments.pretty = false → ∃ lines : List String,
      (output.split '\n').toList.map (·.copy) = lines ++ [""] ∧
        lines.map Json.parse? = records.map some) ∧
    Json.values? output = some records := by
  intro output records
  have houtput : output = Json.endLines (records.map arguments.writtenRecord) :=
    arguments.output_eq_endLines options hjson sources
  have hnumerals : ∀ record ∈ records, Json.HasNumerals record :=
    fun record hmem => arguments.hasNumerals_of_mem_records options hmem
  have hspells : ∀ record ∈ records,
      Json.Spells record (arguments.writtenRecord record).toList := by
    intro record hmem
    have h := hnumerals record hmem
    rw [Arguments.writtenRecord]
    cases arguments.pretty with
    | true => exact Json.Value.spells_pretty h 0
    | false => exact Json.Value.spells_compact h
  refine ⟨fun hpretty => ⟨records.map arguments.writtenRecord, ?_, ?_⟩, ?_⟩
  · rw [houtput, Json.split_endLines]
    intro line hline
    obtain ⟨record, hmem, rfl⟩ := List.mem_map.1 hline
    rw [Arguments.writtenRecord, hpretty]
    exact Json.Value.newline_notMem_compact (hnumerals record hmem)
  · rw [List.map_map]
    apply List.map_congr_left
    intro record hmem
    have hgap : Json.IsGap [] := by simp [Json.IsGap]
    have hparse := Json.parse?_of_spells hgap (hspells record hmem) hgap
    simpa using hparse
  · rw [houtput]
    exact Json.values?_endLines hspells

/-- Line feeds, tabs, quotes and backslashes in a name and in code do not end a line, and a source
that is refused has none. -/
theorem json_of_three_sources :
    let json : Arguments := { json := true }
    let sources : List Source :=
      [⟨"a\"\n.js", "const s = `a\n\"\t\\n`"⟩, ⟨"bad.js", "let = ;"⟩, ⟨"b.js", "1"⟩]
    let first : Json.Value := .object [("file", .string "a\"\n.js"),
      ("code", .string "__module__.scope(\"s\");\ns = `a\n\"\t\\n`;\n"),
      ("bindings", .object [("global", .array []), ("scope", .array [.string "s"]),
        ("constants", .array [.string "s"])])]
    let second : Json.Value := .object [("file", .string "b.js"), ("code", .string "return 1;\n"),
      ("bindings", .object [("global", .array []), ("scope", .array []), ("constants", .array [])])]
    json.json = true ∧ ∃ lines : List String,
      ((json.runSources {} sources).output.split '\n').toList.map (·.copy) = lines ++ [""] ∧
        lines.map Json.parse? = [some first, some second] := by
  intro json sources first second
  have hfirst : (rebind {} "const s = `a\n\"\t\\n`").toOption =
      some ⟨"__module__.scope(\"s\");\ns = `a\n\"\t\\n`;\n", ⟨[], ["s"], ["s"]⟩⟩ := by
    decide +kernel
  have hbad : (rebind {} "let = ;").toOption = none := by decide +kernel
  have hsecond : (rebind {} "1").toOption = some ⟨"return 1;\n", ⟨[], [], []⟩⟩ := by
    decide +kernel
  have hrecords : json.records {} sources = [first, second] := by
    simp [Arguments.records, sources, hfirst, hbad, hsecond, Arguments.record, json, first,
      second]
  obtain ⟨lines, hsplit, hparse⟩ := (json_output_is_records json {} sources rfl).1 rfl
  rw [hrecords] at hparse
  exact ⟨rfl, lines, hsplit, hparse⟩

end Rebind
