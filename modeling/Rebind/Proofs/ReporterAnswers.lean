import Rebind.Report.Reporter

/-!
# What a reporter answers

A reporter keeps the line maps that it has made, and drops the one of a file when the file gets
another text.  So long as it does, the maps never show: `Coherent` ties the two tables of a reporter
to the texts that the files have now, every call keeps it (`coherent_call`), and under it an answer
is that of a reporter to which nothing but the text of the file in question was given
(`answers_are_fresh`).
-/

namespace Rebind

open Rebind.Text (LineMap)

/-! ## Calls -/

/-- What a reporter is asked to do. -/
inductive ReporterCall where
  | add (file text : String)
  | format (diagnostic : Diagnostic)
  | render (diagnostics : List Diagnostic)
  deriving Repr, DecidableEq

def ReporterCall.isAdd : ReporterCall → Bool
  | .add _ _ => true
  | _ => false

/-- The text that a file has after some calls: that of the last one which gave it one. -/
def latestText : List ReporterCall → String → Option String
  | [], _ => none
  | .add file text :: calls, name =>
    (latestText calls name).or (if name = file then some text else none)
  | _ :: calls, name => latestText calls name

namespace Reporter

/-- Carries out one call.  Only reports are answers. -/
def call (reporter : Reporter) : ReporterCall → Option String × Reporter
  | .add file text => (none, reporter.addSource file text)
  | .format diagnostic => ((reporter.format diagnostic).map some id)
  | .render diagnostics => ((reporter.render diagnostics).map some id)

/-- Carries out calls one after the other. -/
def calls (reporter : Reporter) : List ReporterCall → List (Option String) × Reporter
  | [] => ([], reporter)
  | c :: more =>
    let (answer, next) := reporter.call c
    let (answers, last) := next.calls more
    (answer :: answers, last)

/-- A reporter that knows the text of one file, if the file has one, and has made no map. -/
def knowing (color : Bool) (file : String) (text : Option String) : Reporter :=
  match text with
  | some text => ({ color } : Reporter).addSource file text
  | none => { color }

/-- The report of a diagnostic by a reporter that knows the text of its file alone. -/
def freshReport (color : Bool) (texts : String → Option String) (d : Diagnostic) : String :=
  ((knowing color d.file (texts d.file)).format d).1

/-- The answer to a call if every diagnostic is reported by a reporter of its own. -/
def freshAnswer (color : Bool) (texts : String → Option String) : ReporterCall → Option String
  | .add _ _ => none
  | .format d => some (freshReport color texts d)
  | .render ds => some ("\n".intercalate (ds.map (freshReport color texts)))

/-! ## Coherence -/

/-- The tables of a reporter agree with the texts that the files have. -/
structure Coherent (texts : String → Option String) (reporter : Reporter) : Prop where
  sources : ∀ file, reporter.sources.lookup file = (texts file).map String.toList
  lineMaps : ∀ file map, reporter.lineMaps.lookup file = some map →
    ∃ text, texts file = some text ∧ map = LineMap.ofText text.toList

variable {texts : String → Option String} {reporter : Reporter}

theorem coherent_empty (color : Bool) : Coherent (fun _ => none) { color } where
  sources _ := rfl
  lineMaps _ _ h := by cases h

theorem lookup_filter_ne {α : Type} (table : List (String × α)) (file name : String) :
    (table.filter (·.1 != file)).lookup name = if name = file then none else table.lookup name := by
  induction table with
  | nil => simp
  | cons entry table ih =>
    obtain ⟨key, value⟩ := entry
    rw [List.filter_cons, List.lookup_cons]
    by_cases hkey : key = file
    · subst hkey
      by_cases hname : name = key
      · subst hname
        simpa using ih
      · simp [ih, hname, beq_false_of_ne hname]
    · have hkeep : (key != file) = true := by simpa using hkey
      simp only [hkeep, ↓reduceIte, List.lookup_cons, ih]
      by_cases hname : name = key
      · simp [hname, hkey]
      · simp [beq_false_of_ne hname]

theorem coherent_addSource (h : Coherent texts reporter) (file text : String) :
    Coherent (fun name => if name = file then some text else texts name)
      (reporter.addSource file text) where
  sources name := by
    rw [addSource, List.lookup_cons, lookup_filter_ne, h.sources]
    by_cases hname : name = file
    · simp [hname]
    · simp [hname, beq_false_of_ne hname]
  lineMaps name map hmap := by
    rw [addSource, lookup_filter_ne] at hmap
    by_cases hname : name = file
    · rw [if_pos hname] at hmap
      cases hmap
    · rw [if_neg hname] at hmap
      rw [if_neg hname]
      exact h.lineMaps name map hmap

/-- What is looked up does not depend on the maps that are there already, and a map that is made on
the way is that of the text. -/
theorem lookup_of_coherent (h : Coherent texts reporter) (file : String) :
    (reporter.lookup file).1 =
        (if file.isEmpty then none
          else (texts file).map fun text => (text.toList, LineMap.ofText text.toList)) ∧
      Coherent texts (reporter.lookup file).2 ∧
      (reporter.lookup file).2.color = reporter.color := by
  unfold lookup
  by_cases hempty : file.isEmpty = true
  · rw [if_pos hempty, if_pos hempty]
    exact ⟨rfl, h, rfl⟩
  · rw [if_neg hempty, if_neg hempty, h.sources file]
    cases htext : texts file with
    | none => exact ⟨rfl, h, rfl⟩
    | some text =>
      rw [Option.map_some, Option.map_some]
      cases hmap : reporter.lineMaps.lookup file with
      | some map =>
        obtain ⟨text', htext', rfl⟩ := h.lineMaps file map hmap
        rw [htext, Option.some.injEq] at htext'
        subst htext'
        exact ⟨rfl, h, rfl⟩
      | none =>
        refine ⟨rfl, ⟨h.sources, ?_⟩, rfl⟩
        intro name map hname
        rw [List.lookup_cons] at hname
        by_cases hfile : name = file
        · subst hfile
          simp only [BEq.rfl, Option.some.injEq] at hname
          exact ⟨text, htext, hname.symm⟩
        · rw [beq_false_of_ne hfile] at hname
          exact h.lineMaps name map hname

theorem lookup_of_known (h : Coherent texts reporter) {file text : String} (hname : file ≠ "")
    (htext : texts file = some text) :
    (reporter.lookup file).1 = some (text.toList, LineMap.ofText text.toList) := by
  rw [(lookup_of_coherent h file).1, if_neg (by simpa using hname), htext]
  rfl

/-! ## Reports -/

/-- A report depends on the reporter by its colors and by what it finds for the file. -/
theorem format_congr {r₁ r₂ : Reporter} (hcolor : r₁.color = r₂.color) (d : Diagnostic)
    (hfound : (r₁.lookup d.file).1 = (r₂.lookup d.file).1) :
    (r₁.format d).1 = (r₂.format d).1 := by
  have hstyled : r₁.styled = r₂.styled := by
    funext style text
    rw [styled, styled, hcolor]
  unfold format
  simp only [hfound, hstyled]

theorem format_reporter (d : Diagnostic) :
    (reporter.format d).2 = (reporter.lookup d.file).2 := rfl

theorem format_of_coherent (h : Coherent texts reporter) (d : Diagnostic) :
    (reporter.format d).1 = freshReport reporter.color texts d ∧
      Coherent texts (reporter.format d).2 ∧ (reporter.format d).2.color = reporter.color := by
  rw [format_reporter]
  obtain ⟨hfound, hcoherent, hcolor⟩ := lookup_of_coherent h d.file
  refine ⟨?_, hcoherent, hcolor⟩
  -- The fresh reporter is coherent as well, with a table of texts that has only this file.
  have hfresh : ∃ own, Coherent own (knowing reporter.color d.file (texts d.file)) ∧
      own d.file = texts d.file := by
    unfold knowing
    cases htext : texts d.file with
    | none => exact ⟨_, coherent_empty _, rfl⟩
    | some text => exact ⟨_, coherent_addSource (coherent_empty _) _ _, if_pos rfl⟩
  obtain ⟨own, hown, hsame⟩ := hfresh
  have hknowing : (knowing reporter.color d.file (texts d.file)).color = reporter.color := by
    unfold knowing
    split <;> rfl
  apply format_congr hknowing.symm
  rw [hfound, (lookup_of_coherent hown d.file).1, hsame]

theorem formatAll_of_coherent (ds : List Diagnostic) :
    ∀ {reporter : Reporter}, Coherent texts reporter →
      (reporter.formatAll ds).1 = ds.map (freshReport reporter.color texts) ∧
        Coherent texts (reporter.formatAll ds).2 ∧
        (reporter.formatAll ds).2.color = reporter.color := by
  induction ds with
  | nil =>
    intro reporter h
    exact ⟨rfl, h, rfl⟩
  | cons d ds ih =>
    intro reporter h
    obtain ⟨hreport, hnext, hcolor⟩ := format_of_coherent h d
    obtain ⟨hreports, hlast, hcolors⟩ := ih hnext
    rw [hcolor] at hreports hcolors
    refine ⟨?_, hlast, hcolors⟩
    rw [List.map_cons, ← hreport, ← hreports]
    rfl

/-! ## Sequences of calls -/

/-- The texts of the files after a call. -/
def textsAfter (texts : String → Option String) (c : ReporterCall) (name : String) :
    Option String :=
  (latestText [c] name).or (texts name)

/-- One call is answered as by fresh reporters, and keeps the tables coherent. -/
theorem coherent_call (h : Coherent texts reporter) (c : ReporterCall) :
    (reporter.call c).1 = freshAnswer reporter.color texts c ∧
      Coherent (textsAfter texts c) (reporter.call c).2 ∧
      (reporter.call c).2.color = reporter.color := by
  cases c with
  | add file text =>
    refine ⟨rfl, ?_, rfl⟩
    have htexts : textsAfter texts (.add file text) =
        fun name => if name = file then some text else texts name := by
      funext name
      by_cases hname : name = file <;> simp [textsAfter, latestText, hname]
    rw [htexts]
    exact coherent_addSource h file text
  | format d =>
    obtain ⟨hreport, hnext, hcolor⟩ := format_of_coherent h d
    exact ⟨congrArg some hreport, hnext, hcolor⟩
  | render ds =>
    obtain ⟨hreports, hnext, hcolor⟩ := formatAll_of_coherent ds h
    refine ⟨?_, hnext, hcolor⟩
    rw [freshAnswer, ← hreports]
    rfl

theorem latestText_append (front back : List ReporterCall) (name : String) :
    latestText (front ++ back) name = (latestText back name).or (latestText front name) := by
  induction front with
  | nil => simp [latestText]
  | cons c front ih =>
    cases c with
    | add file text => simp only [List.cons_append, latestText, ih, Option.or_assoc]
    | format | render => simp only [List.cons_append, latestText, ih]

/-- Texts are given by calls that add a file, and by nothing else. -/
theorem latestText_filter_isAdd (history : List ReporterCall) :
    latestText (history.filter ReporterCall.isAdd) = latestText history := by
  funext name
  induction history with
  | nil => rfl
  | cons c history ih =>
    cases c with
    | add file text => simp only [List.filter_cons, ReporterCall.isAdd, ↓reduceIte, latestText, ih]
    | format | render =>
      simp only [List.filter_cons, ReporterCall.isAdd, Bool.false_eq_true, ↓reduceIte, latestText,
        ih]

/-- The answers to calls, each by fresh reporters that know the texts of its moment. -/
def freshAnswers (color : Bool) (history : List ReporterCall) :
    List ReporterCall → List (Option String)
  | [] => []
  | c :: more =>
    freshAnswer color (latestText history) c :: freshAnswers color (history ++ [c]) more

theorem calls_of_coherent (more : List ReporterCall) :
    ∀ {history : List ReporterCall} {reporter : Reporter},
      Coherent (latestText history) reporter →
        (reporter.calls more).1 = freshAnswers reporter.color history more ∧
          Coherent (latestText (history ++ more)) (reporter.calls more).2 ∧
          (reporter.calls more).2.color = reporter.color := by
  induction more with
  | nil =>
    intro history reporter h
    rw [List.append_nil]
    exact ⟨rfl, h, rfl⟩
  | cons c more ih =>
    intro history reporter h
    obtain ⟨hanswer, hnext, hcolor⟩ := coherent_call h c
    have htexts : textsAfter (latestText history) c = latestText (history ++ [c]) := by
      funext name
      rw [latestText_append]
      rfl
    rw [htexts] at hnext
    obtain ⟨hanswers, hlast, hcolors⟩ := ih hnext
    rw [hcolor] at hanswers hcolors
    rw [List.append_assoc, List.singleton_append] at hlast
    refine ⟨?_, hlast, hcolors⟩
    rw [freshAnswers, ← hanswer, ← hanswers]
    rfl

theorem freshAnswers_congr (color : Bool) (more : List ReporterCall) :
    ∀ {h₁ h₂ : List ReporterCall}, latestText h₁ = latestText h₂ →
      freshAnswers color h₁ more = freshAnswers color h₂ more := by
  induction more with
  | nil =>
    intro h₁ h₂ h
    rfl
  | cons c more ih =>
    intro h₁ h₂ h
    have hafter : latestText (h₁ ++ [c]) = latestText (h₂ ++ [c]) := by
      funext name
      rw [latestText_append, latestText_append, h]
    rw [freshAnswers, freshAnswers, h, ih hafter]

end Reporter

open Reporter in
/-- **The maps that a reporter keeps never show.**  After any calls every map that is kept is that
of the text its file has now.  Every diagnostic, formatted alone or with others, is reported as by
a reporter of the same colors that was given the latest text of its file and nothing else; so
reports given before make no difference to later answers. -/
theorem answers_are_fresh (color : Bool) (history : List ReporterCall) :
    let reporter := (({ color } : Reporter).calls history).2
    (∀ file map, reporter.lineMaps.lookup file = some map →
      ∃ text, latestText history file = some text ∧ map = LineMap.ofText text.toList) ∧
    (({ color } : Reporter).calls history).1 = freshAnswers color [] history ∧
    ∀ more, (reporter.calls more).1 =
      ((({ color } : Reporter).calls (history.filter ReporterCall.isAdd)).2.calls more).1 := by
  have hempty : Coherent (latestText []) { color } := coherent_empty color
  have hlater (history more : List ReporterCall) :
      ((({ color } : Reporter).calls history).2.calls more).1 =
        freshAnswers color history more := by
    obtain ⟨-, hcoherent, hcolor⟩ := calls_of_coherent history hempty
    rw [(calls_of_coherent more hcoherent).1, hcolor]
    rfl
  obtain ⟨hanswers, hcoherent, -⟩ := calls_of_coherent history hempty
  refine ⟨hcoherent.lineMaps, hanswers, ?_⟩
  intro more
  rw [hlater, hlater]
  exact freshAnswers_congr color more (latestText_filter_isAdd history).symm

end Rebind
