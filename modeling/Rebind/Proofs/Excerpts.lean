import Rebind.Proofs.LinePartition
import Rebind.Proofs.ReporterAnswers

/-!
# Excerpts in reports

The report of a diagnostic in a text that the reporter knows ends in two rows: the line at which the
diagnostic starts, behind its number, and marks below it.  The line is shown whole
(`reports_show_their_line`).  The marks are blanks under what stands before the diagnostic and
tildes under what it covers (`underline_covers_span`), column by column.  The row of marks starts
with as many blanks as a number of three digits leaves before the line, so the tildes stand under
the diagnostic exactly on the lines up to 999 (`underline_is_aligned_iff`).
-/

namespace Rebind

open Rebind.Text

namespace Excerpt

variable {first last : Nat} {length : UInt32} {line cs : List Char}

/-! ## Columns -/

/-- The columns that characters take on a display: one each, and four for a tab. -/
def columns : List Char → Nat
  | [] => 0
  | c :: cs => (if c = '\t' then 4 else 1) + columns cs

@[simp] theorem columns_nil : columns [] = 0 := rfl

@[simp] theorem columns_cons (c : Char) (cs : List Char) :
    columns (c :: cs) = markWidth c + columns cs := rfl

@[simp] theorem columns_append (front back : List Char) :
    columns (front ++ back) = columns front + columns back := by
  induction front with
  | nil => simp
  | cons c front ih => simp [ih, Nat.add_assoc]

theorem markWidth_pos (c : Char) : 0 < markWidth c := by
  unfold markWidth
  split <;> decide

theorem columns_pos (h : cs ≠ []) : 0 < columns cs := by
  cases cs with
  | nil => exact absurd rfl h
  | cons c cs => exact Nat.add_pos_left (markWidth_pos c) _

/-- Without tabs there are as many columns as characters. -/
theorem columns_eq_length (h : '\t' ∉ cs) : columns cs = cs.length := by
  induction cs with
  | nil => rfl
  | cons c cs ih =>
    obtain ⟨hc, hcs⟩ := List.ne_and_not_mem_of_not_mem_cons h
    rw [columns_cons, ih hcs, markWidth, if_neg (Ne.symm hc), List.length_cons, Nat.add_comm]

/-! ## Marks -/

/-- Under each column of the characters before `first` there is a blank, and under each column of
those from there up to `last` a tilde. -/
theorem marks_eq (h : first ≤ last) (index : Nat) (line : List Char) :
    marks first last index line =
      List.replicate (columns (line.take (first - index))) ' ' ++
        List.replicate (columns ((line.take (last - index)).drop (first - index))) '~' := by
  induction line generalizing index with
  | nil => simp [marks]
  | cons c line ih =>
    unfold marks
    by_cases hlast : last ≤ index
    · have hnone : first - index = 0 := by omega
      simp [hlast, hnone, Nat.sub_eq_zero_of_le hlast]
    · rw [if_neg hlast, ih]
      obtain ⟨n, hn⟩ : ∃ n, last - index = n + 1 := ⟨last - index - 1, by omega⟩
      have hnext : last - (index + 1) = n := by omega
      rw [hn, hnext, List.take_succ_cons]
      by_cases hfirst : index < first
      · obtain ⟨m, hm⟩ : ∃ m, first - index = m + 1 := ⟨first - index - 1, by omega⟩
        have hnext : first - (index + 1) = m := by omega
        rw [if_pos hfirst, hm, hnext, List.take_succ_cons, List.drop_succ_cons, columns_cons,
          ← List.replicate_append_replicate, List.append_assoc]
      · have hm : first - index = 0 := by omega
        have hnext : first - (index + 1) = 0 := by omega
        rw [if_neg hfirst, hm, hnext]
        simp [← List.replicate_append_replicate]

theorem toNat_max_one (length : UInt32) : (max length 1).toNat = max length.toNat 1 := by
  change (if length ≤ 1 then 1 else length).toNat = max length.toNat 1
  have hone : (1 : UInt32).toNat = 1 := rfl
  split
  · next hle =>
    have hle : length.toNat ≤ 1 := UInt32.le_iff_toNat_le.1 hle
    omega
  · next hlt =>
    have hlt : ¬ length.toNat ≤ 1 := fun hle => hlt (UInt32.le_iff_toNat_le.2 hle)
    omega

theorem lastMark_eq (hfits : first + (max length 1).toNat < UInt32.size) :
    lastMark first length = first + (max length 1).toNat := by
  have hfirst : (UInt32.ofNat first).toNat = first :=
    UInt32.toNat_ofNat_of_lt' (Nat.lt_of_le_of_lt (Nat.le_add_right _ _) hfits)
  rw [lastMark, UInt32.toNat_add, hfirst, Nat.mod_eq_of_lt hfits]

/-- The marks are blanks up to the character in question and then tildes, at least one. -/
theorem underline_eq (hfits : first + (max length 1).toNat < UInt32.size) (line : List Char) :
    underline first length line =
      List.replicate (columns (line.take first)) ' ' ++
        List.replicate (max 1 (columns ((line.drop first).take (max length 1).toNat))) '~' := by
  have hle : first ≤ lastMark first length := by
    rw [lastMark_eq hfits]
    exact Nat.le_add_right _ _
  unfold underline
  rw [marks_eq hle, lastMark_eq hfits, Nat.sub_zero, Nat.sub_zero, List.drop_take,
    Nat.add_sub_cancel_left]
  generalize columns ((line.drop first).take (max length 1).toNat) = n
  cases n with
  | zero => simp
  | succ n => simp

/-- Before the first tilde of marks there are blanks. -/
theorem columns_before_tildes (before blanks tildes : Nat) :
    columns ((List.replicate before ' ' ++ (List.replicate blanks ' ' ++
      List.replicate (max 1 tildes) '~')).takeWhile (· != '~')) = before + blanks := by
  obtain ⟨n, hn⟩ : ∃ n, max 1 tildes = n + 1 := ⟨max 1 tildes - 1, by omega⟩
  have hblanks : ∀ c ∈ List.replicate (before + blanks) ' ', (c != '~') = true := by
    intro c hc
    rw [List.eq_of_mem_replicate hc]
    decide
  have htabs : '\t' ∉ List.replicate (before + blanks) ' ' := fun h =>
    absurd (List.eq_of_mem_replicate h) (by decide)
  rw [← List.append_assoc, List.replicate_append_replicate,
    List.takeWhile_append_of_pos hblanks, hn, List.replicate_succ,
    List.takeWhile_cons_of_neg (by decide), List.append_nil, columns_eq_length htabs,
    List.length_replicate]

/-- The number of tildes under what a line has from the start of a diagnostic on. -/
theorem max_columns_take (length : UInt32) (cs : List Char) :
    max 1 (columns (cs.take (max length 1).toNat)) =
      if cs.take length.toNat ≠ [] then columns (cs.take length.toNat)
      else if length = 0 ∧ cs.head? = some '\t' then 4 else 1 := by
  rw [toNat_max_one]
  by_cases hlength : length = 0
  · subst hlength
    have hnone : (0 : UInt32).toNat = 0 := rfl
    rw [hnone, Nat.max_eq_right (Nat.zero_le 1), List.take_zero, if_neg (by simp)]
    cases cs with
    | nil => rfl
    | cons c cs => by_cases hc : c = '\t' <;> simp [markWidth, hc]
  · have hpos : 1 ≤ length.toNat :=
      Nat.one_le_iff_ne_zero.2 fun h => hlength (UInt32.toNat_inj.1 h)
    rw [Nat.max_eq_left hpos]
    by_cases hcovered : cs.take length.toNat = []
    · simp [hcovered, hlength]
    · rw [if_pos hcovered]
      exact Nat.max_eq_right (columns_pos hcovered)

/-! ## The last rows of a report -/

/-- The last row of a text. -/
def lastRow (cs : List Char) : List Char :=
  (cs.reverse.takeWhile (· != '\n')).reverse

/-- A text without its last row and the break before it. -/
def aboveLastRow (cs : List Char) : List Char :=
  ((cs.reverse.dropWhile (· != '\n')).drop 1).reverse

/-- The row of marks in a report that ends in an excerpt. -/
def markRow (report : String) : List Char := lastRow report.toList

/-- The row of a line in a report that ends in an excerpt. -/
def lineRow (report : String) : List Char := lastRow (aboveLastRow report.toList)

theorem all_ne_newline {row : List Char} (h : '\n' ∉ row) :
    ∀ c ∈ row.reverse, (c != '\n') = true := by
  intro c hc
  rw [bne_iff_ne]
  rintro rfl
  exact h (List.mem_reverse.1 hc)

theorem lastRow_append {row : List Char} (h : '\n' ∉ row) (front : List Char) :
    lastRow (front ++ '\n' :: row) = row := by
  have hstop : ('\n' :: front.reverse).takeWhile (· != '\n') = [] := rfl
  rw [lastRow, List.reverse_append, List.reverse_cons, List.append_assoc, List.singleton_append,
    List.takeWhile_append_of_pos (all_ne_newline h), hstop, List.append_nil, List.reverse_reverse]

theorem aboveLastRow_append {row : List Char} (h : '\n' ∉ row) (front : List Char) :
    aboveLastRow (front ++ '\n' :: row) = front := by
  have hstop : ('\n' :: front.reverse).dropWhile (· != '\n') = '\n' :: front.reverse := rfl
  rw [aboveLastRow, List.reverse_append, List.reverse_cons, List.append_assoc,
    List.singleton_append, List.dropWhile_append_of_pos (all_ne_newline h), hstop,
    List.drop_one, List.tail_cons, List.reverse_reverse]

/-! ## The number of a line -/

theorem toList_numberColumn (n : Nat) :
    (numberColumn n).toList =
      List.replicate (3 - (toString n).length) ' ' ++ (toString n).toList := by
  rw [numberColumn, String.toList_append, toList_pushn]

/-- A number has only digits. -/
theorem isDigit_of_mem_toString {n : Nat} {c : Char} (h : c ∈ (toString n).toList) :
    c.isDigit = true := by
  rw [Nat.toString_eq_repr, Nat.toList_repr] at h
  exact Nat.isDigit_of_mem_toDigits (by decide) (by decide) h

/-- Before a line there are three blanks, and its number in three columns or more. -/
def lead (n : Nat) : List Char :=
  ' ' :: ' ' :: ((numberColumn n).toList ++ [' ', ' ', ' '])

theorem not_mem_lead {n : Nat} {c : Char} (hblank : c ≠ ' ') (hdigit : c.isDigit = false) :
    c ∉ lead n := by
  intro h
  simp only [lead, toList_numberColumn, List.mem_cons, List.mem_append, List.mem_replicate,
    hblank, false_or, and_false, or_false, List.not_mem_nil] at h
  rw [isDigit_of_mem_toString h] at hdigit
  cases hdigit

/-- The number of a line takes three columns exactly up to 999. -/
theorem columns_lead (n : Nat) : columns (lead n) = 8 ↔ n ≤ 999 := by
  have htabs : '\t' ∉ lead n := not_mem_lead (by decide) (by decide)
  have hdigits : (toString n).length ≤ 3 ↔ n < 1000 := by
    rw [Nat.toString_eq_repr]
    exact Nat.length_repr_le_iff (by decide)
  rw [columns_eq_length htabs]
  simp only [lead, toList_numberColumn, List.length_cons, List.length_append,
    List.length_replicate, String.length_toList, List.length_nil]
  omega

/-! ## The two rows -/

/-- Where a text has a line there is an excerpt, and it shows the line. -/
theorem ofText?_of_isLine {text : List Char} (position : Position) {start : Nat}
    (h : IsLine text position.line start line) (style : String → String) (length : UInt32) :
    ofText? style (LineMap.ofText text) position length text =
      some (rows style position length line) := by
  rw [ofText?, h.lineText?]
  rfl

theorem toList_rows (position : Position) (length : UInt32) (line : List Char) :
    (rows id position length line).toList =
      '\n' :: (lead position.lineNumber ++ line) ++
        '\n' :: (List.replicate 8 ' ' ++ underline position.character length line) := by
  have hlead : "\n  ".toList = ['\n', ' ', ' '] := rfl
  have hgap : "   ".toList = [' ', ' ', ' '] := rfl
  have hmarks : "\n        ".toList = '\n' :: List.replicate 8 ' ' := rfl
  simp only [rows, id, String.toList_append, String.toList_ofList, hlead, hgap, hmarks, lead,
    List.append_assoc, List.cons_append, List.nil_append]

theorem newline_notMem_underline (hfits : first + (max length 1).toNat < UInt32.size)
    (line : List Char) : '\n' ∉ List.replicate 8 ' ' ++ underline first length line := by
  rw [underline_eq hfits]
  simp

/-- The rows of a text that ends in an excerpt. -/
theorem rows_of_append {position : Position}
    (hfits : position.character + (max length 1).toNat < UInt32.size)
    (hline : '\n' ∉ line) (heading : String) :
    let report := heading ++ rows id position length line
    lineRow report = lead position.lineNumber ++ line ∧
      markRow report = List.replicate 8 ' ' ++ underline position.character length line := by
  intro report
  have hrow : '\n' ∉ lead position.lineNumber ++ line := by
    rw [List.mem_append, not_or]
    exact ⟨not_mem_lead (by decide) (by decide), hline⟩
  have hmarks := newline_notMem_underline hfits line
  have hreport : report.toList =
      (heading.toList ++ '\n' :: (lead position.lineNumber ++ line)) ++
        '\n' :: (List.replicate 8 ' ' ++ underline position.character length line) := by
    rw [String.toList_append, toList_rows, List.append_assoc]
  rw [lineRow, markRow, hreport, aboveLastRow_append hmarks, lastRow_append hrow,
    lastRow_append hmarks]
  exact ⟨rfl, rfl⟩

end Excerpt

/-! ## Reports of diagnostics in known texts -/

namespace Reporter

variable {text : String} {d : Diagnostic}

/-- The position of a diagnostic in a text. -/
def positionIn (text : String) (d : Diagnostic) : Position :=
  (LineMap.ofText text.toList).position d.start.toNat text.toList

/-- A diagnostic starts on a line of the text. -/
theorem exists_isLine (text : String) (d : Diagnostic) :
    ∃ start line, IsLine text.toList (positionIn text d).line start line :=
  LineMap.exists_isLine text.toList d.start.toNat

/-- After some calls a diagnostic is reported with its position and an excerpt of the text that its
file was given last. -/
theorem format_after (color : Bool) (history : List ReporterCall) (hname : d.file ≠ "")
    (htext : latestText history d.file = some text) {start : Nat} {line : List Char}
    (hline : IsLine text.toList (positionIn text d).line start line) :
    let reporter := (({ color } : Reporter).calls history).2
    (reporter.format d).1 =
      d.file ++ s!":{(positionIn text d).lineNumber}:{(positionIn text d).columnNumber}" ++
        (" - " ++ reporter.styled d.category.style d.category.label ++ ": " ++ d.message) ++
        Excerpt.rows (reporter.styled .red) (positionIn text d) d.length line := by
  intro reporter
  have hempty : Coherent (latestText []) { color } := coherent_empty color
  obtain ⟨-, hcoherent, -⟩ := calls_of_coherent history hempty
  have hfound : (reporter.lookup d.file).1 = some (text.toList, LineMap.ofText text.toList) :=
    lookup_of_known hcoherent hname htext
  have hexcerpt := Excerpt.ofText?_of_isLine _ hline (reporter.styled .red) d.length
  unfold positionIn at hexcerpt
  unfold format
  simp only [hfound, hexcerpt]
  rfl

/-- The report of a diagnostic after some calls, without colors. -/
def plainReport (history : List ReporterCall) (d : Diagnostic) : String :=
  (((({} : Reporter).calls history).2).format d).1

/-- The last two rows of a report. -/
theorem rows_of_plainReport (history : List ReporterCall) (hname : d.file ≠ "")
    (htext : latestText history d.file = some text) {start : Nat} {line : List Char}
    (hline : IsLine text.toList (positionIn text d).line start line)
    (hfits : (positionIn text d).character + (max d.length 1).toNat < UInt32.size) :
    Excerpt.lineRow (plainReport history d) =
        Excerpt.lead (positionIn text d).lineNumber ++ line ∧
      Excerpt.markRow (plainReport history d) =
        List.replicate 8 ' ' ++ Excerpt.underline (positionIn text d).character d.length line := by
  have hempty : Coherent (latestText []) {} := coherent_empty false
  have hcolor : (({} : Reporter).calls history).2.color = false :=
    (calls_of_coherent history hempty).2.2
  have hplain : (({} : Reporter).calls history).2.styled .red = id := by
    funext text
    rw [styled, hcolor]
    rfl
  rw [plainReport, format_after false history hname htext hline, hplain]
  exact Excerpt.rows_of_append hfits hline.unbroken.1 _

/-- The lines of a text and the place of a diagnostic in it are counted in 32 bits. -/
structure Counted (text : String) (d : Diagnostic) : Prop where
  starts : ∀ start ∈ (LineMap.ofText text.toList).starts, start < UInt32.size
  lineNumber : (positionIn text d).lineNumber < UInt32.size
  columnNumber : (positionIn text d).columnNumber < UInt32.size

theorem counted (hsize : byteSize text.toList + 1 < UInt32.size) (d : Diagnostic) :
    Counted text d where
  starts start hstart := by
    have hle := (LineMap.boundary_of_mem_starts hstart).le_byteSize
    omega
  lineNumber := by
    have hle : (positionIn text d).line ≤ byteSize text.toList := LineMap.lineOf_le_byteSize _ _
    rw [Position.lineNumber]
    omega
  columnNumber := by
    have hle : (positionIn text d).character ≤ byteSize text.toList :=
      LineMap.character_le_byteSize _ _
    rw [Position.columnNumber]
    omega

/-- In a text whose offsets have 32 bits, the marks of a diagnostic are counted without overflow. -/
theorem marks_fit (hinside : d.start.toNat + d.length.toNat ≤ byteSize text.toList)
    (hsize : byteSize text.toList + 1 < UInt32.size) :
    (positionIn text d).character + (max d.length 1).toNat < UInt32.size := by
  have hle : (positionIn text d).character ≤ d.start.toNat := LineMap.character_le _ _ _
  rw [Excerpt.toNat_max_one]
  omega

end Reporter

open Reporter

/-- **Reports show their line.**  In a report of a diagnostic in a known text whose offsets have 32
bits there are always a place and an excerpt.  The place is the position of the start of the
diagnostic, counted from one without overflow; the excerpt shows the number of this line and all
that stands on it, without what ends it. -/
theorem reports_show_their_line (color : Bool) (history : List ReporterCall) {text : String}
    {d : Diagnostic} (hname : d.file ≠ "") (htext : latestText history d.file = some text)
    (hsize : byteSize text.toList + 1 < UInt32.size) :
    let reporter := (({ color } : Reporter).calls history).2
    let number := toString ((positionIn text d).line + 1)
    Counted text d ∧ ∃ (start : Nat) (line : List Char) (blanks marks : String),
      IsLine text.toList (positionIn text d).line start line ∧ (∀ c ∈ blanks.toList, c = ' ') ∧
      (reporter.format d).1 =
        d.file ++ ":" ++ number ++ ":" ++ toString ((positionIn text d).character + 1) ++
          " - " ++ reporter.styled d.category.style d.category.label ++ ": " ++ d.message ++
          "\n" ++ blanks ++ number ++ "   " ++ String.ofList line ++
          "\n        " ++ reporter.styled .red marks := by
  intro reporter number
  obtain ⟨start, line, hline⟩ := exists_isLine text d
  refine ⟨counted hsize d, start, line, "  " ++ "".pushn ' ' (3 - number.length),
    String.ofList (Excerpt.underline (positionIn text d).character d.length line), hline, ?_, ?_⟩
  · intro c hc
    have hblanks : "  ".toList = List.replicate 2 ' ' := rfl
    rw [String.toList_append, toList_pushn, hblanks, List.replicate_append_replicate] at hc
    exact List.eq_of_mem_replicate hc
  · have hreport : (reporter.format d).1 = _ := format_after color history hname htext hline
    have hgap : "\n  " = "\n" ++ "  " := rfl
    rw [Excerpt.rows, Excerpt.numberColumn, hgap] at hreport
    rw [hreport]
    simp only [String.append_assoc]
    rfl

/-- Past the end of the text the last line is shown, of the text that was given last. -/
theorem report_past_end_shows_last_line :
    let text := "é\r\r\n\tb"
    let history := [ReporterCall.add "a.js" "old", .add "a.js" text]
    let d : Diagnostic := { file := "a.js", start := 99, length := 1, message := "m" }
    d.file ≠ "" ∧ latestText history d.file = some text ∧
      byteSize text.toList + 1 < UInt32.size ∧ IsLine text.toList 2 5 "\tb".toList ∧
      plainReport history d = "a.js:3:3 - error: m\n    3   \tb\n             ~" := by
  intro text history d
  have hname : d.file ≠ "" := by decide
  have htext : latestText history d.file = some text := rfl
  have hsize : byteSize text.toList + 1 < UInt32.size := by decide
  obtain ⟨-, start, line, blanks, marks, hline, hblanks, hreport⟩ :=
    reports_show_their_line false history hname htext hsize
  have hposition : positionIn text d = ⟨2, 2⟩ := by decide
  rw [hposition] at hline
  have hfound : (LineMap.ofText text.toList).lineStart? 2 = some 5 := by decide
  have hfive : start = 5 := Option.some.inj (hline.lineStart?.symm.trans hfound)
  have hbody : line = "\tb".toList := hline.eq_of_lineText? (by decide)
  subst hfive hbody
  exact ⟨hname, htext, hsize, hline, by decide +kernel⟩

/-- **The marks stand under what they mark, up to line 999.**  Before the first tilde there are as
many columns as before the character at which the diagnostic starts, or before the end of its line,
exactly if the number of the line has no more than three digits. -/
theorem underline_is_aligned_iff (history : List ReporterCall) {text : String} {d : Diagnostic}
    (hname : d.file ≠ "") (htext : latestText history d.file = some text)
    (hinside : d.start.toNat + d.length.toNat ≤ byteSize text.toList)
    (hsize : byteSize text.toList + 1 < UInt32.size) :
    let report := plainReport history d
    ∃ (start : Nat) (line lead : List Char),
      IsLine text.toList (positionIn text d).line start line ∧
      Excerpt.lineRow report = lead ++ line ∧ '~' ∈ Excerpt.markRow report ∧
      (Excerpt.columns ((Excerpt.markRow report).takeWhile (· != '~')) =
          Excerpt.columns (lead ++ line.take (positionIn text d).character) ↔
        (positionIn text d).line + 1 ≤ 999) := by
  intro report
  have hfits := marks_fit hinside hsize
  obtain ⟨start, line, hline⟩ := exists_isLine text d
  obtain ⟨hlead, hmarks⟩ := rows_of_plainReport history hname htext hline hfits
  rw [Excerpt.underline_eq hfits] at hmarks
  refine ⟨start, line, _, hline, hlead, ?_, ?_⟩
  · rw [hmarks]
    simp
  · have hnumber := Excerpt.columns_lead (positionIn text d).lineNumber
    rw [hmarks, Excerpt.columns_before_tildes, Excerpt.columns_append, Nat.add_right_cancel_iff,
      eq_comm, hnumber]
    rfl

/-- Below a tab there are four blanks. -/
theorem underline_is_aligned_past_tab :
    let text := "a\n\tb"
    let d : Diagnostic := { file := "a.js", start := 3, length := 1, message := "m" }
    let report := plainReport [.add "a.js" text] d
    d.file ≠ "" ∧ latestText [.add "a.js" text] d.file = some text ∧
      d.start.toNat + d.length.toNat ≤ byteSize text.toList ∧
      byteSize text.toList + 1 < UInt32.size ∧
      report = "a.js:2:2 - error: m\n    2   \tb\n            ~" ∧
      Excerpt.columns ((Excerpt.markRow report).takeWhile (· != '~')) =
        Excerpt.columns "    2   \t".toList := by
  intro text d report
  have hname : d.file ≠ "" := by decide
  have htext : latestText [.add "a.js" text] d.file = some text := rfl
  have hinside : d.start.toNat + d.length.toNat ≤ byteSize text.toList := by decide
  have hsize : byteSize text.toList + 1 < UInt32.size := by decide
  have hreport : report = "a.js:2:2 - error: m\n    2   \tb\n            ~" := by decide +kernel
  obtain ⟨start, line, lead, hline, hrow, -, haligned⟩ :=
    underline_is_aligned_iff [.add "a.js" text] hname htext hinside hsize
  have hposition : positionIn text d = ⟨1, 1⟩ := by decide
  have hbody : line = "\tb".toList := hline.eq_of_lineText? (by rw [hposition]; decide)
  subst hbody
  have hshown : Excerpt.lineRow report = "    2   ".toList ++ "\tb".toList := by
    rw [hreport]
    decide
  have hlead : lead = "    2   ".toList := List.append_cancel_right (hrow.symm.trans hshown)
  refine ⟨hname, htext, hinside, hsize, hreport, (haligned.2 (by decide)).trans ?_⟩
  rw [hlead, hposition]
  decide

/-- On line 1000 the tilde stands one column before what it marks. -/
theorem thousandth_line_is_not_aligned :
    let text := String.ofList (List.replicate 999 '\n' ++ ['x'])
    let d : Diagnostic := { file := "a.js", start := 999, length := 1, message := "m" }
    let report := plainReport [.add "a.js" text] d
    (Excerpt.lineRow report = "  1000   x".toList ∧
        Excerpt.markRow report = "        ~".toList) ∧
      ¬ ∀ (history : List ReporterCall) (text : String) (d : Diagnostic) (start : Nat)
          (line : List Char), d.file ≠ "" → latestText history d.file = some text →
        d.start.toNat + d.length.toNat ≤ byteSize text.toList →
        IsLine text.toList (positionIn text d).line start line →
        (positionIn text d).character ≤ line.length →
        ∃ lead, Excerpt.lineRow (plainReport history d) = lead ++ line ∧
          Excerpt.columns ((Excerpt.markRow (plainReport history d)).takeWhile (· != '~')) =
            Excerpt.columns (lead ++ line.take (positionIn text d).character) := by
  intro text d report
  have hlist : text.toList = List.replicate 999 '\n' ++ ['x'] := String.toList_ofList
  have hsize : byteSize text.toList = 1000 := by
    rw [hlist]
    decide +kernel
  have hposition : positionIn text d = ⟨999, 0⟩ := by
    rw [positionIn, hlist]
    decide +kernel
  have hname : d.file ≠ "" := by decide
  have hlatest : latestText [.add "a.js" text] d.file = some text := rfl
  obtain ⟨start, line, hline⟩ := exists_isLine text d
  have hbody : line = ['x'] :=
    hline.eq_of_lineText? (by rw [hposition, hlist]; decide +kernel)
  subst hbody
  obtain ⟨hrow, hmarks⟩ := rows_of_plainReport [.add "a.js" text] hname hlatest hline
    (marks_fit (by rw [hsize]; decide) (by rw [hsize]; decide))
  rw [hposition] at hrow hmarks
  refine ⟨⟨hrow.trans (by decide +kernel), hmarks.trans (by decide)⟩, fun h => ?_⟩
  obtain ⟨lead, hlead, haligned⟩ := h _ text d start ['x'] hname hlatest
    (by rw [hsize]; decide) hline (by rw [hposition]; decide)
  rw [hrow] at hlead
  rw [← List.append_cancel_right hlead, hmarks, hposition] at haligned
  revert haligned
  decide +kernel

/-- **The marks cover what the diagnostic covers.**  Past eight blanks there is a blank for each
column of what stands on the line before the diagnostic, and then a tilde for each column of what
the diagnostic covers of the line.  If it covers nothing of the line there is one tilde, but if it
has no length and stands before a tab there are four. -/
theorem underline_covers_span (history : List ReporterCall) {text : String} {d : Diagnostic}
    (hname : d.file ≠ "") (htext : latestText history d.file = some text)
    (hstart : Boundary text.toList d.start.toNat)
    (hend : Boundary text.toList (d.start.toNat + d.length.toNat))
    (hascii : ∀ c ∈ Span.slice ⟨d.start.toNat, d.start.toNat + d.length.toNat⟩ text.toList,
      c.toNat < 128)
    (hsize : byteSize text.toList + 1 < UInt32.size) :
    ∃ (start : Nat) (line : List Char), IsLine text.toList (positionIn text d).line start line ∧
      let stop := start + byteSize line
      let before := Span.slice ⟨start, min d.start.toNat stop⟩ text.toList
      let onward := Span.slice ⟨d.start.toNat, stop⟩ text.toList
      let covered :=
        Span.slice ⟨d.start.toNat, min (d.start.toNat + d.length.toNat) stop⟩ text.toList
      let tildes :=
        if covered ≠ [] then Excerpt.columns covered
        else if d.length = 0 ∧ onward.head? = some '\t' then 4 else 1
      Excerpt.markRow (plainReport history d) = List.replicate 8 ' ' ++
        (List.replicate (Excerpt.columns before) ' ' ++ List.replicate tildes '~') := by
  have hfits := marks_fit hend.le_byteSize hsize
  obtain ⟨start, line, hline⟩ := exists_isLine text d
  obtain ⟨-, hmarks⟩ := rows_of_plainReport history hname htext hline hfits
  refine ⟨start, line, hline, ?_⟩
  intro stop before onward covered tildes
  have hcovered : onward.take d.length.toNat = covered :=
    hline.take_slice hstart hend fun c hc =>
      Char.utf8Size_eq_one_iff.2 (Nat.le_of_lt_succ (hascii c hc))
  have htildes : max 1 (Excerpt.columns (onward.take (max d.length 1).toNat)) = tildes := by
    rw [Excerpt.max_columns_take, hcovered]
  have hbefore : line.take (positionIn text d).character = before := (hline.cut hstart).1
  have honward : line.drop (positionIn text d).character = onward := (hline.cut hstart).2
  rw [hmarks, Excerpt.underline_eq hfits, ← htildes, hbefore, honward]

/-- Over two lines the marks go on to the end of the first, also below a tab. -/
theorem underline_stops_at_line_end :
    let text := "é\tab\r\ncd"
    let d : Diagnostic := { file := "a.js", start := 2, length := 6, message := "m" }
    d.file ≠ "" ∧ latestText [.add "a.js" text] d.file = some text ∧
      Boundary text.toList d.start.toNat ∧
      Boundary text.toList (d.start.toNat + d.length.toNat) ∧
      (∀ c ∈ Span.slice ⟨d.start.toNat, d.start.toNat + d.length.toNat⟩ text.toList,
        c.toNat < 128) ∧
      byteSize text.toList + 1 < UInt32.size ∧
      Excerpt.markRow (plainReport [.add "a.js" text] d) = "         ~~~~~~".toList := by
  intro text d
  have hname : d.file ≠ "" := by decide
  have htext : latestText [.add "a.js" text] d.file = some text := rfl
  have hstart : Boundary text.toList d.start.toNat := isBoundary_iff.1 (by decide)
  have hend : Boundary text.toList (d.start.toNat + d.length.toNat) :=
    isBoundary_iff.1 (by decide)
  have hspan : Span.slice ⟨d.start.toNat, d.start.toNat + d.length.toNat⟩ text.toList =
      "\tab\r\nc".toList := by decide
  have hascii : ∀ c ∈ Span.slice ⟨d.start.toNat, d.start.toNat + d.length.toNat⟩ text.toList,
      c.toNat < 128 := by
    rw [hspan]
    simp
  have hsize : byteSize text.toList + 1 < UInt32.size := by decide
  refine ⟨hname, htext, hstart, hend, hascii, hsize, ?_⟩
  obtain ⟨start, line, hline, hmarks⟩ :=
    underline_covers_span [.add "a.js" text] hname htext hstart hend hascii hsize
  have hposition : positionIn text d = ⟨0, 1⟩ := by decide
  have hfound : (LineMap.ofText text.toList).lineStart? 0 = some 0 := rfl
  rw [hposition] at hline
  have hzero : start = 0 := Option.some.inj (hline.lineStart?.symm.trans hfound)
  have hbody : line = "é\tab".toList := hline.eq_of_lineText? (by decide)
  subst hzero hbody
  exact hmarks.trans (by decide +kernel)

/-- A diagnostic without length has four tildes below a tab, not one. -/
theorem empty_span_before_tab_has_four_marks :
    let text := "\tx"
    let d : Diagnostic := { file := "a.js", start := 0, length := 0, message := "m" }
    plainReport [.add "a.js" text] d = "a.js:1:1 - error: m\n    1   \tx\n        ~~~~" ∧
      ¬ ∀ (history : List ReporterCall) (text : String) (d : Diagnostic) (start : Nat)
          (line : List Char), d.file ≠ "" → latestText history d.file = some text →
        Boundary text.toList d.start.toNat →
        Boundary text.toList (d.start.toNat + d.length.toNat) →
        (∀ c ∈ Span.slice ⟨d.start.toNat, d.start.toNat + d.length.toNat⟩ text.toList,
          c.toNat < 128) →
        IsLine text.toList (positionIn text d).line start line →
        let stop := start + byteSize line
        let before := Span.slice ⟨start, min d.start.toNat stop⟩ text.toList
        let covered :=
          Span.slice ⟨d.start.toNat, min (d.start.toNat + d.length.toNat) stop⟩ text.toList
        let tildes := if covered ≠ [] then Excerpt.columns covered else 1
        Excerpt.markRow (plainReport history d) = List.replicate 8 ' ' ++
          (List.replicate (Excerpt.columns before) ' ' ++ List.replicate tildes '~') := by
  intro text d
  have hreport :
      plainReport [.add "a.js" text] d = "a.js:1:1 - error: m\n    1   \tx\n        ~~~~" := by
    decide +kernel
  refine ⟨hreport, fun h => ?_⟩
  have hposition : positionIn text d = ⟨0, 0⟩ := by decide
  obtain ⟨body, hline⟩ : ∃ body, IsLine text.toList 0 0 body := LineMap.isLine_of_lineStart? rfl
  have hbody : body = "\tx".toList := hline.eq_of_lineText? (by decide)
  subst hbody
  have hempty : Span.slice ⟨d.start.toNat, d.start.toNat + d.length.toNat⟩ text.toList = [] :=
    slice_of_le (Nat.le_refl _) _
  have hmarks := h [.add "a.js" text] text d 0 _ (by decide) rfl (isBoundary_iff.1 (by decide))
    (isBoundary_iff.1 (by decide)) (hempty ▸ List.forall_mem_nil _) (by rwa [hposition])
  rw [hreport] at hmarks
  revert hmarks
  decide +kernel

end Rebind
