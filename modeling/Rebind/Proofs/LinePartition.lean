import Rebind.Proofs.Lines

/-!
# The lines of a text

What the lines of a text are is said here without offsets (`IsLines`): every line but the last has
one break at its end, and there is no other break.  Every text has lines in this sense
(`exists_isLines`), and they start where the line map of the text says (`lineStart?_of_isLines`).
So a text that is cut at these starts is cut into its lines (`starts_partition_text`), and the
stretch of a line without what ends it is what stands on the line (`lineText?_of_isLines`).
-/

namespace Rebind.Text

/-! ## What lines are -/

/-- There is no line break in the text. -/
def Unbroken (text : List Char) : Prop :=
  '\n' ∉ text ∧ '\r' ∉ text

instance (text : List Char) : Decidable (Unbroken text) :=
  inferInstanceAs (Decidable ('\n' ∉ text ∧ '\r' ∉ text))

/-- What ends a line when `rest` stands behind it.  Before `\n` a `\r` alone ends no line. -/
inductive Ends (rest : List Char) : List Char → Prop
  | newline : Ends rest ['\n']
  | pair : Ends rest ['\r', '\n']
  | loneReturn (h : rest.head? ≠ some '\n') : Ends rest ['\r']

/-- A line of a text. -/
structure Line where
  /-- What stands on the line. -/
  body : List Char
  /-- What ends the line. -/
  terminator : List Char
  deriving Repr, DecidableEq

def Line.text (line : Line) : List Char := line.body ++ line.terminator

/-- The lines of a text, of which only the last has nothing that ends it. -/
inductive IsLines : List Char → List Line → Prop
  | last {body : List Char} (hbody : Unbroken body) : IsLines body [⟨body, []⟩]
  | cons {body terminator rest : List Char} {lines : List Line} (hbody : Unbroken body)
      (hends : Ends rest terminator) (hrest : IsLines rest lines) :
      IsLines (body ++ (terminator ++ rest)) (⟨body, terminator⟩ :: lines)

variable {text body terminator rest : List Char} {offset : Nat}
  {line first : Line} {lines before after : List Line}

theorem Ends.isBreak (h : Ends rest terminator) : ∀ c ∈ terminator, c = '\n' ∨ c = '\r' := by
  cases h <;> simp

theorem unbroken_nil : Unbroken [] := ⟨List.not_mem_nil, List.not_mem_nil⟩

theorem unbroken_cons {c : Char} :
    Unbroken (c :: body) ↔ ¬ (c = '\n' ∨ c = '\r') ∧ Unbroken body := by
  simp only [Unbroken, List.mem_cons, not_or, eq_comm (a := c)]
  exact and_and_and_comm

/-- A character is put before the first line. -/
theorem IsLines.push {c : Char} (hc : ¬ (c = '\n' ∨ c = '\r')) (h : IsLines text lines) :
    ∃ lines', IsLines (c :: text) lines' := by
  cases h with
  | last hbody => exact ⟨_, .last (unbroken_cons.2 ⟨hc, hbody⟩)⟩
  | cons hbody hends hrest => exact ⟨_, .cons (unbroken_cons.2 ⟨hc, hbody⟩) hends hrest⟩

theorem exists_isLines (text : List Char) : ∃ lines, IsLines text lines := by
  induction 0, text using breakStops.induct with
  | case1 offset => exact ⟨_, .last unbroken_nil⟩
  | case2 offset cs ih =>
    obtain ⟨lines, ih⟩ := ih
    exact ⟨_, .cons unbroken_nil .pair ih⟩
  | case3 offset c cs hpair next hbreak ih =>
    obtain ⟨lines, ih⟩ := ih
    rcases hbreak with rfl | rfl
    · exact ⟨_, .cons unbroken_nil .newline ih⟩
    · refine ⟨_, .cons unbroken_nil (.loneReturn fun hhead => ?_) ih⟩
      obtain ⟨more, rfl⟩ := List.head?_eq_some_iff.1 hhead
      exact hpair more rfl rfl
  | case4 offset c cs hpair next hbreak ih =>
    obtain ⟨lines, ih⟩ := ih
    exact ih.push hbreak

namespace IsLines

theorem flatMap_text (h : IsLines text lines) : lines.flatMap Line.text = text := by
  induction h with
  | last hbody => simp [Line.text]
  | cons hbody hends hrest ih => rw [List.flatMap_cons, ih, Line.text, List.append_assoc]

theorem ne_nil (h : IsLines text lines) : lines ≠ [] := by
  cases h <;> exact List.cons_ne_nil _ _

/-- Before another line a line has what ends it. -/
theorem uncons (h : IsLines text (first :: lines)) (hne : lines ≠ []) :
    Unbroken first.body ∧ ∃ rest, Ends rest first.terminator ∧ text = first.text ++ rest ∧
      IsLines rest lines := by
  cases h with
  | last hbody => exact absurd rfl hne
  | cons hbody hends hrest => exact ⟨hbody, _, hends, (List.append_assoc _ _ _).symm, hrest⟩

/-- Past some lines there are the lines of what is left of the text. -/
theorem suffix (h : IsLines text (before ++ lines)) (hne : lines ≠ []) :
    IsLines (lines.flatMap Line.text) lines := by
  induction before generalizing text with
  | nil =>
    rw [List.nil_append] at h
    rwa [h.flatMap_text]
  | cons first before ih =>
    obtain ⟨-, rest, -, -, hrest⟩ := h.uncons (List.append_ne_nil_of_right_ne_nil _ hne)
    exact ih hrest

theorem ended (h : IsLines text (before ++ line :: after)) (hne : after ≠ []) :
    Unbroken line.body ∧ Ends (after.flatMap Line.text) line.terminator := by
  obtain ⟨hbody, rest, hends, -, hrest⟩ := (h.suffix (List.cons_ne_nil _ _)).uncons hne
  rw [hrest.flatMap_text]
  exact ⟨hbody, hends⟩

theorem single (h : IsLines text [line]) : Unbroken line.body ∧ line.terminator = [] := by
  cases h with
  | last hbody => exact ⟨hbody, rfl⟩
  | cons hbody hends hrest => exact absurd rfl hrest.ne_nil

theorem ending (h : IsLines text (before ++ [line])) :
    Unbroken line.body ∧ line.terminator = [] :=
  (h.suffix (List.cons_ne_nil _ _)).single

/-- On a line nothing is a break, and nothing else ends it. -/
theorem body_and_terminator (h : IsLines text (before ++ line :: after)) :
    Unbroken line.body ∧ ∀ c ∈ line.terminator, c = '\n' ∨ c = '\r' := by
  by_cases hafter : after = []
  · subst hafter
    obtain ⟨hbody, hterminator⟩ := h.ending
    rw [hterminator]
    exact ⟨hbody, List.forall_mem_nil _⟩
  · obtain ⟨hbody, hends⟩ := h.ended hafter
    exact ⟨hbody, hends.isBreak⟩

/-- The lines before and after one of them. -/
theorem around (h : IsLines text lines) {n : Nat} (hlt : n < lines.length) :
    ∃ before after, IsLines text (before ++ lines[n] :: after) ∧ before.length = n := by
  refine ⟨lines.take n, lines.drop (n + 1), ?_, List.length_take_of_le (Nat.le_of_lt hlt)⟩
  rwa [← List.drop_eq_getElem_cons, List.take_append_drop]

end IsLines

/-! ## Where lines start -/

theorem breakStops_cons {c : Char} (hc : ¬ (c = '\n' ∨ c = '\r')) (offset : Nat)
    (cs : List Char) : breakStops offset (c :: cs) = breakStops (offset + c.utf8Size) cs := by
  rw [breakStops]
  · exact if_neg hc
  · rintro more rfl
    exact absurd (.inr rfl) hc

theorem breakStops_append (h : Unbroken body) (offset : Nat) (rest : List Char) :
    breakStops offset (body ++ rest) = breakStops (offset + byteSize body) rest := by
  induction body generalizing offset with
  | nil => rfl
  | cons c body ih =>
    obtain ⟨hc, hbody⟩ := unbroken_cons.1 h
    rw [List.cons_append, breakStops_cons hc, ih hbody, byteSize_cons, Nat.add_assoc]

theorem breakStops_ends (h : Ends rest terminator) (offset : Nat) :
    breakStops offset (terminator ++ rest) =
      (offset + byteSize terminator) :: breakStops (offset + byteSize terminator) rest := by
  cases h with
  | newline | pair => rfl
  | loneReturn h =>
    rw [List.singleton_append, breakStops]
    · rfl
    · rintro more - rfl
      exact h rfl

/-- The next line starts past what ends a line. -/
theorem breakStops_line (hbody : Unbroken body) (hends : Ends rest terminator) (offset : Nat) :
    breakStops offset (body ++ (terminator ++ rest)) =
      (offset + byteSize (body ++ terminator)) ::
        breakStops (offset + byteSize (body ++ terminator)) rest := by
  rw [breakStops_append hbody, breakStops_ends hends, byteSize_append, Nat.add_assoc]

theorem IsLines.length_starts (h : IsLines text lines) (offset : Nat) :
    (offset :: breakStops offset text).length = lines.length := by
  induction h generalizing offset with
  | last hbody =>
    have hnone := breakStops_append hbody offset []
    rw [List.append_nil] at hnone
    rw [hnone]
    rfl
  | cons hbody hends hrest ih => rw [breakStops_line hbody hends, List.length_cons, ih]; rfl

/-- Lines start where the lines before them stop. -/
theorem IsLines.getElem?_starts (h : IsLines text (before ++ line :: after)) (offset : Nat) :
    (offset :: breakStops offset text)[before.length]? =
      some (offset + byteSize (before.flatMap Line.text)) := by
  induction before generalizing text offset with
  | nil => rfl
  | cons first before ih =>
    obtain ⟨hbody, rest, hends, rfl, hrest⟩ := h.uncons (by simp)
    rw [Line.text, List.append_assoc, breakStops_line hbody hends, List.length_cons,
      List.getElem?_cons_succ, ih hrest]
    simp only [List.flatMap_cons, Line.text, byteSize_append, Nat.add_assoc]

namespace LineMap

theorem lineCount_of_isLines (h : IsLines text lines) : (ofText text).lineCount = lines.length :=
  h.length_starts 0

theorem lineStart?_of_isLines (h : IsLines text (before ++ line :: after)) :
    (ofText text).lineStart? before.length = some (byteSize (before.flatMap Line.text)) := by
  rw [← Nat.zero_add (byteSize _)]
  exact h.getElem?_starts 0

/-- A line stops where the next one starts, and the last one at the end of the text. -/
theorem lineStop_of_isLines (h : IsLines text (before ++ line :: after)) :
    ((ofText text).lineStart? (before.length + 1)).getD (byteSize text) =
      byteSize (before.flatMap Line.text) + byteSize line.text := by
  cases after with
  | nil =>
    have hnone : (ofText text).lineStart? (before.length + 1) = none := by
      refine List.getElem?_eq_none ?_
      exact Nat.le_of_eq ((lineCount_of_isLines h).trans (by simp))
    rw [hnone, Option.getD_none, ← h.flatMap_text]
    simp
  | cons next after =>
    have hnext : (ofText text).lineStart? (before ++ [line]).length =
        some (byteSize ((before ++ [line]).flatMap Line.text)) :=
      lineStart?_of_isLines (by simpa using h)
    rw [List.length_append, List.length_singleton] at hnext
    rw [hnext, Option.getD_some]
    simp

/-- The stretch of a line cuts no character and holds the line with what ends it. -/
theorem slice?_of_isLines (h : IsLines text (before ++ line :: after)) :
    Span.slice? ⟨byteSize (before.flatMap Line.text),
      byteSize (before.flatMap Line.text) + byteSize line.text⟩ text = some line.text := by
  have htext : before.flatMap Line.text ++ (line.text ++ after.flatMap Line.text) = text := by
    rw [← h.flatMap_text]
    simp
  rw [← htext]
  exact slice?_append_append _ _ _

/-- The text of a line is what stands on it, and nothing else of it is left out. -/
theorem lineText?_of_isLines (h : IsLines text (before ++ line :: after)) :
    (ofText text).lineText? before.length text = some line.body := by
  obtain ⟨hbody, hterminator⟩ := h.body_and_terminator
  simp only [lineText?, lineStart?_of_isLines h, lineStop_of_isLines h, slice?_of_isLines h,
    Option.bind_eq_bind, Option.bind_some, Option.pure_def, Option.some.injEq]
  rw [Line.text, List.reverse_append, List.dropWhile_append_of_pos fun c hc => ?_]
  · cases hreverse : line.body.reverse with
    | nil => rw [List.reverse_eq_nil_iff.1 hreverse]; rfl
    | cons c cs =>
      have hmem : c ∈ line.body := List.mem_reverse.1 (hreverse ▸ List.mem_cons_self)
      have hn : c ≠ '\n' := fun h => hbody.1 (h ▸ hmem)
      have hr : c ≠ '\r' := fun h => hbody.2 (h ▸ hmem)
      rw [List.dropWhile_cons_of_neg (by simp [hn, hr]), ← hreverse, List.reverse_reverse]
  · rcases hterminator c (List.mem_reverse.1 hc) with rfl | rfl <;> rfl

end LineMap

/-- What stands on line `n` of a text, counted from zero, and the offset at which it starts. -/
def IsLine (text : List Char) (n start : Nat) (body : List Char) : Prop :=
  ∃ before line after, IsLines text (before ++ line :: after) ∧ before.length = n ∧
    byteSize (before.flatMap Line.text) = start ∧ line.body = body

namespace IsLine

variable {n start length : Nat}

theorem unbroken (h : IsLine text n start body) : Unbroken body := by
  obtain ⟨before, line, after, hlines, -, -, rfl⟩ := h
  exact hlines.body_and_terminator.1

theorem lineStart? (h : IsLine text n start body) :
    (LineMap.ofText text).lineStart? n = some start := by
  obtain ⟨before, line, after, hlines, rfl, rfl, -⟩ := h
  exact LineMap.lineStart?_of_isLines hlines

theorem lineText? (h : IsLine text n start body) :
    (LineMap.ofText text).lineText? n text = some body := by
  obtain ⟨before, line, after, hlines, rfl, -, rfl⟩ := h
  exact LineMap.lineText?_of_isLines hlines

theorem eq_of_lineText? {shown : List Char} (h : IsLine text n start body)
    (hshown : (LineMap.ofText text).lineText? n text = some shown) : body = shown :=
  Option.some.inj (h.lineText?.symm.trans hshown)

/-- The line in its text. -/
theorem split (h : IsLine text n start body) :
    ∃ front rest, text = front ++ (body ++ rest) ∧ byteSize front = start := by
  obtain ⟨before, line, after, hlines, -, rfl, rfl⟩ := h
  refine ⟨before.flatMap Line.text, line.terminator ++ after.flatMap Line.text, ?_, rfl⟩
  rw [← hlines.flatMap_text]
  simp [Line.text]

theorem boundary (h : IsLine text n start body) :
    Boundary text start ∧ Boundary text (start + byteSize body) := by
  obtain ⟨front, rest, rfl, rfl⟩ := h.split
  exact ⟨⟨front, body ++ rest, rfl, rfl⟩, ⟨front ++ body, rest, by simp, by simp⟩⟩

theorem slice (h : IsLine text n start body) :
    Span.slice ⟨start, start + byteSize body⟩ text = body := by
  obtain ⟨front, rest, rfl, rfl⟩ := h.split
  exact slice_append_append _ _ _

/-- The position of an offset cuts its line in the characters before the offset and those from
there on. -/
theorem cut
    (h : IsLine text ((LineMap.ofText text).position offset text).line start body)
    (hoffset : Boundary text offset) :
    let stop := start + byteSize body
    let column := ((LineMap.ofText text).position offset text).character
    body.take column = Span.slice ⟨start, min offset stop⟩ text ∧
      body.drop column = Span.slice ⟨offset, stop⟩ text := by
  intro stop column
  obtain ⟨front, mid, back, htext, hfront, hmid, hsum⟩ := LineMap.reaches_position hoffset
  have hstart : byteSize front = start := Option.some.inj (hfront.symm.trans h.lineStart?)
  subst hstart
  have hcut : Span.slice ⟨byteSize front, offset⟩ text = mid := by
    rw [htext, ← hsum, slice_append_append]
  obtain ⟨hlow, hhigh⟩ := h.boundary
  have hle : byteSize front ≤ offset := by omega
  rcases Nat.le_total offset stop with hoff | hoff
  · -- The offset lies on the line.
    have hline : mid ++ Span.slice ⟨offset, stop⟩ text = body := by
      rw [← hcut, hlow.slice_append hoffset hhigh hle hoff]
      exact h.slice
    rw [Nat.min_eq_left hoff, hcut]
    constructor
    · rw [← hline]
      exact List.take_left' hmid
    · have hdrop : (mid ++ Span.slice ⟨offset, stop⟩ text).drop column = _ :=
        List.drop_left' hmid
      rwa [hline] at hdrop
  · -- The offset lies in what ends the line.
    have hline : body ++ Span.slice ⟨stop, offset⟩ text = mid := by
      rw [← hcut, ← hlow.slice_append hhigh hoffset (Nat.le_add_right _ _) hoff]
      rw [h.slice]
    have hlength : body.length ≤ column := by
      have hcolumn : mid.length = column := hmid
      rw [← hcolumn, ← hline, List.length_append]
      exact Nat.le_add_right _ _
    rw [Nat.min_eq_right hoff, h.slice, slice_of_le hoff, List.take_of_length_le hlength,
      List.drop_of_length_le hlength]
    exact ⟨rfl, rfl⟩

/-- Of what stands on a line from an offset on, a stretch in which every character is one byte
covers as many characters as it has bytes, up to the end of the line. -/
theorem take_slice (h : IsLine text n start body) (hoffset : Boundary text offset)
    (hend : Boundary text (offset + length))
    (hbytes : ∀ c ∈ Span.slice ⟨offset, offset + length⟩ text, c.utf8Size = 1) :
    let stop := start + byteSize body
    (Span.slice ⟨offset, stop⟩ text).take length =
      Span.slice ⟨offset, min (offset + length) stop⟩ text := by
  intro stop
  obtain ⟨-, hstop⟩ := h.boundary
  rcases Nat.le_total stop offset with hoff | hoff
  · rw [slice_of_le hoff, slice_of_le (by omega), List.take_nil]
  have hrest : offset + byteSize (Span.slice ⟨offset, stop⟩ text) = stop :=
    hoffset.byteSize_slice hstop hoff
  rcases Nat.le_total stop (offset + length) with hlong | hlong
  · rw [Nat.min_eq_right hlong]
    have hle := length_le_byteSize (Span.slice ⟨offset, stop⟩ text)
    exact List.take_of_length_le (by omega)
  · have hspan := hoffset.byteSize_slice hend (Nat.le_add_right _ _)
    rw [byteSize_eq_length hbytes] at hspan
    rw [Nat.min_eq_left hlong,
      ← hoffset.slice_append hend hstop (Nat.le_add_right _ _) hlong]
    exact List.take_left' (by omega)

end IsLine

/-- A text has no more line breaks than bytes. -/
theorem length_breakStops_le (offset : Nat) (text : List Char) :
    (breakStops offset text).length ≤ byteSize text := by
  fun_induction breakStops offset text with
  | case1 => exact Nat.le_refl _
  | case2 offset cs ih =>
    have hr : '\r'.utf8Size = 1 := rfl
    rw [List.length_cons, byteSize_cons, byteSize_cons, hr]
    omega
  | case3 offset c cs hpair next hbreak ih =>
    have hpos := c.utf8Size_pos
    rw [List.length_cons, byteSize_cons]
    omega
  | case4 offset c cs hpair next hbreak ih => exact Nat.le_trans ih (Nat.le_add_left _ _)

namespace LineMap

/-- No more characters than bytes stand before an offset on its line. -/
theorem character_le (map : LineMap) (offset : Nat) (text : List Char) :
    (map.position offset text).character ≤ offset := by
  rw [position]
  dsimp only
  split
  · refine Nat.le_trans (length_le_byteSize _) (Nat.le_trans (byteSize_takeBytes_le _ _) ?_)
    exact Nat.le_trans (Nat.sub_le _ _) (Nat.min_le_left _ _)
  · exact Nat.zero_le _

theorem character_le_byteSize (text : List Char) (offset : Nat) :
    ((ofText text).position offset text).character ≤ byteSize text := by
  rcases Nat.le_total offset (byteSize text) with hle | hle
  · exact Nat.le_trans (character_le _ _ _) hle
  · rw [position_past_end hle]
    exact character_le _ _ _

theorem lineOf_le_byteSize (text : List Char) (offset : Nat) :
    (ofText text).lineOf offset ≤ byteSize text := by
  have hlength := length_breakStops_le 0 text
  have htaken := ((ofText text).starts.takeWhile_sublist (· ≤ offset)).length_le
  have hstarts : (ofText text).starts.length = (breakStops 0 text).length + 1 := rfl
  rw [lineOf]
  omega

/-- Where the line map has a start, a line of the text starts. -/
theorem isLine_of_lineStart? {n start : Nat} (h : (ofText text).lineStart? n = some start) :
    ∃ body, IsLine text n start body := by
  obtain ⟨lines, hlines⟩ := exists_isLines text
  have hlt : n < lines.length := by
    rw [← lineCount_of_isLines hlines]
    exact (List.getElem?_eq_some_iff.1 h).1
  obtain ⟨before, after, hlines, rfl⟩ := hlines.around hlt
  have hstart := (lineStart?_of_isLines hlines).symm.trans h
  exact ⟨_, before, _, after, hlines, rfl, Option.some.inj hstart, rfl⟩

/-- The line of an offset is a line of the text. -/
theorem exists_isLine (text : List Char) (offset : Nat) :
    ∃ start body, IsLine text ((ofText text).lineOf offset) start body := by
  obtain ⟨start, hstart, -⟩ := exists_lineStart text offset
  exact ⟨start, isLine_of_lineStart? hstart⟩

/-! ## Cutting a text at the starts of its lines -/

/-- The stretch from the start of a line to that of the next one, or to the end of the text. -/
def lineSpan (map : LineMap) (line : Nat) (text : List Char) : Span where
  start := (map.lineStart? line).getD 0
  stop := (map.lineStart? (line + 1)).getD (byteSize text)

/-- A text cut at the starts of lines. -/
def pieces (map : LineMap) (text : List Char) : List (List Char) :=
  (List.range map.lineCount).map fun line => (map.lineSpan line text).slice text

theorem slice_lineSpan (h : IsLines text (before ++ line :: after)) :
    ((ofText text).lineSpan before.length text).slice text = line.text := by
  rw [lineSpan, lineStart?_of_isLines h, lineStop_of_isLines h, Option.getD_some]
  exact slice_of_slice? (slice?_of_isLines h)

theorem pieces_of_isLines (h : IsLines text lines) :
    (ofText text).pieces text = lines.map Line.text := by
  rw [pieces, lineCount_of_isLines h]
  refine List.ext_getElem (by simp) fun i hi hi' => ?_
  have hlt : i < lines.length := by simpa using hi
  obtain ⟨before, after, hlines, rfl⟩ := h.around hlt
  simpa using slice_lineSpan hlines

end LineMap

/-! ## How many lines there are -/

/-- How often `\r` stands directly before `\n`. -/
def pairCount (text : List Char) : Nat :=
  (text.zip text.tail).count ('\r', '\n')

theorem pairCount_cons (c : Char) (cs : List Char) :
    pairCount (c :: cs) = pairCount cs + if c = '\r' ∧ cs.head? = some '\n' then 1 else 0 := by
  cases cs with
  | nil => simp [pairCount]
  | cons d cs => simp [pairCount, List.count_cons]

/-- Every `\n` and every `\r` ends a line, the two together one. -/
theorem length_breakStops (offset : Nat) (text : List Char) :
    (breakStops offset text).length + pairCount text = text.count '\n' + text.count '\r' := by
  fun_induction breakStops offset text with
  | case1 => rfl
  | case2 offset cs ih =>
    simp [pairCount_cons]
    omega
  | case3 offset c cs hpair next hbreak ih =>
    have hlone : ¬ (c = '\r' ∧ cs.head? = some '\n') := by
      rintro ⟨rfl, hhead⟩
      obtain ⟨more, rfl⟩ := List.head?_eq_some_iff.1 hhead
      exact hpair more rfl rfl
    rw [pairCount_cons, if_neg hlone]
    rcases hbreak with rfl | rfl <;> simp <;> omega
  | case4 offset c cs hpair next hbreak ih =>
    obtain ⟨hn, hr⟩ := not_or.1 hbreak
    rw [pairCount_cons, if_neg fun h => hr h.1, List.count_cons_of_ne hn, List.count_cons_of_ne hr]
    exact ih

namespace LineMap

/-- **A line map cuts its text into lines.**  The starts begin with zero, increase, cut no character
and do not go past the end.  The text cut at them is whole again when the pieces are put together;
every piece but the last ends in one `\n`, `\r\n` or `\r` without `\n` behind it and has no break
elsewhere, and the last has none.  There is one more line than there are such ends. -/
theorem starts_partition_text (text : List Char) :
    let map := ofText text
    map.lineStart? 0 = some 0 ∧ map.starts.Pairwise (· < ·) ∧
      (∀ start ∈ map.starts, start ≤ byteSize text ∧ Boundary text start) ∧
      (map.pieces text).flatten = text ∧
      (∀ before piece after, map.pieces text = before ++ piece :: after → after ≠ [] →
        ∃ body terminator, piece = body ++ terminator ∧ Unbroken body ∧
          Ends after.flatten terminator) ∧
      (∃ before piece, map.pieces text = before ++ [piece] ∧ Unbroken piece) ∧
      map.lineCount + pairCount text = text.count '\n' + text.count '\r' + 1 := by
  intro map
  obtain ⟨lines, hlines⟩ := exists_isLines text
  have hpieces : map.pieces text = lines.map Line.text := pieces_of_isLines hlines
  refine ⟨rfl, pairwise_starts text, fun start hstart => ?_, ?_, ?_, ?_, ?_⟩
  · have hbound := boundary_of_mem_starts hstart
    exact ⟨hbound.le_byteSize, hbound⟩
  · rw [hpieces, ← List.flatMap_def, hlines.flatMap_text]
  · intro before piece after hcut hafter
    rw [hpieces] at hcut
    obtain ⟨front, more, rfl, -, hmore⟩ := List.map_eq_append_iff.1 hcut
    obtain ⟨line, back, rfl, rfl, rfl⟩ := List.map_eq_cons_iff.1 hmore
    obtain ⟨hbody, hends⟩ := hlines.ended fun hback => hafter (by rw [hback, List.map_nil])
    rw [List.flatMap_def] at hends
    exact ⟨line.body, line.terminator, rfl, hbody, hends⟩
  · rw [hpieces]
    obtain ⟨front, last, hlast⟩ := (List.eq_nil_or_concat lines).resolve_left hlines.ne_nil
    rw [List.concat_eq_append] at hlast
    subst hlast
    obtain ⟨hbody, hnothing⟩ := hlines.ending
    refine ⟨front.map Line.text, last.text, by simp, ?_⟩
    rwa [Line.text, hnothing, List.append_nil]
  · have hcount := length_breakStops 0 text
    rw [lineCount, ← hcount]
    exact Nat.add_right_comm _ 1 _

/-- A `\r` before `\r\n` ends a line of its own. -/
example : (ofText "a\r\r\nb".toList).pieces "a\r\r\nb".toList =
    ["a\r".toList, "\r\n".toList, "b".toList] := by
  decide

end LineMap

end Rebind.Text
