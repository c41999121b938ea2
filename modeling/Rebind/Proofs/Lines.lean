import Mathlib.Order.Bounds.Defs
import Rebind.Text.Lines
import Rebind.Proofs.Splicing.Stretches

/-!
# Offsets and positions determine each other

The starts of the lines of a text increase and cut no character.  So the search for the last start
up to an offset finds the line of the offset, and the characters between the two are the column:
on offsets that cut no character the position says which offset it is of, and later offsets have
later positions.
-/

namespace Rebind.Text

variable {text : List Char} {offset : Nat}

/-- The offset lies between two characters of the text, or at one of its ends. -/
theorem isBoundary_iff : isBoundary offset text = true ↔ Boundary text offset := by
  induction text generalizing offset with
  | nil =>
    simp only [isBoundary, beq_iff_eq]
    constructor
    · rintro rfl
      exact ⟨[], [], rfl, rfl⟩
    · rintro ⟨front, back, heq, rfl⟩
      rw [(List.append_eq_nil_iff.1 heq.symm).1, byteSize_nil]
  | cons c cs ih =>
    simp only [isBoundary, Bool.or_eq_true, beq_iff_eq, Bool.and_eq_true, decide_eq_true_eq, ih]
    constructor
    · rintro (rfl | ⟨hfits, front, back, rfl, hsize⟩)
      · exact ⟨[], c :: cs, rfl, rfl⟩
      · exact ⟨c :: front, back, rfl, by rw [byteSize_cons]; omega⟩
    · rintro ⟨front, back, heq, rfl⟩
      cases front with
      | nil => exact .inl rfl
      | cons d front =>
        obtain ⟨rfl, rfl⟩ := List.cons.inj heq
        exact .inr ⟨Nat.le_add_right _ _, front, back, rfl, by simp⟩

namespace Boundary

theorem zero (text : List Char) : Boundary text 0 := ⟨[], text, rfl, rfl⟩

theorem byteSize (text : List Char) : Boundary text (byteSize text) :=
  ⟨text, [], (List.append_nil _).symm, rfl⟩

theorem le_byteSize (h : Boundary text offset) : offset ≤ Text.byteSize text := by
  obtain ⟨front, back, rfl, rfl⟩ := h
  rw [byteSize_append]
  exact Nat.le_add_right _ _

end Boundary

/-- A stretch between two parts of a text cuts no character. -/
theorem slice?_append_append (front mid back : List Char) :
    Span.slice? ⟨byteSize front, byteSize front + byteSize mid⟩ (front ++ (mid ++ back)) =
      some mid := by
  have hstart : isBoundary (byteSize front) (front ++ (mid ++ back)) = true :=
    isBoundary_iff.2 ⟨front, mid ++ back, rfl, rfl⟩
  have hstop : isBoundary (byteSize front + byteSize mid) (front ++ (mid ++ back)) = true :=
    isBoundary_iff.2 ⟨front ++ mid, back, by simp, by simp⟩
  simp [Span.slice?, hstart, hstop, slice_append_append]

theorem slice_of_slice? {s : Span} {part : List Char} (h : s.slice? text = some part) :
    s.slice text = part := by
  rw [Span.slice?, Option.ite_none_right_eq_some] at h
  exact Option.some.inj h.2

/-! ## The starts of lines -/

/-- Behind a line break there is a part of the text, and it is not empty. -/
theorem exists_of_mem_breakStops {stop : Nat} (h : stop ∈ breakStops offset text) :
    ∃ front back, text = front ++ back ∧ front ≠ [] ∧ stop = offset + byteSize front := by
  fun_induction breakStops offset text with
  | case1 => nomatch h
  | case2 offset cs ih =>
    rcases List.mem_cons.1 h with rfl | h
    · exact ⟨['\r', '\n'], cs, rfl, by simp, rfl⟩
    · obtain ⟨front, back, rfl, -, rfl⟩ := ih h
      refine ⟨'\r' :: '\n' :: front, back, rfl, by simp, ?_⟩
      have hr : '\r'.utf8Size = 1 := rfl
      have hn : '\n'.utf8Size = 1 := rfl
      simp only [byteSize_cons]
      omega
  | case3 offset c cs hpair next hbreak ih =>
    rcases List.mem_cons.1 h with rfl | h
    · exact ⟨[c], cs, rfl, by simp, by simp [next]⟩
    · obtain ⟨front, back, rfl, -, rfl⟩ := ih h
      exact ⟨c :: front, back, rfl, by simp, by simp [next, Nat.add_assoc]⟩
  | case4 offset c cs hpair next hbreak ih =>
    obtain ⟨front, back, rfl, -, rfl⟩ := ih h
    exact ⟨c :: front, back, rfl, by simp, by simp [next, Nat.add_assoc]⟩

theorem lt_of_mem_breakStops {stop : Nat} (h : stop ∈ breakStops offset text) : offset < stop := by
  obtain ⟨front, back, -, hne, rfl⟩ := exists_of_mem_breakStops h
  have hpos := Snippet.byteSize_pos hne
  omega

theorem pairwise_breakStops (offset : Nat) (text : List Char) :
    (breakStops offset text).Pairwise (· < ·) := by
  fun_induction breakStops offset text with
  | case1 => exact .nil
  | case2 offset cs ih => exact .cons (fun _ h => lt_of_mem_breakStops h) ih
  | case3 offset c cs hpair next hbreak ih => exact .cons (fun _ h => lt_of_mem_breakStops h) ih
  | case4 offset c cs hpair next hbreak ih => exact ih

namespace LineMap

/-- The lines start one behind the other. -/
theorem pairwise_starts (text : List Char) : (ofText text).starts.Pairwise (· < ·) :=
  .cons (fun _ h => lt_of_mem_breakStops h) (pairwise_breakStops 0 text)

/-- No line starts inside a character. -/
theorem boundary_of_mem_starts {start : Nat} (h : start ∈ (ofText text).starts) :
    Boundary text start := by
  rcases List.mem_cons.1 h with rfl | h
  · exact .zero text
  · obtain ⟨front, back, rfl, -, rfl⟩ := exists_of_mem_breakStops h
    exact ⟨front, back, rfl, (Nat.zero_add _).symm⟩

theorem boundary_of_lineStart? {line start : Nat}
    (h : (ofText text).lineStart? line = some start) : Boundary text start :=
  boundary_of_mem_starts (List.mem_of_getElem? h)

/-! ## The line of an offset -/

/-- In an increasing list the entries up to a bound are those at the front. -/
theorem le_iff_lt_length_takeWhile {starts : List Nat} (hstarts : starts.Pairwise (· < ·))
    {i start : Nat} (h : starts[i]? = some start) :
    start ≤ offset ↔ i < (starts.takeWhile (· ≤ offset)).length := by
  induction starts generalizing i with
  | nil => nomatch h
  | cons first starts ih =>
    rw [List.pairwise_cons] at hstarts
    by_cases hfirst : first ≤ offset
    · rw [List.takeWhile_cons_of_pos (by simpa using hfirst), List.length_cons]
      cases i with
      | zero =>
        obtain rfl : first = start := by simpa using h
        simp [hfirst]
      | succ i => rw [ih hstarts.2 h, Nat.succ_lt_succ_iff]
    · rw [List.takeWhile_cons_of_neg (by simpa using hfirst)]
      have hle : first ≤ start := by
        cases i with
        | zero => exact Nat.le_of_eq (by simpa using h)
        | succ i => exact Nat.le_of_lt (hstarts.1 start (List.mem_of_getElem? h))
      simp only [List.length_nil, Nat.not_lt_zero, iff_false]
      omega

/-- The lines that start at or before an offset are those up to its line. -/
theorem start_le_iff {line start : Nat} (h : (ofText text).lineStart? line = some start) :
    start ≤ offset ↔ line ≤ (ofText text).lineOf offset := by
  have hfirst : 0 < ((ofText text).starts.takeWhile (· ≤ offset)).length :=
    (le_iff_lt_length_takeWhile (pairwise_starts text) (i := 0) rfl).1 (Nat.zero_le _)
  rw [le_iff_lt_length_takeWhile (pairwise_starts text) h, lineOf]
  omega

/-- The line of an offset starts at or before it. -/
theorem exists_lineStart (text : List Char) (offset : Nat) :
    ∃ start, (ofText text).lineStart? ((ofText text).lineOf offset) = some start ∧
      start ≤ offset := by
  have hbound : (ofText text).lineOf offset < (ofText text).starts.length := by
    have hle := ((ofText text).starts.takeWhile_sublist (· ≤ offset)).length_le
    have hpos : 0 < (ofText text).starts.length := Nat.succ_pos _
    rw [lineOf]
    omega
  have hstart : (ofText text).lineStart? ((ofText text).lineOf offset) =
      some (ofText text).starts[(ofText text).lineOf offset] := List.getElem?_eq_getElem hbound
  exact ⟨_, hstart, (start_le_iff hstart).2 (Nat.le_refl _)⟩

/-- The line of an offset is the last one that starts at or before it. -/
theorem isGreatest_lineOf (text : List Char) (offset : Nat) :
    IsGreatest {line | ∃ start, (ofText text).lineStart? line = some start ∧ start ≤ offset}
      ((ofText text).lineOf offset) :=
  ⟨exists_lineStart text offset, fun _ ⟨_, hstart, hle⟩ => (start_le_iff hstart).1 hle⟩

/-! ## Positions -/

/-- Counted from the start of the line of the position, its characters end at the offset. -/
def Reaches (map : LineMap) (text : List Char) (p : Position) (offset : Nat) : Prop :=
  ∃ front mid back, text = front ++ (mid ++ back) ∧
    map.lineStart? p.line = some (byteSize front) ∧ mid.length = p.character ∧
    byteSize front + byteSize mid = offset

/-- The characters up to an offset are counted from the start of its line. -/
theorem reaches_position (h : Boundary text offset) :
    (ofText text).Reaches text ((ofText text).position offset text) offset := by
  obtain ⟨start, hstart, hle⟩ := exists_lineStart text offset
  have hbound := boundary_of_lineStart? hstart
  have hposition : (ofText text).position offset text =
      ⟨(ofText text).lineOf offset, (Span.slice ⟨start, offset⟩ text).length⟩ := by
    simp only [position, hstart, Option.getD_some, Nat.min_eq_left h.le_byteSize,
      Nat.min_eq_left hle, isBoundary_iff.2 hbound, isBoundary_iff.2 h, Bool.and_self, if_true]
  rw [hposition]
  obtain ⟨front, rest, rfl, rfl⟩ := hbound
  obtain ⟨mid, back, rfl, rfl⟩ := h.split_rest hle
  exact ⟨front, mid, back, rfl, hstart, by rw [slice_append_append], rfl⟩

/-- On one line, more characters reach at least as far. -/
theorem Reaches.le {map : LineMap} {p q : Position} {low high : Nat}
    (hlow : map.Reaches text p low) (hhigh : map.Reaches text q high) (hline : p.line = q.line)
    (hle : p.character ≤ q.character) : low ≤ high := by
  obtain ⟨front, mid, back, rfl, hstart, hlength, rfl⟩ := hlow
  obtain ⟨front', mid', back', heq, hstart', hlength', rfl⟩ := hhigh
  rw [hline] at hstart
  have hsize : byteSize front = byteSize front' := Option.some.inj (hstart.symm.trans hstart')
  have hrest := congrArg (dropBytes (byteSize front)) heq
  rw [dropBytes_append, hsize, dropBytes_append] at hrest
  -- Both go through the same characters, the second at least as far.
  have hpart : mid <+: mid' :=
    List.prefix_of_prefix_length_le ⟨back, hrest⟩ ⟨back', rfl⟩ (by omega)
  obtain ⟨more, rfl⟩ := hpart
  rw [hsize, byteSize_append]
  omega

/-- A position is reached by one offset only. -/
theorem Reaches.unique {map : LineMap} {p : Position} {low high : Nat}
    (hlow : map.Reaches text p low) (hhigh : map.Reaches text p high) : low = high :=
  Nat.le_antisymm (hlow.le hhigh rfl (Nat.le_refl _)) (hhigh.le hlow rfl (Nat.le_refl _))

end LineMap

/-- In the order of reading: an earlier line, or an earlier column of the same line. -/
def Position.Before (p q : Position) : Prop :=
  p.line < q.line ∨ p.line = q.line ∧ p.character < q.character

namespace Position.Before

theorem irrefl {p : Position} (h : p.Before p) : False := by
  simp [Before] at h

theorem asymm {p q : Position} (h : p.Before q) (h' : q.Before p) : False := by
  rw [Before] at h h'
  omega

end Position.Before

namespace LineMap

/-- Later offsets have later positions. -/
theorem before_of_lt {low high : Nat} (hlow : Boundary text low) (hhigh : Boundary text high)
    (hlt : low < high) :
    ((ofText text).position low text).Before ((ofText text).position high text) := by
  obtain ⟨start, hstart, hle⟩ := exists_lineStart text low
  have hline : (ofText text).lineOf low ≤ (ofText text).lineOf high :=
    (start_le_iff hstart).1 (Nat.le_trans hle (Nat.le_of_lt hlt))
  rcases Nat.lt_or_eq_of_le hline with hline | hline
  · exact .inl hline
  · refine .inr ⟨hline, Nat.lt_of_not_le fun hcharacter => ?_⟩
    have hback := (reaches_position hhigh).le (reaches_position hlow) hline.symm hcharacter
    omega

/-- Past the end of the text every offset is taken for the end. -/
theorem position_past_end (h : byteSize text ≤ offset) :
    (ofText text).position offset text = (ofText text).position (byteSize text) text := by
  obtain ⟨start, hstart, hle⟩ := exists_lineStart text offset
  have hbound := (boundary_of_lineStart? hstart).le_byteSize
  have hline : (ofText text).lineOf offset = (ofText text).lineOf (byteSize text) :=
    Nat.le_antisymm ((start_le_iff hstart).1 hbound) <| by
      obtain ⟨start', hstart', hle'⟩ := exists_lineStart text (byteSize text)
      exact (start_le_iff hstart').1 (Nat.le_trans hle' h)
  simp only [position, hline, Nat.min_eq_right h, Nat.min_self]

/-- **The position of an offset and the offset determine each other.**  For every offset that cuts
no character, the line is the last one that starts at or before it, and as many characters as the
column says lead from the start of that line to the offset.  So no two such offsets share a
position, and the later one has the later position.  Past the end every offset has the position of
the end. -/
theorem position_determines_offset (text : List Char) :
    (∀ offset, Boundary text offset →
      IsGreatest {line | ∃ start, (ofText text).lineStart? line = some start ∧ start ≤ offset}
          ((ofText text).position offset text).line ∧
        (ofText text).Reaches text ((ofText text).position offset text) offset) ∧
      (∀ low high, Boundary text low → Boundary text high →
        ((ofText text).position low text = (ofText text).position high text → low = high) ∧
          (low < high ↔
            ((ofText text).position low text).Before ((ofText text).position high text))) ∧
      ∀ offset, byteSize text ≤ offset →
        (ofText text).position offset text = (ofText text).position (byteSize text) text := by
  refine ⟨fun offset h => ⟨isGreatest_lineOf text offset, reaches_position h⟩,
    fun low high hlow hhigh => ⟨fun heq => ?_, before_of_lt hlow hhigh, fun hbefore => ?_⟩,
    fun offset => position_past_end⟩
  · have hreaches := reaches_position hlow
    rw [heq] at hreaches
    exact hreaches.unique (reaches_position hhigh)
  · refine Nat.lt_of_not_le fun hle => ?_
    rcases Nat.lt_or_eq_of_le hle with hlt | rfl
    · exact (before_of_lt hhigh hlow hlt).asymm hbefore
    · exact hbefore.irrefl

/-- Between `\r` and `\n` the offset is two characters into the line that the pair ends, and the
end of the text stands one character into the next. -/
theorem position_between_return_and_newline :
    Boundary ['a', '\r', '\n', 'é'] 2 ∧
      (ofText ['a', '\r', '\n', 'é']).position 2 ['a', '\r', '\n', 'é'] = ⟨0, 2⟩ ∧
      (ofText ['a', '\r', '\n', 'é']).Reaches ['a', '\r', '\n', 'é'] ⟨0, 2⟩ 2 ∧
      (ofText ['a', '\r', '\n', 'é']).position 9 ['a', '\r', '\n', 'é'] = ⟨1, 1⟩ := by
  have hbound : Boundary ['a', '\r', '\n', 'é'] 2 := isBoundary_iff.1 (by decide)
  have hposition :
      (ofText ['a', '\r', '\n', 'é']).position 2 ['a', '\r', '\n', 'é'] = ⟨0, 2⟩ := by decide
  refine ⟨hbound, hposition, ?_, ?_⟩
  · rw [← hposition]
    exact ((position_determines_offset _).1 2 hbound).2
  · rw [(position_determines_offset _).2.2 9 (by decide)]
    decide

end LineMap

end Rebind.Text
