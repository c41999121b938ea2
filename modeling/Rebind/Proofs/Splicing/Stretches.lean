import Rebind.Proofs.Reading.Nested

/-!
# Stretches of a text

Between two offsets that cut no character, `Span.slice` gives just the characters in between, and a
stretch is cut in two at any such offset (`slice_append`).  A stretch that starts or stops at a
token starts or stops with a character that is not blank.
-/

namespace Rebind.Text

variable {text front rest : List Char} {low middle high : Nat}

theorem dropBytes_append (front back : List Char) :
    dropBytes (byteSize front) (front ++ back) = back := by
  induction front with
  | nil => rw [byteSize_nil, List.nil_append, dropBytes]
  | cons c front ih =>
    obtain ⟨n, hn⟩ := Nat.exists_eq_succ_of_ne_zero (Nat.ne_of_gt c.utf8Size_pos)
    have hsize : byteSize (c :: front) = n + byteSize front + 1 := by
      rw [byteSize_cons, hn]
      omega
    have hrest : n + byteSize front + 1 - c.utf8Size = byteSize front := by omega
    rw [hsize, List.cons_append, dropBytes, hrest, ih]

theorem takeBytes_append (front back : List Char) :
    takeBytes (byteSize front) (front ++ back) = front := by
  induction front with
  | nil =>
    cases back with
    | nil => rfl
    | cons c back =>
      have hsize := c.utf8Size_pos
      exact if_neg (by rw [byteSize_nil]; omega)
  | cons c front ih =>
    have hfits : c.utf8Size ≤ byteSize (c :: front) := Nat.le_add_right _ _
    have hrest : byteSize (c :: front) - c.utf8Size = byteSize front := by
      rw [byteSize_cons, Nat.add_sub_cancel_left]
    rw [List.cons_append, takeBytes, if_pos hfits, hrest, ih]

theorem byteSize_takeBytes_le (n : Nat) (cs : List Char) : byteSize (takeBytes n cs) ≤ n := by
  fun_induction takeBytes n cs with
  | case1 => exact Nat.zero_le _
  | case2 n c cs hfits ih =>
    rw [byteSize_cons]
    omega
  | case3 => exact Nat.zero_le _

theorem slice_append_append (front mid back : List Char) :
    Span.slice ⟨byteSize front, byteSize front + byteSize mid⟩ (front ++ (mid ++ back)) = mid := by
  rw [Span.slice, dropBytes_append]
  dsimp only
  rw [Nat.add_sub_cancel_left, takeBytes_append]

theorem slice_of_le (h : high ≤ low) (text : List Char) : Span.slice ⟨low, high⟩ text = [] := by
  rw [Span.slice]
  dsimp only
  rw [Nat.sub_eq_zero_of_le h]
  cases dropBytes low text with
  | nil => rfl
  | cons c cs =>
    have hpos := c.utf8Size_pos
    exact if_neg (by omega)

/-- An offset that cuts no character of the text. -/
def Boundary (text : List Char) (offset : Nat) : Prop :=
  ∃ front back, text = front ++ back ∧ byteSize front = offset

namespace Boundary

/-- What is left past an offset is cut in two at a later one. -/
theorem split_rest (hhigh : Boundary (front ++ rest) high) (hle : byteSize front ≤ high) :
    ∃ mid back, rest = mid ++ back ∧ byteSize front + byteSize mid = high := by
  obtain ⟨longer, back, heq, rfl⟩ := hhigh
  obtain ⟨mid, rfl, rfl⟩ | ⟨mid, rfl, rfl⟩ := List.append_eq_append_iff.1 heq
  · exact ⟨mid, back, rfl, (byteSize_append _ _).symm⟩
  · rw [byteSize_append] at hle
    cases mid with
    | nil => exact ⟨[], rest, rfl, by simp⟩
    | cons c mid =>
      have hpos := Snippet.byteSize_pos (List.cons_ne_nil c mid)
      omega

theorem byteSize_slice (hlow : Boundary text low) (hhigh : Boundary text high)
    (hle : low ≤ high) : low + byteSize (Span.slice ⟨low, high⟩ text) = high := by
  obtain ⟨front, rest, rfl, rfl⟩ := hlow
  obtain ⟨mid, back, rfl, rfl⟩ := hhigh.split_rest hle
  rw [slice_append_append]

/-- A stretch is cut in two. -/
theorem slice_append (hlow : Boundary text low) (hmiddle : Boundary text middle)
    (hhigh : Boundary text high) (hle : low ≤ middle) (hle' : middle ≤ high) :
    Span.slice ⟨low, middle⟩ text ++ Span.slice ⟨middle, high⟩ text =
      Span.slice ⟨low, high⟩ text := by
  obtain ⟨front, rest, rfl, rfl⟩ := hlow
  obtain ⟨first, rest, rfl, rfl⟩ := hmiddle.split_rest hle
  rw [← byteSize_append] at hle'
  rw [← List.append_assoc] at hhigh
  obtain ⟨second, back, rfl, rfl⟩ := hhigh.split_rest hle'
  have hfirst := slice_append_append front first (second ++ back)
  have hsecond := slice_append_append (front ++ first) second back
  have hwhole := slice_append_append front (first ++ second) back
  simp only [byteSize_append, List.append_assoc, Nat.add_assoc] at hfirst hsecond hwhole ⊢
  rw [hfirst, hsecond, hwhole]

end Boundary

end Rebind.Text

namespace Rebind.Snippet

open Rebind.Text

variable {text : List Char} {low high : Nat}

theorem StartsAt.boundary (h : StartsAt (byteSize text) text low) : Boundary text low := by
  obtain ⟨c, cs, ⟨front, rfl⟩, hlimit, -⟩ := h
  rw [byteSize_append] at hlimit
  exact ⟨front, c :: cs, rfl, by omega⟩

theorem StopsAt.boundary (h : StopsAt (byteSize text) text high) : Boundary text high := by
  obtain ⟨c, cs, ⟨front, rfl⟩, hlimit, -⟩ := h
  rw [byteSize_append, byteSize_cons] at hlimit
  exact ⟨front ++ [c], cs, by simp, by simp; omega⟩

/-- A stretch from a token on starts with a character that is not blank. -/
theorem StartsAt.head_slice (h : StartsAt (byteSize text) text low) (hhigh : Boundary text high)
    (hlt : low < high) :
    ∃ c, (Span.slice ⟨low, high⟩ text).head? = some c ∧ isBlank c = false := by
  obtain ⟨c, cs, ⟨front, rfl⟩, hlimit, hc⟩ := h
  have hlow : byteSize front = low := by
    rw [byteSize_append] at hlimit
    omega
  subst hlow
  obtain ⟨mid, back, hrest, rfl⟩ := hhigh.split_rest (Nat.le_of_lt hlt)
  rw [hrest, slice_append_append]
  cases mid with
  | nil => simp at hlt
  | cons c' mid =>
    obtain ⟨rfl, -⟩ := List.cons.inj hrest
    exact ⟨c, rfl, hc⟩

/-- A stretch up to the end of a token ends with a character that is not blank. -/
theorem StopsAt.last_slice (h : StopsAt (byteSize text) text high) (hlow : Boundary text low)
    (hlt : low < high) :
    ∃ c, (Span.slice ⟨low, high⟩ text).getLast? = some c ∧ isBlank c = false := by
  have hhigh := h.boundary
  obtain ⟨c, cs, ⟨front, rfl⟩, hlimit, hc⟩ := h
  obtain ⟨before, rest, heq, rfl⟩ := hlow
  rw [heq] at hhigh
  obtain ⟨mid, back, rfl, rfl⟩ := hhigh.split_rest (Nat.le_of_lt hlt)
  rw [heq, slice_append_append]
  refine ⟨c, ?_, hc⟩
  -- Both ways to cut the text reach as far.
  have hsplit : front ++ [c] ++ cs = before ++ mid ++ back := by simpa using heq
  have hsize : byteSize (front ++ [c]) = byteSize (before ++ mid) := by
    simp only [byteSize_append, byteSize_cons, byteSize_nil] at hlimit ⊢
    omega
  have hends : front ++ [c] = before ++ mid := by
    rw [← takeBytes_append (front ++ [c]) cs, hsplit, hsize, takeBytes_append]
  have hlast := congrArg List.getLast? hends
  rw [List.getLast?_concat, List.getLast?_append] at hlast
  cases hmid : mid.getLast? with
  | none => simp [List.getLast?_eq_none_iff.1 hmid] at hlt
  | some last =>
    rw [hmid, Option.some_or] at hlast
    exact hlast.symm

end Rebind.Snippet
