import Rebind.Proofs.Reading.Token

/-!
# Reading a beginning again

A reader of characters that stops somewhere in a text reads the same beginning of another text, if
that one goes on in a way that the reader stops at too.  Only the next character matters, and
seldom more than that: `Alike rest rest'` says that two texts go on the same, up to where one of
them is at a name that another name stands for, or the other one is at a mark behind which a copy
ends.
-/

namespace Rebind.Snippet

open Rebind.Text (byteSize byteSize_nil byteSize_cons byteSize_append addCode areCharacters)
open Rebind.Unicode (isNameStart isNamePart isAsciiDigit isAsciiLetter)

variable {offset stop : Nat} {cs rest read : List Char}

/-- The marks behind which a copied text ends. -/
def endMarks : List Char := [',', ')', ']', '}', ':', ' ']

/-- A text goes on as another one does, up to where a name stands for a name, or a copy ends. -/
inductive Alike : List Char → List Char → Prop
  | ended {c : Char} {rest rest' : List Char} (hc : c ∈ endMarks)
      (hdigit : rest.head?.any isAsciiDigit = false) : Alike rest (c :: rest')
  | renamed {c c' : Char} {rest rest' : List Char} (hc : isNameStart c = true)
      (hc' : isNameStart c' = true) : Alike (c :: rest) (c' :: rest')
  | cons (c : Char) {rest rest' : List Char} : Alike rest rest' → Alike (c :: rest) (c :: rest')

theorem isNamePart_of_isNameStart {c : Char} (h : isNameStart c = true) : isNamePart c = true := by
  simp [isNamePart, h]

theorem isNamePart_of_isAsciiDigit {c : Char} (h : isAsciiDigit c = true) :
    isNamePart c = true := by
  simp [isNamePart, h]

theorem isAsciiDigit_of_isNameStart {c : Char} (h : isNameStart c = true) :
    isAsciiDigit c = false := by
  rw [← Bool.not_eq_true]
  intro hdigit
  simp [isNameStart, isAsciiLetter, isAsciiDigit, char_le_iff, char_eq_iff] at h hdigit
  omega

theorem isNamePart_of_isAsciiLetter {c : Char} (h : isAsciiLetter c = true) :
    isNamePart c = true :=
  isNamePart_of_isNameStart (by simp [isNameStart, h])

theorem isNamePart_of_isHexDigit {c : Char} (h : isHexDigit c = true) : isNamePart c = true := by
  have hletter {low high : Char} (hlow : 'a' ≤ low ∧ high ≤ 'z' ∨ 'A' ≤ low ∧ high ≤ 'Z')
      (hc : (decide (low ≤ c) && decide (c ≤ high)) = true) : isNamePart c = true := by
    refine isNamePart_of_isAsciiLetter ?_
    simp only [Bool.and_eq_true, decide_eq_true_eq] at hc
    simp only [isAsciiLetter, Bool.or_eq_true, Bool.and_eq_true, decide_eq_true_eq]
    exact hlow.imp (fun h => ⟨Char.le_trans h.1 hc.1, Char.le_trans hc.2 h.2⟩)
      fun h => ⟨Char.le_trans h.1 hc.1, Char.le_trans hc.2 h.2⟩
  unfold isHexDigit hexDigit? at h
  split at h
  · next hc => exact isNamePart_of_isAsciiDigit hc
  split at h
  · next hc => exact hletter (by decide) hc
  split at h
  · next hc => exact hletter (by decide) hc
  · cases h

/-- No name starts or goes on with a mark behind which a copied text ends. -/
theorem isNamePart_of_mem_endMarks {c : Char} (h : c ∈ endMarks) : isNamePart c = false := by
  have hall : endMarks.all (fun c => isNamePart c == false) = true := by decide
  exact beq_iff_eq.1 (List.all_eq_true.1 hall c h)

/-- The character that a text goes on with is no part of a name. -/
def Severed (cs : List Char) : Prop :=
  ∀ c, cs.head? = some c → isNamePart c = false ∧ c ≠ '\\'

theorem severed_nil : Severed [] := by
  rintro c ⟨⟩

/-- Behind a name that is read whole no part of a name comes, wherever it is copied to. -/
theorem Alike.severed {rest rest' : List Char} (h : Alike rest rest') (hrest : Severed rest) :
    Severed rest' := by
  cases h with
  | ended hc hdigit =>
    rintro c' hc'
    cases hc'
    refine ⟨isNamePart_of_mem_endMarks hc, ?_⟩
    rintro rfl
    exact absurd hc (by decide)
  | renamed hc hc' =>
    have := (hrest _ rfl).1
    rw [isNamePart_of_isNameStart hc] at this
    cases this
  | cons c h =>
    rintro c' hc'
    cases hc'
    exact hrest _ rfl

/-! ## Names -/

theorem codePointEscape?_again {value width : Nat}
    (h : codePointEscape? cs = some (value, width, rest)) :
    ∃ read, cs = read ++ rest ∧ byteSize read = width ∧
      ∀ rest', codePointEscape? (read ++ rest') = some (value, width, rest') := by
  have hsize := codePointEscape?_passes h
  obtain ⟨read, hread, hcs, hwidth⟩ := hsize
  rw [Nat.zero_add] at hwidth
  refine ⟨read, hcs, hwidth.symm, fun rest' => ?_⟩
  unfold codePointEscape? at h
  split at h
  · next cs =>
    dsimp only at h
    split at h
    · next tail hdrop =>
      split at h
      · cases h
      · next hvalue =>
        cases h
        have hcs' : 'u' :: '{' :: cs =
            ('u' :: '{' :: (cs.takeWhile isHexDigit ++ ['}'])) ++ rest := by
          simp [← hdrop, List.takeWhile_append_dropWhile]
        obtain rfl := List.append_cancel_right (hcs.symm.trans hcs')
        have hdigits : ∀ c ∈ cs.takeWhile isHexDigit, isHexDigit c = true :=
          fun c hc => List.all_eq_true.1 List.all_takeWhile c hc
        have hclose : isHexDigit '}' = false := by decide
        simp only [codePointEscape?, List.cons_append, List.append_assoc, List.nil_append,
          List.takeWhile_append_of_pos hdigits, List.dropWhile_append_of_pos hdigits,
          List.takeWhile_cons, List.dropWhile_cons, hclose, List.append_nil, Bool.false_eq_true,
          ↓reduceIte]
        rw [if_neg hvalue]
    · cases h
  · next a b c d tail hbrace =>
    split at h
    · next hdigits =>
      cases h
      obtain rfl : ['u', a, b, c, d] = read := List.append_cancel_right (by simpa using hcs)
      have hne : a ≠ '{' := by
        rintro rfl
        exact absurd hdigits (by simp [show isHexDigit '{' = false by decide])
      simp only [List.cons_append, List.nil_append]
      unfold codePointEscape?
      split
      · next heq => grind
      · next heq => grind
      · next h1 h2 => grind
    · cases h
  · cases h

/-- What comes behind a name ends it. -/
theorem scanName_severed (hrest : Severed rest) (name : List Char) (escaped : Bool) :
    scanName offset name escaped rest =
      some (String.ofList name.reverse, escaped, offset, rest) := by
  cases rest with
  | nil => rw [scanName]
  | cons c rest =>
    obtain ⟨hpart, hslash⟩ := hrest c rfl
    have hstart : isNameStart c = false := by
      rw [← Bool.not_eq_true]
      intro hstart
      rw [isNamePart_of_isNameStart hstart] at hpart
      cases hpart
    rw [scanName]
    · cases hname : name.isEmpty <;> simp [hpart, hstart]
    · exact hslash

/-- A name that is not empty is read again before any text that ends it. -/
theorem scanName_again {name : List Char} {escaped isEscaped : Bool} {text : String}
    (h : scanName offset name escaped cs = some (text, isEscaped, stop, rest)) (hne : text ≠ "") :
    Severed rest ∧ ∃ read, cs = read ++ rest ∧ stop = offset + byteSize read ∧
      ∀ offset' rest', Severed rest' → scanName offset' name escaped (read ++ rest') =
        some (text, isEscaped, offset' + byteSize read, rest') := by
  fun_induction scanName offset name escaped cs
  case case1 =>
    cases h
    exact ⟨severed_nil, [], rfl, rfl, fun offset' rest' hrest' => scanName_severed hrest' _ _⟩
  case case6 offset name escaped fits c more hslash hfits =>
    cases h
    refine ⟨?_, [], rfl, rfl, fun offset' rest' hrest' => scanName_severed hrest' _ _⟩
    rintro d hd
    cases hd
    refine ⟨?_, hslash⟩
    have hname : name ≠ [] := by
      rintro rfl
      exact hne rfl
    simpa [fits, hname] using hfits
  case case2 offset name escaped fits more value width rest hescape c hc ih =>
    obtain ⟨hsevered, read, rfl, rfl, hagain⟩ := ih h
    obtain ⟨escape, rfl, rfl, hescape'⟩ := codePointEscape?_again hescape
    refine ⟨hsevered, '\\' :: (escape ++ read), by simp, ?_, fun offset' rest' hrest' => ?_⟩
    · simp [show '\\'.utf8Size = 1 by decide, Nat.add_assoc]
    · rw [List.cons_append, List.append_assoc, scanName]
      split
      · next heq =>
        cases (hescape' _).symm.trans heq
        refine (if_pos hc).trans ?_
        rw [hagain _ _ hrest', byteSize_cons, byteSize_append,
          show '\\'.utf8Size = 1 by decide]
        simp only [Nat.add_assoc]
      · next heq => cases (hescape' _).symm.trans heq
  case case5 offset name escaped fits c more hslash hfits ih =>
    obtain ⟨hsevered, read, rfl, rfl, hagain⟩ := ih h
    refine ⟨hsevered, c :: read, rfl, by simp [Nat.add_assoc], fun offset' rest' hrest' => ?_⟩
    rw [List.cons_append, scanName]
    · refine (if_pos hfits).trans ?_
      rw [hagain _ _ hrest', byteSize_cons, Nat.add_assoc]
    · exact hslash
  case case3 | case4 => cases h

/-! ## Punctuators -/

/-- Behind the first character of a punctuator no name starts, and nothing copied ends. -/
theorem marks_of_mem_punctuators {mark : String} (h : mark ∈ punctuators) :
    ∀ c ∈ mark.toList.tail, isNameStart c = false ∧ c ∉ endMarks := by
  have hall : punctuators.all (fun mark => mark.toList.tail.all fun c =>
      isNameStart c == false && !endMarks.contains c) = true := by decide
  intro c hc
  have hmark := List.all_eq_true.1 (List.all_eq_true.1 hall mark h) c hc
  simpa using hmark

theorem Alike.append {rest rest' : List Char} (h : Alike rest rest') (front : List Char) :
    Alike (front ++ rest) (front ++ rest') := by
  induction front with
  | nil => exact h
  | cons c _ ih => exact ih.cons c

/-- Characters that come next where a text is copied to come next where it was read. -/
theorem Alike.split {rest rest' : List Char} (h : Alike rest rest') {front : List Char}
    (hfront : ∀ c ∈ front, isNameStart c = false ∧ c ∉ endMarks) (hfits : front <+: rest') :
    ∃ tail tail', rest = front ++ tail ∧ rest' = front ++ tail' ∧ Alike tail tail' := by
  induction front generalizing rest rest' with
  | nil => exact ⟨rest, rest', rfl, rfl, h⟩
  | cons c front ih =>
    obtain ⟨hc, hfront⟩ := List.forall_mem_cons.1 hfront
    cases h with
    | ended hend =>
      obtain ⟨rfl, -⟩ := List.cons_prefix_cons.1 hfits
      exact absurd hend hc.2
    | renamed _ hstart =>
      obtain ⟨rfl, -⟩ := List.cons_prefix_cons.1 hfits
      rw [hc.1] at hstart
      cases hstart
    | cons d h =>
      obtain ⟨rfl, hmore⟩ := List.cons_prefix_cons.1 hfits
      obtain ⟨tail, tail', rfl, rfl, htail⟩ := ih h hfront hmore
      exact ⟨tail, tail', rfl, rfl, htail⟩

/-- Whether a digit comes next is the same where a text is copied to. -/
theorem Alike.any_isAsciiDigit {rest rest' : List Char} (h : Alike rest rest') :
    rest'.head?.any isAsciiDigit = rest.head?.any isAsciiDigit := by
  cases h with
  | ended hc hdigit =>
    rw [hdigit]
    have hall : endMarks.all (fun c => isAsciiDigit c == false) = true := by decide
    simpa using beq_iff_eq.1 (List.all_eq_true.1 hall _ hc)
  | renamed hc hc' => simp [isAsciiDigit_of_isNameStart hc, isAsciiDigit_of_isNameStart hc']
  | cons c => rfl

/-- Whether a punctuator stands at the head of a text.  The point of `?.` is told from that of a
number by the character behind it. -/
def punctuatorFits (cs : List Char) (mark : String) : Bool :=
  mark.toList.isPrefixOf cs && (mark != "?." || !((cs.drop 2).head?.any isAsciiDigit))

theorem punctuator?_eq (cs : List Char) :
    punctuator? cs = punctuators.find? (punctuatorFits cs) := rfl

theorem Alike.punctuatorFits {rest rest' : List Char} (h : Alike rest rest') (mark : String) :
    punctuatorFits (mark.toList ++ rest) mark = punctuatorFits (mark.toList ++ rest') mark := by
  have hfits (rest : List Char) : mark.toList.isPrefixOf (mark.toList ++ rest) = true :=
    List.isPrefixOf_iff_prefix.2 (List.prefix_append _ _)
  rw [Snippet.punctuatorFits, Snippet.punctuatorFits, hfits, hfits]
  by_cases hmark : mark = "?."
  · subst hmark
    simp [h.any_isAsciiDigit]
  · rw [bne_iff_ne.2 hmark, Bool.true_or, Bool.true_or]

/-- A punctuator is read again if the text goes on alike. -/
theorem punctuator?_again {mark : String} (h : punctuator? cs = some mark) :
    ∃ rest, cs = mark.toList ++ rest ∧
      ∀ rest', Alike rest rest' → punctuator? (mark.toList ++ rest') = some mark := by
  rw [punctuator?_eq] at h
  obtain ⟨hfits, before, after, hlist, hbefore⟩ := List.find?_eq_some_iff_append.1 h
  obtain ⟨rest, rfl⟩ := List.isPrefixOf_iff_prefix.1 (Bool.and_eq_true_iff.1 hfits).1
  refine ⟨rest, rfl, fun rest' halike => ?_⟩
  have hfits' : punctuatorFits (mark.toList ++ rest') mark = true := by
    rw [← halike.punctuatorFits]
    exact hfits
  rw [punctuator?_eq]
  refine List.find?_eq_some_iff_append.2 ⟨hfits', before, after, hlist, fun other hother => ?_⟩
  have hnot := hbefore other hother
  rw [Bool.not_eq_true', ← Bool.not_eq_true] at hnot ⊢
  intro hother'
  -- Another punctuator that is read there is one that could be read here.
  obtain ⟨tail, tail', hcs, hcs', halike'⟩ : ∃ tail tail',
      mark.toList ++ rest = other.toList ++ tail ∧ mark.toList ++ rest' = other.toList ++ tail' ∧
        Alike tail tail' := by
    have hfront := List.isPrefixOf_iff_prefix.1 (Bool.and_eq_true_iff.1 hother').1
    obtain ⟨more, hmore⟩ | ⟨more, hmore⟩ :=
      List.prefix_or_prefix_of_prefix hfront (List.prefix_append _ _)
    · rw [← hmore]
      exact ⟨more ++ rest, more ++ rest', List.append_assoc _ _ _, List.append_assoc _ _ _,
        halike.append more⟩
    · have hmem : other ∈ punctuators := hlist ▸ List.mem_append_left _ hother
      have hmark : mark ∈ punctuators := List.mem_of_find?_eq_some h
      have hmarks : ∀ c ∈ more, isNameStart c = false ∧ c ∉ endMarks := by
        intro c hc
        refine marks_of_mem_punctuators hmem c ?_
        obtain ⟨d, front, hchars⟩ :=
          List.exists_cons_of_ne_nil (plain_of_mem_punctuators hmark).2
        rw [← hmore, hchars]
        exact List.mem_append_right _ hc
      rw [← hmore] at hfront ⊢
      obtain ⟨tail, tail', rfl, rfl, htail⟩ :=
        halike.split hmarks ((List.prefix_append_right_inj _).1 hfront)
      exact ⟨tail, tail', (List.append_assoc _ _ _).symm, (List.append_assoc _ _ _).symm, htail⟩
  rw [hcs'] at hother'
  rw [hcs, halike'.punctuatorFits] at hnot
  exact hnot hother'

end Rebind.Snippet
