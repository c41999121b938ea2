import Rebind.Proofs.Reading.Literals

/-!
# Where tokens stand

A token starts where the text before it stops or later, it takes at least one character unless the
text is at its end, and it neither starts nor ends with a blank (`Lexeme.Stands`).
-/

namespace Rebind.Snippet

open Rebind.Text (byteSize byteSize_nil byteSize_cons byteSize_append isBlank)
open Rebind.Unicode (isNameStart isNamePart isAsciiDigit)

variable {offset stop : Nat} {cs mid rest read : List Char}

theorem exists_ok_of_bind {ε α β : Type} {x : Except ε α} {f : α → Except ε β} {b : β}
    (h : x >>= f = .ok b) : ∃ a, x = .ok a ∧ f a = .ok b := by
  cases x with
  | error e => cases h
  | ok a => exact ⟨a, rfl, h⟩

/-! ## Blanks -/

/-- A gap with the character that its reader has not counted. -/
def Gap.text (gap : Gap) (cs : List Char) : List Char :=
  match gap with
  | .slash => '/' :: cs
  | _ => cs

theorem skipGap_passes {gap : Gap} {broken : Bool} {answer : Nat × Bool × List Char}
    (h : skipGap gap offset broken cs = .ok answer) :
    Passes Whatever offset (gap.text cs) answer.1 answer.2.2 := by
  have hslash : '/'.utf8Size = 1 := by decide
  have hstar : '*'.utf8Size = 1 := by decide
  fun_induction skipGap gap offset broken cs
  -- It stops with a fault, or where it is, or goes on past a character.
  case case1 => cases h
  case case3 gap _ _ _ _ =>
    cases h
    cases gap with
    | slash => contradiction
    | _ => exact .refl
  case case2 | case7 | case10 =>
    cases h
    exact .refl
  case case4 ih | case5 ih | case11 ih | case12 ih | case14 ih => exact (ih h).past rfl
  case case6 hc ih =>
    rw [beq_iff_eq] at hc
    exact hc ▸ ih h
  case case8 hc ih =>
    obtain rfl := beq_iff_eq.1 hc
    exact Passes.past hslash (Passes.past hslash (ih h))
  case case9 hc ih =>
    obtain rfl := beq_iff_eq.1 hc
    exact Passes.past hslash (Passes.past hstar (ih h))
  case case13 hc ih =>
    obtain rfl := beq_iff_eq.1 (Bool.and_eq_true_iff.1 hc).2
    exact (ih h).past hslash

/-! ## Names -/

theorem codePointEscape?_passes {value width : Nat}
    (h : codePointEscape? cs = some (value, width, rest)) : Passes Quiet 0 cs width rest := by
  have hquiet {c : Char} (hlow : '!' ≤ c) (hhigh : c ≤ '~')
      (hother : isQuote c = false ∧ c ≠ '\\') : IsQuiet c :=
    ⟨isPlain_of_le hlow hhigh, hother⟩
  have hu : IsQuiet 'u' := hquiet (by decide) (by decide) (by decide)
  unfold codePointEscape? at h
  split at h
  · next cs =>
    dsimp only at h
    split at h
    · next tail hdrop =>
      split at h
      · cases h
      · cases h
        have hopen : IsQuiet '\x7b' := hquiet (by decide) (by decide) (by decide)
        have hclose : IsQuiet '\x7d' := hquiet (by decide) (by decide) (by decide)
        have hdigits : Quiet (cs.takeWhile isHexDigit) :=
          fun c hc => isQuiet_of_isHexDigit (List.all_eq_true.1 List.all_takeWhile c hc)
        have hread : Quiet (['u', '\x7b'] ++ cs.takeWhile isHexDigit ++ ['\x7d']) := by
          simpa [Quiet, hu, hopen, hclose, or_imp, forall_and] using hdigits
        refine ⟨_, hread, ?_, ?_⟩
        · simp only [List.append_assoc, List.cons_append, List.nil_append, ← hdrop,
            List.takeWhile_append_dropWhile]
        · rw [hread.plain.byteSize_eq]
          simp only [List.length_append, List.length_cons, List.length_nil]
          omega
    · cases h
  · next a b c d tail _ =>
    split at h
    · next hdigits =>
      cases h
      have hread : Quiet ['u', a, b, c, d] :=
        List.forall_mem_cons.2 ⟨hu, fun c hc =>
          isQuiet_of_isHexDigit (List.all_eq_true.1 hdigits c hc)⟩
      exact ⟨_, hread, rfl, by rw [hread.plain.byteSize_eq]; rfl⟩
    · cases h
  · cases h

theorem scanName_passes {name : List Char} {escaped isEscaped : Bool} {text : String}
    (h : scanName offset name escaped cs = some (text, isEscaped, stop, rest)) :
    Passes Shown offset cs stop rest := by
  have hnil : Shown [] := List.forall_mem_nil _
  have hslash : IsPlain '\\' := isPlain_of_le (by decide) (by decide)
  fun_induction scanName offset name escaped cs
  case case1 | case6 =>
    cases h
    exact ⟨[], hnil, rfl, rfl⟩
  case case2 hescape _ _ ih =>
    have hread := ((codePointEscape?_passes hescape).shift _).trans (ih h)
      fun front back hfront hback => hfront.plain.shown.append hback
    exact hread.cons hslash.1 fun read hread => List.forall_mem_cons.2 ⟨hslash.2, hread⟩
  case case5 _ name _ fits c _ _ hfits ih =>
    refine (ih h).cons rfl fun read hread => List.forall_mem_cons.2 ⟨?_, hread⟩
    simp only [fits] at hfits
    split at hfits
    · exact isBlank_of_isNameStart hfits
    · exact isBlank_of_isNamePart hfits
  case case3 | case4 => cases h

/-- A name that starts with a character of names or with an escape is not empty. -/
theorem scanName_lt {c : Char} {escaped isEscaped : Bool} {text : String}
    (hc : (isNameStart c || c == '\\') = true)
    (h : scanName offset [] escaped (c :: cs) = some (text, isEscaped, stop, rest)) :
    offset < stop := by
  rw [scanName.eq_def] at h
  simp only [List.isEmpty_nil, ↓reduceIte] at h
  split at h
  · next heq => cases heq
  · next more heq =>
    split at h
    · split at h
      · have hle := (scanName_passes h).le
        omega
      · cases h
    · cases h
  · next c' more hne heq =>
    cases heq
    have hslash : c ≠ '\\' := by
      rintro rfl
      exact hne rfl
    have hstart : isNameStart c = true := by simpa [hslash] using hc
    rw [if_pos hstart] at h
    have hle := (scanName_passes h).le
    have hsize := c.utf8Size_pos
    omega

/-- What is read of a name already is a beginning of it. -/
theorem scanName_extends {name : List Char} {escaped isEscaped : Bool} {text : String}
    (h : scanName offset name escaped cs = some (text, isEscaped, stop, rest)) :
    name.reverse <+: text.toList := by
  fun_induction scanName offset name escaped cs
  case case1 | case6 =>
    cases h
    simpa only [String.toList_ofList] using List.prefix_rfl
  case case2 ih | case5 ih =>
    refine .trans ?_ (ih h)
    rw [List.reverse_cons]
    exact List.prefix_append _ _
  case case3 | case4 => cases h

/-- A name starts with a character that names start with. -/
theorem scanName_starts {c : Char} {escaped isEscaped : Bool} {text : String}
    (hc : (isNameStart c || c == '\\') = true)
    (h : scanName offset [] escaped (c :: cs) = some (text, isEscaped, stop, rest)) :
    ∃ d, text.toList.head? = some d ∧ isNameStart d = true := by
  have hstarts {d : Char} (hd : isNameStart d = true) (hread : [d].reverse <+: text.toList) :
      ∃ d, text.toList.head? = some d ∧ isNameStart d = true := by
    obtain ⟨more, hmore⟩ := hread
    exact ⟨d, by rw [← hmore]; rfl, hd⟩
  rw [scanName.eq_def] at h
  simp only [List.isEmpty_nil, ↓reduceIte] at h
  split at h
  · next heq => cases heq
  · next more heq =>
    split at h
    · split at h
      · next hfits => exact hstarts (Bool.and_eq_true_iff.1 hfits).2 (scanName_extends h)
      · cases h
    · cases h
  · next c' more hne heq =>
    cases heq
    have hslash : c ≠ '\\' := by
      rintro rfl
      exact hne rfl
    have hstart : isNameStart c = true := by simpa [hslash] using hc
    rw [if_pos hstart] at h
    exact hstarts hstart (scanName_extends h)

/-- The characters of a name may all stand in one, if those read already may. -/
theorem scanName_parts {name : List Char} {escaped isEscaped : Bool} {text : String}
    (h : scanName offset name escaped cs = some (text, isEscaped, stop, rest))
    (hname : ∀ c ∈ name, isNamePart c = true) : ∀ c ∈ text.toList, isNamePart c = true := by
  have hpart {isFirst : Bool} {c : Char}
      (hc : (if isFirst then isNameStart else isNamePart) c = true) : isNamePart c = true := by
    cases isFirst with
    | true => simp_all [isNamePart]
    | false => exact hc
  fun_induction scanName offset name escaped cs
  case case1 | case6 =>
    cases h
    simpa using hname
  case case2 hfits ih =>
    exact ih h (List.forall_mem_cons.2 ⟨hpart (Bool.and_eq_true_iff.1 hfits).2, hname⟩)
  case case5 hfits ih => exact ih h (List.forall_mem_cons.2 ⟨hpart hfits, hname⟩)
  case case3 | case4 => cases h

/-- Characters of a name that is begun. -/
theorem scanName_append {name word : List Char} {escaped : Bool} (hname : name ≠ [])
    (hword : ∀ c ∈ word, isNamePart c = true) :
    scanName offset name escaped (word ++ cs) =
      scanName (offset + byteSize word) (word.reverse ++ name) escaped cs := by
  induction word generalizing offset name with
  | nil => simp
  | cons c word ih =>
    obtain ⟨hpart, hword⟩ := List.forall_mem_cons.1 hword
    have hfirst : scanName offset name escaped (c :: (word ++ cs)) =
        scanName (offset + c.utf8Size) (c :: name) escaped (word ++ cs) := by
      have hempty : name.isEmpty = false := by simpa using hname
      have hslash : c ≠ '\\' := by
        rintro rfl
        exact absurd hpart (by decide)
      rw [scanName]
      · simp [hempty, hpart]
      · exact hslash
    rw [List.cons_append, hfirst, ih (List.cons_ne_nil _ _) hword, byteSize_cons, Nat.add_assoc,
      List.reverse_cons, List.append_assoc, List.singleton_append]

/-- A name that stops where it is already. -/
theorem eq_of_scanName {name : List Char} {escaped isEscaped : Bool} {text : String}
    (h : scanName offset name escaped cs = some (text, isEscaped, stop, rest)) :
    stop ≤ offset → text = String.ofList name.reverse ∧ isEscaped = escaped := by
  fun_induction scanName offset name escaped cs
  case case1 | case6 =>
    cases h
    exact fun _ => ⟨rfl, rfl⟩
  case case2 =>
    have hle := (scanName_passes h).le
    omega
  case case5 c _ _ _ _ =>
    have hle := (scanName_passes h).le
    have hsize := c.utf8Size_pos
    omega
  case case3 | case4 => cases h

/-! ## Numbers -/

section Numbers

variable {isDigit : Char → Bool} {count n : Nat}

theorem plain_nil : Plain [] :=
  List.forall_mem_nil _

theorem passes_nothing : Passes Plain count cs count cs :=
  ⟨[], plain_nil, rfl, rfl⟩

/-- A reader that counts a plain character. -/
theorem Passes.plain {c : Char} (hc : IsPlain c) (h : Passes Plain (count + 1) cs n rest) :
    Passes Plain count (c :: cs) n rest :=
  h.cons hc.1 fun _ hread => List.forall_mem_cons.2 ⟨hc, hread⟩

theorem Passes.plain_trans {middle : Nat} (h : Passes Plain count cs middle mid)
    (h' : Passes Plain middle mid n rest) : Passes Plain count cs n rest :=
  h.trans h' fun _ _ => Plain.append

theorem scanDigits_passes (hdigit : ∀ {c}, isDigit c = true → IsPlain c) {afterDigit : Bool}
    (h : scanDigits isDigit afterDigit count cs = (n, rest)) : Passes Plain count cs n rest := by
  fun_induction scanDigits isDigit afterDigit count cs
  case case1 hc ih =>
    have hmark : IsPlain '_' := isPlain_of_le (by decide) (by decide)
    have hc := hdigit (Bool.and_eq_true_iff.1 hc).2
    exact .plain hmark (.plain hc (ih h))
  case case3 hc ih => exact (ih h).plain (hdigit hc)
  case case2 | case4 | case5 =>
    cases h
    exact passes_nothing

theorem scanExponent_passes (h : scanExponent count cs = some (n, rest)) :
    Passes Plain count cs n rest := by
  unfold scanExponent at h
  split at h
  · cases h
    exact passes_nothing
  · next e cs =>
    split at h
    · next he =>
      have he : IsPlain e := by
        rw [Bool.or_eq_true, beq_iff_eq, beq_iff_eq] at he
        rcases he with rfl | rfl <;> exact isPlain_of_le (by decide) (by decide)
      dsimp only at h
      split at h
      · cases h
      · next digits tail hscan =>
        cases h
        have hdigits := scanDigits_passes isPlain_of_isAsciiDigit hscan
        refine .plain he ?_
        split at hdigits
        · have hsign : IsPlain '+' := isPlain_of_le (by decide) (by decide)
          exact .plain hsign (hdigits.shift _)
        · have hsign : IsPlain '-' := isPlain_of_le (by decide) (by decide)
          exact .plain hsign (hdigits.shift _)
        · exact hdigits.shift _
    · cases h
      exact passes_nothing

theorem scanFraction_passes (h : scanFraction count cs = some (n, rest)) :
    Passes Plain count cs n rest := by
  unfold scanFraction at h
  split at h
  · next cs =>
    have hpoint : IsPlain '.' := isPlain_of_le (by decide) (by decide)
    have hdigits : Passes Plain 0 cs (scanDigits isAsciiDigit false 0 cs).1
        (scanDigits isAsciiDigit false 0 cs).2 :=
      scanDigits_passes isPlain_of_isAsciiDigit rfl
    exact .plain hpoint ((hdigits.shift _).plain_trans (scanExponent_passes h))
  · exact scanExponent_passes h

theorem scanWhole_passes (hdigit : ∀ {c}, isDigit c = true → IsPlain c)
    (h : scanWhole isDigit count cs = some (n, rest)) : Passes Plain count cs n rest := by
  unfold scanWhole at h
  split at h
  · cases h
  · next digits tail hscan =>
    cases h
    have hmark : IsPlain 'n' := isPlain_of_le (by decide) (by decide)
    exact ((scanDigits_passes hdigit hscan).shift _).plain_trans (.plain hmark passes_nothing)
  · next hscan =>
    cases h
    exact (scanDigits_passes hdigit hscan).shift _

theorem scanNumeral?_passes (h : scanNumeral? cs = some (n, rest)) : Passes Plain 0 cs n rest := by
  have hzero : IsPlain '0' := isPlain_of_le (by decide) (by decide)
  unfold scanNumeral? at h
  split at h
  case h_7 =>
    cases h
    have hmark : IsPlain 'n' := isPlain_of_le (by decide) (by decide)
    exact .plain hzero (.plain hmark passes_nothing)
  case h_8 c more _ _ _ _ _ _ _ =>
    refine .plain hzero ?_
    split at h
    · have hdigits : Plain ((c :: more).takeWhile isAsciiDigit) :=
        fun c hc => isPlain_of_isAsciiDigit (List.all_eq_true.1 List.all_takeWhile c hc)
      have hread : Passes Plain 0 (c :: more) ((c :: more).takeWhile isAsciiDigit).length
          ((c :: more).dropWhile isAsciiDigit) :=
        ⟨_, hdigits, List.takeWhile_append_dropWhile.symm,
          by rw [hdigits.byteSize_eq, Nat.zero_add]⟩
      dsimp only at h
      split at h
      · cases h
        exact hread.shift 1
      · exact (hread.shift 1).plain_trans (scanFraction_passes h)
    · exact scanFraction_passes h
  case h_9 => exact scanFraction_passes h
  case h_10 =>
    split at h
    · next hscan =>
      cases h
      have hmark : IsPlain 'n' := isPlain_of_le (by decide) (by decide)
      exact (scanDigits_passes isPlain_of_isAsciiDigit hscan).plain_trans
        (.plain hmark passes_nothing)
    · next hscan =>
      exact (scanDigits_passes isPlain_of_isAsciiDigit hscan).plain_trans (scanFraction_passes h)
  case h_1 | h_2 =>
    exact .plain hzero (.plain (isPlain_of_le (by decide) (by decide))
      (scanWhole_passes isPlain_of_isHexDigit h))
  case h_3 | h_4 =>
    exact .plain hzero (.plain (isPlain_of_le (by decide) (by decide))
      (scanWhole_passes isPlain_of_isOctalDigit h))
  case h_5 | h_6 =>
    exact .plain hzero (.plain (isPlain_of_le (by decide) (by decide))
      (scanWhole_passes isPlain_of_isBit h))

/-- A run that starts with a digit is not empty. -/
theorem scanDigits_lt {c : Char} (hdigit : ∀ {c}, isDigit c = true → IsPlain c)
    (hc : isDigit c = true) (hword : c ≠ '_')
    (h : scanDigits isDigit false 0 (c :: cs) = (n, rest)) : 0 < n := by
  rw [scanDigits.eq_def] at h
  split at h
  · grind
  · next c' more hne heq =>
    cases heq
    rw [if_pos hc] at h
    have hle := (scanDigits_passes hdigit h).le
    omega
  · next heq => cases heq

theorem scanFraction_point_lt (h : scanFraction count ('.' :: cs) = some (n, rest)) :
    count < n := by
  have hle := (scanExponent_passes h).le
  omega

/-- A number that starts with a digit, or with a point and a digit, is not empty. -/
theorem scanNumeral?_lt {c : Char}
    (hc : (isAsciiDigit c || (c == '.' && cs.head?.any isAsciiDigit)) = true)
    (h : scanNumeral? (c :: cs) = some (n, rest)) : 0 < n := by
  unfold scanNumeral? at h
  split at h
  case h_1 | h_2 =>
    have hle := (scanWhole_passes isPlain_of_isHexDigit h).le
    omega
  case h_3 | h_4 =>
    have hle := (scanWhole_passes isPlain_of_isOctalDigit h).le
    omega
  case h_5 | h_6 =>
    have hle := (scanWhole_passes isPlain_of_isBit h).le
    omega
  case h_7 => grind
  case h_8 =>
    split at h
    · dsimp only at h
      split at h
      · grind
      · have := (scanFraction_passes h).le
        omega
    · have := (scanFraction_passes h).le
      omega
  case h_9 heq =>
    cases heq
    exact scanFraction_point_lt h
  case h_10 hpoint =>
    have hother : c ≠ '.' := by
      rintro rfl
      exact hpoint _ rfl
    have hdigit : isAsciiDigit c = true := by simpa [hother] using hc
    have hword : c ≠ '_' := by
      rintro rfl
      cases hdigit
    split at h
    · cases h
      exact Nat.succ_pos _
    · next heq =>
      have hlt := scanDigits_lt isPlain_of_isAsciiDigit hdigit hword heq
      have hle := (scanFraction_passes h).le
      omega

/-- A number takes plain characters, at least one. -/
theorem scanNumber?_passes {c : Char}
    (hc : (isAsciiDigit c || (c == '.' && cs.head?.any isAsciiDigit)) = true)
    (h : scanNumber? (c :: cs) = some (n, rest)) : Passes Plain 0 (c :: cs) n rest ∧ 0 < n := by
  simp only [scanNumber?, Option.bind_eq_bind, Option.bind_eq_some_iff] at h
  obtain ⟨⟨count, tail⟩, hcount, htail⟩ := h
  have hanswer : n = count ∧ rest = tail := by
    dsimp only at htail
    grind
  obtain ⟨rfl, rfl⟩ := hanswer
  exact ⟨scanNumeral?_passes hcount, scanNumeral?_lt hc hcount⟩

end Numbers

/-! ## Literals -/

/-- A text whose last character is the given one. -/
def EndsWith (last : Char) (read : List Char) : Prop :=
  ∃ inner, read = inner ++ [last]

theorem EndsWith.append {last : Char} (front : List Char) (h : EndsWith last read) :
    EndsWith last (front ++ read) := by
  obtain ⟨inner, rfl⟩ := h
  exact ⟨front ++ inner, (List.append_assoc _ _ _).symm⟩

theorem EndsWith.cons {last : Char} (c : Char) (h : EndsWith last read) :
    EndsWith last (c :: read) :=
  h.append [c]

/-- What a step through a string literal has read. -/
def StringStep.Passed (quote : Char) (cs : List Char) : StringStep → Prop
  | .close rest => cs = quote :: rest
  | .code _ width rest | .continuation width rest => Passes (Skips quote) 0 cs width rest
  | .unterminated _ | .badEscape _ => True

theorem octalEscape_passes (cs : List Char) :
    Passes Quiet 0 cs (octalEscape cs).2 (cs.drop (octalEscape cs).2) := by
  let limit := if cs.head?.any (fun c => c ≤ '3') then 3 else 2
  have hdigits : Quiet ((cs.take limit).takeWhile isOctalDigit) := fun c hc =>
    isQuiet_of_isHexDigit
      (isHexDigit_of_isOctalDigit (List.all_eq_true.1 List.all_takeWhile c hc))
  have hprefix : (cs.take limit).takeWhile isOctalDigit <+: cs :=
    (List.takeWhile_prefix _).trans (List.take_prefix _ _)
  exact ⟨_, hdigits, (List.prefix_iff_eq_append.1 hprefix).symm,
    by rw [hdigits.plain.byteSize_eq, Nat.zero_add]; rfl⟩

theorem stringEscape_passed {quote : Char} (hquote : isQuote quote = true) (cs : List Char) :
    (stringEscape cs).Passed quote ('\\' :: cs) := by
  have hslash : '\\'.utf8Size = 1 := by decide
  -- What is read past the backslash, which is counted first.
  have hpast {c : Char} {cs rest : List Char} {width : Nat}
      (h : Passes (fun read => ∃ more, read = c :: more ∧ Quiet more) 0 cs width rest) :
      Passes (Skips quote) 0 ('\\' :: cs) (1 + width) rest := by
    refine (h.shift _).cons hslash ?_
    rintro _ ⟨more, rfl, hmore⟩
    exact skips_slash hquote hmore
  have hquiet {cs rest : List Char} {width : Nat} (h : Passes Quiet 0 cs width rest)
      (hlt : 0 < width) : Passes (Skips quote) 0 ('\\' :: cs) (1 + width) rest := by
    obtain ⟨read, ⟨hread, hne⟩, hcs, hwidth⟩ := h.ne_nil hlt
    obtain ⟨c, more, rfl⟩ := List.exists_cons_of_ne_nil hne
    exact hpast ⟨_, ⟨more, rfl, (List.forall_mem_cons.1 hread).2⟩, hcs, hwidth⟩
  unfold stringEscape
  split
  · trivial
  · exact ⟨['\\', '\r', '\n'], skips_lineBreak, rfl, by decide⟩
  · next a b rest =>
    split
    · next hdigits =>
      obtain ⟨ha, hb⟩ := Bool.and_eq_true_iff.1 hdigits
      have hread : Quiet [a, b] := by
        simp [Quiet, isQuiet_of_isHexDigit ha, isQuiet_of_isHexDigit hb]
      exact hpast ⟨['x', a, b], ⟨[a, b], rfl, hread⟩, rfl, by
        rw [byteSize_cons, hread.plain.byteSize_eq]⟩
    · trivial
  · trivial
  · split
    · next hescape =>
      have hread := codePointEscape?_passes hescape
      have hlt := length_lt_of_codePointEscape? hescape
      refine hquiet hread ?_
      obtain ⟨read, -, hcs, hwidth⟩ := hread
      rw [hwidth, Nat.zero_add]
      refine byteSize_pos fun hnil => ?_
      rw [hcs, hnil] at hlt
      exact Nat.lt_irrefl _ hlt
    · trivial
  · next c rest _ _ _ _ =>
    have hc : Passes (fun read => ∃ more, read = c :: more ∧ Quiet more) 0 (c :: rest) c.utf8Size
        rest :=
      ⟨[c], ⟨[], rfl, List.forall_mem_nil _⟩, rfl, by simp⟩
    split
    · exact hpast hc
    split
    · next hoctal =>
      exact hquiet (octalEscape_passes (c :: rest)) (octalEscape_count_pos rest hoctal)
    · exact hpast hc

theorem stringStep_passed {quote : Char} (hquote : isQuote quote = true) (cs : List Char) :
    (stringStep quote cs).Passed quote cs := by
  unfold stringStep
  split
  · trivial
  · exact stringEscape_passed hquote _
  · next c cs hslash =>
    split
    · next hc => exact beq_iff_eq.1 hc ▸ rfl
    · next hc =>
      split
      · trivial
      · next hbreak =>
        refine ⟨[c], fun cs _ => ?_, rfl, by simp⟩
        rw [Bool.or_eq_true, beq_iff_eq, beq_iff_eq] at hbreak
        exact literalTail_cons (fun h => hslash h) (by simpa using hc) hbreak

theorem scanString_passes {quote : Char} (hquote : isQuote quote = true) {start : Nat}
    {codes : List Nat} {token : Token}
    (h : scanString quote start offset codes cs = .ok (token, stop, rest)) :
    Passes (fun read => EndsWith quote read ∧ Closes quote read) offset cs stop rest ∧
      ∃ value sound, token = .string value sound := by
  have hsize : quote.utf8Size = 1 := by
    rw [isQuote, Bool.or_eq_true, beq_iff_eq, beq_iff_eq] at hquote
    rcases hquote with rfl | rfl <;> decide
  fun_induction scanString quote start offset codes cs
  case case1 cs _ hstep =>
    cases h
    have hpassed := stringStep_passed hquote cs
    rw [hstep] at hpassed
    exact ⟨⟨[quote], ⟨⟨[], rfl⟩, closes_quote hquote⟩, hpassed, by simp [hsize]⟩, _, _, rfl⟩
  case case2 cs _ _ _ hstep ih | case3 cs _ _ hstep ih =>
    have hpassed := stringStep_passed hquote cs
    rw [hstep] at hpassed
    obtain ⟨hread, htoken⟩ := ih h
    exact ⟨(hpassed.shift _).trans hread fun front _ hfront hback =>
      ⟨hback.1.append front, hback.2.append hquote hfront⟩, htoken⟩
  case case4 | case5 => cases h

/-- A part of a template stops past its closing mark or past the brace of a substitution. -/
theorem scanTemplate_passes {start : Nat} {sound : Bool}
    {answer : Bool × Bool × Nat × List Char} (h : scanTemplate start offset sound cs = .ok answer) :
    Passes (fun read => ∃ last, isBlank last = false ∧ EndsWith last read) offset cs answer.2.2.1
      answer.2.2.2 := by
  have hcons {c : Char} {read : List Char} :
      (∃ last, isBlank last = false ∧ EndsWith last read) →
        ∃ last, isBlank last = false ∧ EndsWith last (c :: read) :=
    fun ⟨last, hlast, hread⟩ => ⟨last, hlast, hread.cons c⟩
  fun_induction scanTemplate start offset sound cs
  case case1 => cases h
  case case2 cs =>
    cases h
    exact ⟨['\x60'], ⟨'\x60', by decide, [], rfl⟩, rfl, rfl⟩
  case case3 cs =>
    cases h
    exact ⟨['$', '{'], ⟨'{', by decide, ['$'], rfl⟩, rfl, rfl⟩
  case case4 ih =>
    have hslash : '\\'.utf8Size = 1 := by decide
    exact ((ih h).cons rfl fun _ => hcons).cons hslash fun _ => hcons
  case case5 ih => exact (ih h).cons rfl fun _ => hcons

theorem scanRegExpBody_passes {start : Nat} {inClass : Bool}
    (h : scanRegExpBody start offset inClass cs = .ok (stop, rest)) :
    Passes (EndsWith '/') offset cs stop rest := by
  fun_induction scanRegExpBody start offset inClass cs
  case case1 | case2 | case4 => cases h
  case case3 ih =>
    have hslash : '\\'.utf8Size = 1 := by decide
    exact ((ih h).cons rfl fun _ hread => hread.cons _).cons hslash fun _ hread => hread.cons _
  case case5 hc =>
    cases h
    obtain rfl := beq_iff_eq.1 (Bool.and_eq_true_iff.1 hc).1
    exact ⟨['/'], ⟨[], rfl⟩, rfl, rfl⟩
  case case6 ih => exact (ih h).cons rfl fun _ hread => hread.cons _

/-! ## Tokens -/

theorem plain_of_mem_punctuators {mark : String} (h : mark ∈ punctuators) :
    Plain mark.toList ∧ mark.toList ≠ [] := by
  have hall : punctuators.all (fun mark =>
      mark.toList.all (fun c => '!' ≤ c && c ≤ '~') && !mark.toList.isEmpty) = true := by decide
  have hmark := List.all_eq_true.1 hall mark h
  simp only [Bool.and_eq_true, List.all_eq_true, decide_eq_true_eq, Bool.not_eq_true',
    List.isEmpty_eq_false_iff] at hmark
  exact ⟨fun c hc => isPlain_of_le (hmark.1 c hc).1 (hmark.1 c hc).2, hmark.2⟩

theorem EndsWith.solid {first last : Char} (h : EndsWith last read)
    (hfirst : isBlank first = false) (hlast : isBlank last = false) : Solid (first :: read) := by
  obtain ⟨inner, rfl⟩ := h
  exact solid_of_ends hfirst hlast

theorem EndsWith.solid_append {first last : Char} {back : List Char} (h : EndsWith last read)
    (hfirst : isBlank first = false) (hlast : isBlank last = false) (hback : Shown back) :
    Solid (first :: (read ++ back)) := by
  rcases List.eq_nil_or_concat back with rfl | ⟨front, c, rfl⟩
  · rw [List.append_nil]
    exact h.solid hfirst hlast
  · have hc : isBlank c = false := hback c (by simp)
    have hends : EndsWith c (read ++ front.concat c) := ⟨read ++ front, by simp⟩
    exact hends.solid hfirst hc

/-- What a token takes of the text at whose head it stands: nothing if the text is empty, and else a
beginning that neither starts nor ends with a blank.  A punctuator stands in the text as it is. -/
structure Token.Takes (token : Token) (start : Nat) (cs : List Char) (stop : Nat)
    (rest : List Char) : Prop where
  taken : (token = .endOfInput ∧ cs = [] ∧ stop = start ∧ rest = []) ∨
    Passes Solid start cs stop rest
  mark : ∀ {mark}, token = .punctuator mark → mark.toList <+: cs

variable {token : Token} {start : Nat}

theorem Token.Takes.punctuator {mark : String} (h : punctuator? cs = some mark) :
    (Token.punctuator mark).Takes start cs (start + mark.length) (cs.drop mark.length) := by
  unfold punctuator? at h
  obtain ⟨hplain, hne⟩ := plain_of_mem_punctuators (List.mem_of_find?_eq_some h)
  have hfits := List.find?_some h
  simp only [Bool.and_eq_true, List.isPrefixOf_iff_prefix] at hfits
  have hcs := List.prefix_iff_eq_append.1 hfits.1
  rw [String.length_toList] at hcs
  refine ⟨.inr ⟨_, hplain.shown.solid hne, hcs.symm, ?_⟩, fun heq => ?_⟩
  · rw [hplain.byteSize_eq, String.length_toList]
  · cases heq
    exact hfits.1

theorem scanToken_takes (h : scanToken start cs = .ok (token, stop, rest)) :
    token.Takes start cs stop rest := by
  unfold scanToken at h
  split at h
  · cases h
    exact ⟨.inl ⟨rfl, rfl, rfl, rfl⟩, nofun⟩
  · obtain ⟨hread, _, _, rfl⟩ := scanString_passes (by decide) h
    refine ⟨.inr (hread.cons (by decide) fun _ hread => ?_), nofun⟩
    exact hread.1.solid (by decide) (by decide)
  · obtain ⟨hread, _, _, rfl⟩ := scanString_passes (by decide) h
    refine ⟨.inr (hread.cons (by decide) fun _ hread => ?_), nofun⟩
    exact hread.1.solid (by decide) (by decide)
  · obtain ⟨⟨isClosed, isSound, end', tail⟩, hpart, hanswer⟩ := exists_ok_of_bind h
    have hread := scanTemplate_passes hpart
    cases hanswer
    refine ⟨.inr (hread.cons (by decide) ?_), nofun⟩
    rintro read ⟨last, hlast, hread⟩
    exact hread.solid (by decide) hlast
  · split at h
    · next hname =>
      have hread := scanName_passes hname
      split at h
      · cases h
      · cases h
        refine ⟨.inr (hread.cons (by decide) fun read hread => ?_), nofun⟩
        have hshown : Shown ('#' :: read) := List.forall_mem_cons.2 ⟨by decide, hread⟩
        exact hshown.solid (List.cons_ne_nil _ _)
    · cases h
  · split at h
    · next hdigit =>
      split at h
      · next hnumber =>
        cases h
        obtain ⟨hread, hlt⟩ := scanNumber?_passes hdigit hnumber
        exact ⟨.inr (((hread.ne_nil hlt).shift _).of fun _ hread => hread.1.shown.solid hread.2),
          nofun⟩
      · cases h
    · split at h
      · next hstart =>
        split at h
        · next hname =>
          cases h
          have hread := (scanName_passes hname).ne_nil (scanName_lt hstart hname)
          exact ⟨.inr (hread.of fun _ hread => hread.1.solid hread.2), nofun⟩
        · cases h
      · split at h
        · next hmark =>
          cases h
          exact .punctuator hmark
        · cases h

theorem scanToken_literal {value : String} {isSound : Bool}
    (h : scanToken start cs = .ok (.string value isSound, stop, rest)) :
    Passes IsLiteral start cs stop rest := by
  unfold scanToken at h
  split at h
  · cases h
  · exact (scanString_passes (by decide) h).1.cons (by decide) fun _ hread =>
      hread.2.isLiteral (by decide)
  · exact (scanString_passes (by decide) h).1.cons (by decide) fun _ hread =>
      hread.2.isLiteral (by decide)
  · obtain ⟨_, _, h⟩ := exists_ok_of_bind h
    cases h
  · split at h
    · split at h <;> cases h
    · cases h
  · split at h
    · split at h <;> cases h
    · split at h
      · split at h <;> cases h
      · split at h <;> cases h

/-- A word is a name from its first character on. -/
theorem scanName_of_word {name : String} {isEscaped : Bool}
    (h : scanToken start cs = .ok (.word name isEscaped, stop, rest)) :
    ∃ c more, cs = c :: more ∧ (isNameStart c || c == '\\') = true ∧
      scanName start [] false cs = some (name, isEscaped, stop, rest) := by
  unfold scanToken at h
  split at h
  · cases h
  · obtain ⟨-, _, _, htoken⟩ := scanString_passes (by decide) h
    cases htoken
  · obtain ⟨-, _, _, htoken⟩ := scanString_passes (by decide) h
    cases htoken
  · obtain ⟨_, _, h⟩ := exists_ok_of_bind h
    cases h
  · split at h
    · split at h <;> cases h
    · cases h
  · split at h
    · split at h <;> cases h
    · split at h
      · next hstart =>
        split at h
        · next hname =>
          cases h
          exact ⟨_, _, rfl, hstart, hname⟩
        · cases h
      · split at h <;> cases h

theorem scanToken_word {name : String} {isEscaped : Bool}
    (h : scanToken start cs = .ok (.word name isEscaped, stop, rest)) :
    ∃ c, name.toList.head? = some c ∧ isNameStart c = true := by
  obtain ⟨c, more, rfl, hstart, hname⟩ := scanName_of_word h
  exact scanName_starts hstart hname

/-- The characters of a word may all stand in a name. -/
theorem isNamePart_of_word {name : String} {isEscaped : Bool}
    (h : scanToken start cs = .ok (.word name isEscaped, stop, rest)) :
    ∀ c ∈ name.toList, isNamePart c = true := by
  obtain ⟨-, -, -, -, hname⟩ := scanName_of_word h
  exact scanName_parts hname (List.forall_mem_nil _)

/-- A token is a word if it starts with a character that names start with. -/
theorem scanName_of_scanToken {c : Char} {token : Token} (hc : isNameStart c = true)
    (hdigit : isAsciiDigit c = false) (h : scanToken start (c :: cs) = .ok (token, stop, rest)) :
    ∃ name isEscaped, token = .word name isEscaped ∧
      scanName start [] false (c :: cs) = some (name, isEscaped, stop, rest) := by
  have hne {d : Char} (hd : isNameStart d = false) : c ≠ d := by
    rintro rfl
    exact absurd hc (by simp [hd])
  have hdot : (c == '.') = false := beq_eq_false_iff_ne.2 (hne (by decide))
  unfold scanToken at h
  split at h
  · next heq => cases heq
  · next heq => exact absurd (List.cons.inj heq).1 (hne (by decide))
  · next heq => exact absurd (List.cons.inj heq).1 (hne (by decide))
  · next heq => exact absurd (List.cons.inj heq).1 (hne (by decide))
  · next heq => exact absurd (List.cons.inj heq).1 (hne (by decide))
  · next heq =>
    cases heq
    rw [hdigit, hdot, Bool.false_and, Bool.or_false, if_neg (by decide), hc, Bool.true_or,
      if_pos rfl] at h
    split at h
    · next hname =>
      cases h
      exact ⟨_, _, rfl, hname⟩
    · cases h

/-- A word goes on at least as long as the text goes on with characters of names. -/
theorem scanToken_name {c : Char} {word : List Char} {token : Token} (hc : isNameStart c = true)
    (hdigit : isAsciiDigit c = false) (hword : ∀ d ∈ word, isNamePart d = true)
    (h : scanToken start (c :: word ++ cs) = .ok (token, stop, rest)) :
    (∃ name isEscaped, token = .word name isEscaped) ∧ start + byteSize (c :: word) ≤ stop ∧
      (stop ≤ start + byteSize (c :: word) → token = .word (String.ofList (c :: word)) false) := by
  rw [List.cons_append] at h
  obtain ⟨name, isEscaped, rfl, hscan⟩ := scanName_of_scanToken hc hdigit h
  have hslash : c ≠ '\\' := by
    rintro rfl
    exact absurd hc (by decide)
  have hfirst : scanName start [] false (c :: (word ++ cs)) =
      scanName (start + c.utf8Size) [c] false (word ++ cs) := by
    rw [scanName]
    · simp [hc]
    · exact hslash
  rw [hfirst, scanName_append (List.cons_ne_nil c []) hword, Nat.add_assoc,
    ← byteSize_cons] at hscan
  refine ⟨⟨name, isEscaped, rfl⟩, (scanName_passes hscan).le, fun hle => ?_⟩
  obtain ⟨rfl, rfl⟩ := eq_of_scanName hscan hle
  simp

namespace Token.Takes

theorem lt (h : token.Takes start cs stop rest) (hne : token ≠ .endOfInput) : start < stop := by
  obtain ⟨hend, -⟩ | ⟨read, hsolid, -, rfl⟩ := h.taken
  · exact absurd hend hne
  · exact Nat.lt_add_of_pos_right (byteSize_pos hsolid.ne_nil)

theorem suffix (h : token.Takes start cs stop rest) : rest <:+ cs := by
  obtain ⟨-, rfl, -, rfl⟩ | hread := h.taken
  · exact List.suffix_rfl
  · exact hread.suffix

theorem add_byteSize (h : token.Takes start cs stop rest) :
    stop + byteSize rest = start + byteSize cs := by
  obtain ⟨-, hcs, hstop, hrest⟩ | hread := h.taken
  · rw [hcs, hrest, hstop]
  · exact hread.add_byteSize

end Token.Takes

/-- Whether a token is a word or a string literal. -/
def Token.isFixed : Token → Bool
  | .word _ _ | .string _ _ => true
  | _ => false

/-- Whether there is another reading of a token: that of a slash or a closing brace. -/
def Token.isOpen : Token → Bool
  | .punctuator mark => ["/", "/=", "\x7d"].contains mark
  | _ => false

theorem Token.isFixed_of_isOpen {token : Token} (h : token.isOpen = true) :
    token.isFixed = false := by
  cases token with
  | word | string => cases h
  | _ => rfl

namespace Lexeme

/-- Where a token stands in a text of so many bytes: the text from the token on goes to the end, and
the token takes the first characters of it. -/
structure Stands (limit : Nat) (l : Lexeme) : Prop where
  here : l.start + byteSize l.here = limit
  takes : l.token.Takes l.start l.here l.stop l.rest

/-- How a token is found at the head of the text: by itself, or by rereading a slash or a closing
brace. -/
def Scanned (l : Lexeme) : Prop :=
  scanToken l.start l.here = .ok (l.token, l.stop, l.rest) ∨
    (l.token = .regularExpression ∧ l.here.head? = some '/') ∨
    ((∃ isClosed isSound, l.token = .template isClosed isSound) ∧ l.here.head? = some '}')

variable {limit : Nat} {l next : Lexeme}

namespace Stands

theorem start_lt (h : l.Stands limit) (hne : l.token ≠ .endOfInput) : l.start < l.stop :=
  h.takes.lt hne

theorem stop_add_byteSize (h : l.Stands limit) : l.stop + byteSize l.rest = limit :=
  h.takes.add_byteSize.trans h.here

end Stands

theorem scan_stands (hcs : offset + byteSize cs = limit) (h : scan offset cs = .ok l) :
    offset ≤ l.start ∧ l.here <:+ cs ∧ l.Stands limit := by
  obtain ⟨⟨start, isBroken, here⟩, hgap, h⟩ := exists_ok_of_bind h
  obtain ⟨⟨token, stop, rest⟩, htoken, h⟩ := exists_ok_of_bind h
  have hgap := skipGap_passes hgap
  have htoken := scanToken_takes htoken
  cases h
  exact ⟨hgap.le, hgap.suffix, hgap.add_byteSize.trans hcs, htoken⟩

theorem scan_scanned (h : scan offset cs = .ok l) : l.Scanned := by
  obtain ⟨⟨start, isBroken, here⟩, -, h⟩ := exists_ok_of_bind h
  obtain ⟨⟨token, stop, rest⟩, htoken, h⟩ := exists_ok_of_bind h
  cases h
  exact .inl htoken

/-- A punctuator of which only the first character is read anew. -/
theorem Stands.reread {mark : List Char} {c : Char} {token : Token}
    (hl : l.Stands limit) (hmark : c :: mark <+: l.here) (hc : IsPlain c)
    (hread : Passes (fun read => Solid (c :: read)) (l.start + 1) (l.here.drop 1) stop rest)
    (htoken : ∀ mark, token ≠ .punctuator mark) :
    ({ l with token, stop, rest } : Lexeme).Stands limit where
  here := hl.here
  takes := by
    obtain ⟨tail, htail⟩ := hmark
    refine ⟨.inr ?_, fun heq => absurd heq (htoken _)⟩
    dsimp only
    rw [← htail] at hread ⊢
    exact hread.cons hc.1 fun _ hread => hread

/-- Another reading of a token that stands in a text. -/
structure Rereads (limit : Nat) (l next : Lexeme) : Prop where
  start_eq : next.start = l.start
  here_eq : next.here = l.here
  ne_endOfInput : next.token ≠ .endOfInput
  isFixed_eq : next.token.isFixed = false
  stands : next.Stands limit
  scanned : next.Scanned

theorem head?_of_prefix {c : Char} {mark text : List Char} (h : c :: mark <+: text) :
    text.head? = some c := by
  obtain ⟨tail, rfl⟩ := h
  rfl

theorem scanRegularExpression_stands (hl : l.Stands limit) {mark : List Char}
    (hmark : '/' :: mark <+: l.here) (h : l.scanRegularExpression = .ok next) :
    l.Rereads limit next := by
  obtain ⟨⟨bodyStop, rest⟩, hbody, h⟩ := exists_ok_of_bind h
  have hbody := scanRegExpBody_passes hbody
  dsimp only at h
  split at h
  · cases h
    have hflags : Passes Shown bodyStop rest
        (bodyStop + byteSize (rest.takeWhile isNamePart))
        (rest.drop (rest.takeWhile isNamePart).length) := by
      refine ⟨_, fun c hc => isBlank_of_isNamePart (List.all_eq_true.1 List.all_takeWhile c hc),
        ?_, rfl⟩
      exact (List.prefix_iff_eq_append.1 (List.takeWhile_prefix _)).symm
    refine ⟨rfl, rfl, nofun, rfl, hl.reread hmark (isPlain_of_le (by decide) (by decide)) ?_ nofun,
      .inr (.inl ⟨rfl, head?_of_prefix hmark⟩)⟩
    exact hbody.trans hflags fun _ _ hfront => hfront.solid_append (by decide) (by decide)
  · cases h

theorem scanTemplatePart_stands (hl : l.Stands limit) {mark : List Char}
    (hmark : '}' :: mark <+: l.here) (h : l.scanTemplatePart = .ok next) :
    l.Rereads limit next := by
  obtain ⟨⟨isClosed, isSound, stop, rest⟩, hpart, h⟩ := exists_ok_of_bind h
  have hpart := scanTemplate_passes hpart
  cases h
  refine ⟨rfl, rfl, nofun, rfl, hl.reread hmark (isPlain_of_le (by decide) (by decide)) ?_ nofun,
    .inr (.inr ⟨⟨_, _, rfl⟩, head?_of_prefix hmark⟩)⟩
  exact hpart.of fun read ⟨last, hlast, hread⟩ => hread.solid (by decide) hlast

/-- The first token stands in the text past the line that is skipped, if there is one. -/
theorem first_stands (h : first cs = .ok l) : l.here <:+ cs ∧ l.Stands (byteSize cs) := by
  unfold first at h
  split at h
  · next more =>
    obtain ⟨⟨start, isBroken, here⟩, hgap, h⟩ := exists_ok_of_bind h
    obtain ⟨next, hnext, h⟩ := exists_ok_of_bind h
    have hmark : '#'.utf8Size = 1 := by decide
    have hbang : '!'.utf8Size = 1 := by decide
    have hgap := Passes.past hmark (Passes.past hbang (skipGap_passes hgap))
    obtain ⟨-, hsuffix, hstands⟩ := scan_stands (hgap.add_byteSize.trans (Nat.zero_add _)) hnext
    cases h
    exact ⟨hsuffix.trans hgap.suffix, hstands.here, hstands.takes⟩
  · obtain ⟨-, hsuffix, hstands⟩ := scan_stands (Nat.zero_add _) h
    exact ⟨hsuffix, hstands⟩

theorem first_scanned (h : first cs = .ok l) : l.Scanned := by
  unfold first at h
  split at h
  · obtain ⟨_, -, h⟩ := exists_ok_of_bind h
    obtain ⟨next, hnext, h⟩ := exists_ok_of_bind h
    have hscanned := scan_scanned hnext
    cases h
    exact hscanned
  · exact scan_scanned h

end Lexeme

end Rebind.Snippet
