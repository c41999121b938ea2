import Rebind.Proofs.Copying.Scan

/-!
# Reading a number again

Digits are read as far as they go, so what follows a number matters by its next character only: no
part of a name, and no point if the number was not read past one.
-/

namespace Rebind.Snippet

open Rebind.Text (byteSize byteSize_nil byteSize_cons byteSize_append addCode areCharacters)
open Rebind.Unicode (isNameStart isNamePart isAsciiDigit isAsciiLetter)

variable {isDigit : Char → Bool} {count n : Nat} {cs rest : List Char}

/-- No digit and no underscore comes next. -/
def Undigited (isDigit : Char → Bool) (cs : List Char) : Prop :=
  ∀ c, cs.head? = some c → isDigit c = false ∧ c ≠ '_'

theorem scanDigits_undigited (h : Undigited isDigit rest) (afterDigit : Bool) :
    scanDigits isDigit afterDigit count rest = (count, rest) := by
  cases rest with
  | nil => rw [scanDigits]
  | cons c rest =>
    obtain ⟨hdigit, hmark⟩ := h c rfl
    rw [scanDigits]
    · simp [hdigit]
    · exact fun _ _ hc => absurd hc hmark

/-- A run of digits is read again before any text that ends it. -/
theorem scanDigits_again (hmark : isDigit '_' = false) {afterDigit : Bool}
    (h : scanDigits isDigit afterDigit count cs = (n, rest)) :
    (∀ c, rest.head? = some c → isDigit c = false) ∧ ∃ read, cs = read ++ rest ∧
      ∀ rest', Undigited isDigit rest' →
        scanDigits isDigit afterDigit count (read ++ rest') = (n, rest') := by
  fun_induction scanDigits isDigit afterDigit count cs
  case case1 hc ih =>
    obtain ⟨hend, read, rfl, hagain⟩ := ih h
    refine ⟨hend, '_' :: _ :: read, rfl, fun rest' hrest' => ?_⟩
    rw [List.cons_append, List.cons_append, scanDigits, if_pos hc, hagain _ hrest']
  case case3 c cs hother hc ih =>
    obtain ⟨hend, read, rfl, hagain⟩ := ih h
    refine ⟨hend, c :: read, rfl, fun rest' hrest' => ?_⟩
    rw [List.cons_append, scanDigits, if_pos hc, hagain _ hrest']
    rintro _ _ rfl
    rw [hmark] at hc
    cases hc
  case case2 =>
    cases h
    refine ⟨?_, [], rfl, fun rest' hrest' => scanDigits_undigited hrest' _⟩
    rintro c hc
    cases hc
    exact hmark
  case case4 hc =>
    cases h
    refine ⟨?_, [], rfl, fun rest' hrest' => scanDigits_undigited hrest' _⟩
    rintro c hc
    cases hc
    simpa using hc
  case case5 =>
    cases h
    exact ⟨nofun, [], rfl, fun rest' hrest' => scanDigits_undigited hrest' _⟩

/-- The next character is no part of a name, and no point unless one came next before. -/
structure Detached (rest rest' : List Char) : Prop where
  severed : Severed rest'
  point : rest'.head? = some '.' → rest.head? = some '.'

theorem Alike.detached {rest rest' : List Char} (h : Alike rest rest') (hrest : Severed rest) :
    Detached rest rest' where
  severed := h.severed hrest
  point hpoint := by
    cases h with
    | ended hc =>
      cases hpoint
      exact absurd hc (by decide)
    | renamed hc hc' =>
      cases hpoint
      exact absurd hc' (by decide)
    | cons => exact hpoint

theorem Severed.undigited (h : Severed rest)
    (hdigit : ∀ c, isDigit c = true → isNamePart c = true) : Undigited isDigit rest := by
  intro c hc
  obtain ⟨hpart, -⟩ := h c hc
  constructor
  · rw [← Bool.not_eq_true]
    intro hother
    rw [hdigit c hother] at hpart
    cases hpart
  · rintro rfl
    exact absurd hpart (by decide)

/-- Digits before a point, an exponent or the end of a number. -/
theorem undigited_append {tail : List Char} (hrest : Severed rest)
    (htail : ∀ c, tail.head? = some c → c = '.' ∨ c = 'e' ∨ c = 'E') :
    Undigited isAsciiDigit (tail ++ rest) := by
  cases tail with
  | nil => exact hrest.undigited fun _ => isNamePart_of_isAsciiDigit
  | cons c tail =>
    intro d hd
    cases hd
    obtain rfl | rfl | rfl := htail c rfl <;> decide

theorem scanExponent_again (h : scanExponent count cs = some (n, rest)) :
    ∃ read, cs = read ++ rest ∧ (∀ c, read.head? = some c → c = 'e' ∨ c = 'E') ∧
      ∀ rest', Severed rest' → scanExponent count (read ++ rest') = some (n, rest') := by
  have hnone {rest' : List Char} (hrest' : Severed rest') :
      scanExponent count rest' = some (count, rest') := by
    cases rest' with
    | nil => rfl
    | cons c rest' =>
      have hc : (c == 'e' || c == 'E') = false := by
        rw [← Bool.not_eq_true, Bool.or_eq_true, beq_iff_eq, beq_iff_eq]
        rintro (rfl | rfl) <;> exact absurd (hrest' _ rfl).1 (by decide)
      simp [scanExponent.eq_def, hc]
  have hpart {rest' : List Char} (hrest' : Severed rest') : Undigited isAsciiDigit rest' :=
    hrest'.undigited fun _ => isNamePart_of_isAsciiDigit
  unfold scanExponent at h
  split at h
  · cases h
    exact ⟨[], rfl, nofun, fun rest' => hnone⟩
  · next e cs =>
    split at h
    · next he =>
      have hhead (more : List Char) (c : Char) (hc : (e :: more).head? = some c) :
          c = 'e' ∨ c = 'E' := by
        cases hc
        simpa using he
      dsimp only at h
      split at h
      · cases h
      · next hpos hscan =>
        cases h
        obtain ⟨-, read, hread, hagain⟩ := scanDigits_again (by decide) hscan
        split at hread
        · subst hread
          refine ⟨e :: '+' :: read, rfl, hhead _, fun rest' hrest' => ?_⟩
          have hdigits := hagain _ (hpart hrest')
          simp only [List.cons_append, scanExponent, if_pos he, hdigits]
        · subst hread
          refine ⟨e :: '-' :: read, rfl, hhead _, fun rest' hrest' => ?_⟩
          have hdigits := hagain _ (hpart hrest')
          simp only [List.cons_append, scanExponent, if_pos he, hdigits]
        · next hplus hminus =>
          subst hread
          refine ⟨e :: read, rfl, hhead _, fun rest' hrest' => ?_⟩
          have hdigits := hagain _ (hpart hrest')
          have hne : read ≠ [] := by
            rintro rfl
            have hzero : scanDigits isAsciiDigit false 0 rest' = (0, rest') :=
              scanDigits_undigited (hpart hrest') false
            exact hpos (Prod.mk.inj (hdigits.symm.trans hzero)).1
          obtain ⟨c, more, rfl⟩ := List.exists_cons_of_ne_nil hne
          rw [List.cons_append, scanExponent, if_pos he]
          · simp only [hdigits]
          · rintro _ heq
            cases heq
            exact hplus _ rfl
          · rintro _ heq
            cases heq
            exact hminus _ rfl
    · cases h
      exact ⟨[], rfl, nofun, fun rest' => hnone⟩

theorem scanFraction_again (h : scanFraction count cs = some (n, rest)) :
    ∃ read, cs = read ++ rest ∧ (∀ c, read.head? = some c → c = '.' ∨ c = 'e' ∨ c = 'E') ∧
      ∀ rest', Detached rest rest' → scanFraction count (read ++ rest') = some (n, rest') := by
  unfold scanFraction at h
  split at h
  · next cs =>
    dsimp only at h
    have hscan : scanDigits isAsciiDigit false 0 cs = ((scanDigits isAsciiDigit false 0 cs).1,
      (scanDigits isAsciiDigit false 0 cs).2) := rfl
    obtain ⟨-, digits, hdigits, hagain⟩ := scanDigits_again (by decide) hscan
    obtain ⟨tail, htail, hhead, hagain'⟩ := scanExponent_again h
    rw [htail] at hdigits
    refine ⟨'.' :: (digits ++ tail), by simp [hdigits], ?_, fun rest' hrest' => ?_⟩
    · rintro c hc
      cases hc
      exact .inl rfl
    · have hnumber := hagain _ (undigited_append hrest'.severed fun c hc => .inr (hhead c hc))
      simp only [List.cons_append, List.append_assoc, scanFraction, hnumber]
      exact hagain' _ hrest'.severed
  · next hpoint =>
    obtain ⟨read, rfl, hhead, hagain⟩ := scanExponent_again h
    refine ⟨read, rfl, fun c hc => .inr (hhead c hc), fun rest' hrest' => ?_⟩
    rw [scanFraction]
    · exact hagain _ hrest'.severed
    · intro more hmore
      cases read with
      | nil =>
        rw [List.nil_append] at hmore
        obtain ⟨more', hrest⟩ := List.head?_eq_some_iff.1 (hrest'.point (by rw [hmore]; rfl))
        exact hpoint more' hrest
      | cons c read =>
        obtain ⟨rfl, -⟩ := List.cons.inj hmore
        exact hpoint _ rfl

theorem scanWhole_again (hdigit : ∀ c, isDigit c = true → isNamePart c = true)
    (hmark : isDigit '_' = false) (hbig : isDigit 'n' = false)
    (h : scanWhole isDigit count cs = some (n, rest)) :
    ∃ read, cs = read ++ rest ∧
      ∀ rest', Severed rest' → scanWhole isDigit count (read ++ rest') = some (n, rest') := by
  unfold scanWhole at h
  split at h
  · cases h
  · next hpos hscan =>
    cases h
    obtain ⟨-, digits, rfl, hagain⟩ := scanDigits_again hmark hscan
    refine ⟨digits ++ ['n'], by simp, fun rest' hrest' => ?_⟩
    have hend : Undigited isDigit ('n' :: rest') := by
      rintro c hc
      cases hc
      exact ⟨hbig, by decide⟩
    simp only [scanWhole, List.append_assoc, List.singleton_append, hagain _ hend]
  · next hpos hbig hscan =>
    cases h
    obtain ⟨-, digits, rfl, hagain⟩ := scanDigits_again hmark hscan
    refine ⟨digits, rfl, fun rest' hrest' => ?_⟩
    simp only [scanWhole, hagain _ (hrest'.undigited hdigit)]
    split
    · next heq =>
      cases heq
      exact absurd rfl hpos
    · next heq =>
      cases heq
      exact absurd (hrest' _ rfl).1 (by decide)
    · next heq =>
      cases heq
      rfl

/-- The characters that make another number of a zero before them. -/
def radixMarks : List Char := ['x', 'X', 'o', 'O', 'b', 'B', 'n']

theorem scanNumeral?_zero
    (h : ∀ c, rest.head? = some c → isAsciiDigit c = false ∧ c ∉ radixMarks) :
    scanNumeral? ('0' :: rest) = scanFraction 1 rest := by
  cases rest with
  | nil => rfl
  | cons c rest =>
    obtain ⟨hdigit, hradix⟩ := h c rfl
    simp only [radixMarks, List.mem_cons, List.not_mem_nil, or_false, not_or] at hradix
    unfold scanNumeral?
    split <;> grind

theorem scanNumeral?_legacy {c : Char} (hc : isAsciiDigit c = true) {digits : List Char}
    (hdigits : ∀ d ∈ c :: digits, isAsciiDigit d = true) (hrest : Undigited isAsciiDigit rest) :
    scanNumeral? ('0' :: c :: (digits ++ rest)) =
      if (c :: digits).all isOctalDigit then some (1 + (c :: digits).length, rest)
      else scanFraction (1 + (c :: digits).length) rest := by
  have htake : (c :: digits ++ rest).takeWhile isAsciiDigit = c :: digits := by
    rw [List.takeWhile_append_of_pos hdigits]
    cases rest with
    | nil => simp
    | cons d rest => rw [List.takeWhile_cons, (hrest d rfl).1]; simp
  have hdrop : (c :: digits ++ rest).dropWhile isAsciiDigit = rest := by
    rw [List.dropWhile_append_of_pos hdigits]
    cases rest with
    | nil => rfl
    | cons d rest => rw [List.dropWhile_cons, (hrest d rfl).1]; simp
  have hradix : c ∉ radixMarks := by
    have hall : radixMarks.all (fun c => isAsciiDigit c == false) = true := by decide
    intro hmem
    rw [beq_iff_eq.1 (List.all_eq_true.1 hall c hmem)] at hc
    cases hc
  simp only [radixMarks, List.mem_cons, List.not_mem_nil, or_false, not_or] at hradix
  rw [List.cons_append] at htake hdrop
  unfold scanNumeral?
  split
  case h_8 heq =>
    cases heq
    rw [if_pos hc, htake, hdrop]
  all_goals grind

theorem scanNumeral?_digit {c : Char} (hc : isAsciiDigit c = true) (hzero : c ≠ '0') :
    scanNumeral? (c :: cs) = match scanDigits isAsciiDigit false 0 (c :: cs) with
      | (n, 'n' :: rest) => some (n + 1, rest)
      | (n, rest) => scanFraction n rest := by
  have hpoint : c ≠ '.' := by
    rintro rfl
    cases hc
  unfold scanNumeral?
  split <;> grind

/-- No part of a name is a digit or makes another number of a zero. -/
theorem Severed.not_radix {rest' : List Char} (hrest' : Severed rest') (d : Char)
    (hd : rest'.head? = some d) : isAsciiDigit d = false ∧ d ∉ radixMarks := by
  obtain ⟨hpart, -⟩ := hrest' d hd
  constructor
  · rw [← Bool.not_eq_true]
    intro hdigit
    rw [isNamePart_of_isAsciiDigit hdigit] at hpart
    cases hpart
  · have hall : radixMarks.all isNamePart = true := by decide
    intro hmem
    rw [List.all_eq_true.1 hall d hmem] at hpart
    cases hpart

/-- Digits that a zero stands before are read again, in the old octal form or another one. -/
theorem scanNumeral?_again_of_digits {c : Char} {digits past : List Char}
    (hdigits : ∀ d ∈ c :: digits, isAsciiDigit d = true)
    (h : (if (c :: digits).all isOctalDigit then some (1 + (c :: digits).length, past)
      else scanFraction (1 + (c :: digits).length) past) = some (n, rest)) :
    ∃ read, c :: digits ++ past = read ++ rest ∧ ∀ rest', Detached rest rest' →
      scanNumeral? ('0' :: (read ++ rest')) = some (n, rest') := by
  have hdigit := hdigits c List.mem_cons_self
  split at h
  · next hoctal =>
    cases h
    refine ⟨c :: digits, rfl, fun rest' hrest' => ?_⟩
    rw [List.cons_append, scanNumeral?_legacy hdigit hdigits
      (hrest'.severed.undigited fun _ => isNamePart_of_isAsciiDigit), if_pos hoctal]
  · next hoctal =>
    obtain ⟨read, hread, hhead, hagain⟩ := scanFraction_again h
    rw [hread]
    refine ⟨c :: digits ++ read, by simp, fun rest' hrest' => ?_⟩
    rw [List.append_assoc, List.cons_append, scanNumeral?_legacy hdigit hdigits
      (undigited_append hrest'.severed hhead), if_neg hoctal, hagain _ hrest']

/-- A zero before no other digit is read again with the fraction behind it. -/
theorem scanNumeral?_again_of_zero (h : scanFraction 1 cs = some (n, rest)) :
    ∃ read, cs = read ++ rest ∧ ∀ rest', Detached rest rest' →
      scanNumeral? ('0' :: (read ++ rest')) = some (n, rest') := by
  obtain ⟨read, hread, hhead, hagain⟩ := scanFraction_again h
  refine ⟨read, hread, fun rest' hrest' => ?_⟩
  rw [scanNumeral?_zero, hagain _ hrest']
  cases read with
  | nil => exact hrest'.severed.not_radix
  | cons e read =>
    rintro _ ⟨⟩
    obtain rfl | rfl | rfl := hhead e rfl <;> decide

/-- A digit at the head of a text is among those that are read. -/
theorem scanDigits_again_of_digit {c : Char} {k : Nat} {tail : List Char}
    (hdigit : isAsciiDigit c = true)
    (hscan : scanDigits isAsciiDigit false 0 (c :: cs) = (k, tail)) :
    ∃ digits, cs = digits ++ tail ∧ ∀ tail', Undigited isAsciiDigit tail' →
      scanDigits isAsciiDigit false 0 (c :: (digits ++ tail')) = (k, tail') := by
  have hword : c ≠ '_' := by
    rintro rfl
    cases hdigit
  obtain ⟨-, digits, hread, hagain⟩ := scanDigits_again (by decide) hscan
  cases digits with
  | nil =>
    have hnil : scanDigits isAsciiDigit false 0 [] = (k, []) := hagain [] nofun
    cases hnil
    exact absurd (scanDigits_lt isPlain_of_isAsciiDigit hdigit hword hscan) (Nat.lt_irrefl _)
  | cons d digits =>
    obtain ⟨rfl, hcs⟩ := List.cons.inj hread
    exact ⟨digits, hcs, hagain⟩

/-- A number that no zero starts is read again. -/
theorem scanNumeral?_again_of_digit {c : Char} (hdigit : isAsciiDigit c = true) (hzero : c ≠ '0')
    (h : scanNumeral? (c :: cs) = some (n, rest)) :
    ∃ read, cs = read ++ rest ∧ ∀ rest', Detached rest rest' →
      scanNumeral? (c :: (read ++ rest')) = some (n, rest') := by
  rw [scanNumeral?_digit hdigit hzero] at h
  split at h
  · next hscan =>
    cases h
    obtain ⟨digits, rfl, hagain⟩ := scanDigits_again_of_digit hdigit hscan
    refine ⟨digits ++ ['n'], by simp, fun rest' hrest' => ?_⟩
    have hbig : Undigited isAsciiDigit ('n' :: rest') := by
      rintro c ⟨⟩
      decide
    rw [scanNumeral?_digit hdigit hzero, List.append_assoc, List.singleton_append, hagain _ hbig]
    rfl
  · next k tail htail hscan =>
    obtain ⟨digits, rfl, hagain⟩ := scanDigits_again_of_digit hdigit hscan
    obtain ⟨read, rfl, hhead, hagain'⟩ := scanFraction_again h
    refine ⟨digits ++ read, by simp, fun rest' hrest' => ?_⟩
    rw [scanNumeral?_digit hdigit hzero, List.append_assoc,
      hagain _ (undigited_append hrest'.severed hhead), ← hagain' _ hrest']
    split
    · next heq =>
      obtain ⟨-, htail⟩ := Prod.mk.inj heq
      cases read with
      | nil =>
        exact absurd (hrest'.severed 'n' (by rw [← List.nil_append rest', htail]; rfl)).1
          (by decide)
      | cons d read =>
        obtain ⟨rfl, -⟩ := List.cons.inj htail
        exact absurd (hhead _ rfl) (by decide)
    · next heq =>
      obtain ⟨rfl, rfl⟩ := Prod.mk.inj heq
      rfl

/-- A number is read again, whatever its form. -/
theorem scanNumeral?_again {c : Char}
    (hc : (isAsciiDigit c || (c == '.' && cs.head?.any isAsciiDigit)) = true)
    (h : scanNumeral? (c :: cs) = some (n, rest)) :
    ∃ read, c :: cs = c :: (read ++ rest) ∧ ∀ rest', Detached rest rest' →
      scanNumeral? (c :: (read ++ rest')) = some (n, rest') := by
  have hlt := scanNumeral?_lt hc h
  have hwhole := h
  unfold scanNumeral? at h
  split at h
  case h_1 heq | h_2 heq =>
    cases heq
    obtain ⟨read, rfl, hagain⟩ := scanWhole_again (fun _ => isNamePart_of_isHexDigit)
      (by decide) (by decide) h
    exact ⟨_ :: read, rfl, fun rest' hrest' => hagain _ hrest'.severed⟩
  case h_3 heq | h_4 heq =>
    cases heq
    obtain ⟨read, rfl, hagain⟩ := scanWhole_again
      (fun _ hdigit => isNamePart_of_isHexDigit (isHexDigit_of_isOctalDigit hdigit))
      (by decide) (by decide) h
    exact ⟨_ :: read, rfl, fun rest' hrest' => hagain _ hrest'.severed⟩
  case h_5 heq | h_6 heq =>
    cases heq
    have hbit (c : Char) (hc : (c == '0' || c == '1') = true) : isNamePart c = true := by
      rw [Bool.or_eq_true, beq_iff_eq, beq_iff_eq] at hc
      obtain rfl | rfl := hc <;> decide
    obtain ⟨read, rfl, hagain⟩ := scanWhole_again hbit (by decide) (by decide) h
    exact ⟨_ :: read, rfl, fun rest' hrest' => hagain _ hrest'.severed⟩
  case h_7 heq =>
    cases heq
    cases h
    exact ⟨['n'], rfl, fun rest' hrest' => rfl⟩
  case h_8 d more _ _ _ _ _ _ _ heq =>
    cases heq
    split at h
    · next hdigit =>
      have hdigits : ∀ c ∈ (d :: more).takeWhile isAsciiDigit, isAsciiDigit c = true :=
        fun c hc => List.all_eq_true.1 List.all_takeWhile c hc
      have hsplit : (d :: more).takeWhile isAsciiDigit ++ (d :: more).dropWhile isAsciiDigit =
          d :: more := List.takeWhile_append_dropWhile
      dsimp only at h
      rw [List.takeWhile_cons, if_pos hdigit] at h hdigits hsplit
      obtain ⟨read, hread, hagain⟩ := scanNumeral?_again_of_digits hdigits h
      exact ⟨read, congrArg _ (hsplit.symm.trans hread), hagain⟩
    · obtain ⟨read, hread, hagain⟩ := scanNumeral?_again_of_zero h
      exact ⟨read, congrArg _ hread, hagain⟩
  case h_9 heq =>
    cases heq
    obtain ⟨read, hread, hhead, hagain⟩ := scanFraction_again h
    cases read with
    | nil =>
      have hnil : scanFraction 0 [] = some (n, []) := hagain [] ⟨nofun, nofun⟩
      cases hnil
      exact absurd hlt (Nat.lt_irrefl _)
    | cons d read =>
      obtain ⟨rfl, hrest⟩ := List.cons.inj hread
      exact ⟨read, congrArg _ hrest, fun rest' hrest' => hagain _ hrest'⟩
  case h_10 hzero hpoint =>
    have hother : c ≠ '.' := by
      rintro rfl
      exact hpoint _ rfl
    have hdigit : isAsciiDigit c = true := by simpa [hother] using hc
    by_cases hc0 : c = '0'
    · subst hc0
      cases cs with
      | cons d more => exact absurd rfl (hzero d more)
      | nil =>
        have hfraction : scanFraction 1 [] = some (n, rest) := h
        obtain ⟨read, hread, hagain⟩ := scanNumeral?_again_of_zero hfraction
        exact ⟨read, congrArg _ hread, hagain⟩
    · obtain ⟨read, hread, hagain⟩ := scanNumeral?_again_of_digit hdigit hc0 hwhole
      exact ⟨read, congrArg _ hread, hagain⟩

theorem scanNumber?_again {c : Char}
    (hc : (isAsciiDigit c || (c == '.' && cs.head?.any isAsciiDigit)) = true)
    (h : scanNumber? (c :: cs) = some (n, rest)) :
    Severed rest ∧ ∃ read, c :: cs = c :: (read ++ rest) ∧ ∀ rest', Detached rest rest' →
      scanNumber? (c :: (read ++ rest')) = some (n, rest') := by
  simp only [scanNumber?, Option.bind_eq_bind, Option.bind_eq_some_iff] at h
  obtain ⟨⟨count, tail⟩, hcount, htail⟩ := h
  obtain ⟨read, hread, hagain⟩ := scanNumeral?_again hc hcount
  obtain ⟨rfl, rfl, hsevered⟩ : n = count ∧ rest = tail ∧ Severed rest := by
    dsimp only at htail
    split at htail
    · split at htail
      · cases htail
      · next hends =>
        cases htail
        refine ⟨rfl, rfl, ?_⟩
        rintro d ⟨⟩
        simpa using hends
    · cases htail
      exact ⟨rfl, rfl, severed_nil⟩
  refine ⟨hsevered, read, hread, fun rest' hrest' => ?_⟩
  simp only [scanNumber?, Option.bind_eq_bind, hagain _ hrest', Option.bind_some]
  cases rest' with
  | nil => rfl
  | cons d rest' =>
    obtain ⟨hpart, hslash⟩ := hrest'.severed d rfl
    simp [hpart, hslash]

end Rebind.Snippet
