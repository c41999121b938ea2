import Rebind.Snippet.Token
import Rebind.Text.Blank

/-!
# Reading past characters

A reader of characters goes past a beginning of the text before it, and its answer has the offset
and the text past that beginning (`Passes`).  What matters about the beginning is whether blanks
are in it: a text is `Shown` if it has none, and `Solid` if it has none at its ends.
-/

namespace Rebind.Snippet

open Rebind.Text (byteSize byteSize_nil byteSize_cons byteSize_append isBlank)
open Rebind.Unicode (isNameStart isNamePart isAsciiDigit)

variable {offset middle stop : Nat} {cs mid rest read : List Char} {P Q R : List Char → Prop}

/-! ## Reading -/

/-- A reader goes from an offset of a text to another one, past a beginning that `P` holds of. -/
def Passes (P : List Char → Prop) (offset : Nat) (cs : List Char) (stop : Nat)
    (rest : List Char) : Prop :=
  ∃ read, P read ∧ cs = read ++ rest ∧ stop = offset + byteSize read

/-- What holds of every text. -/
def Whatever (_ : List Char) : Prop := True

namespace Passes

theorem refl : Passes Whatever offset cs offset cs :=
  ⟨[], trivial, rfl, rfl⟩

theorem of (h : Passes P offset cs stop rest) (hPQ : ∀ read, P read → Q read) :
    Passes Q offset cs stop rest := by
  obtain ⟨read, hread, h⟩ := h
  exact ⟨read, hPQ read hread, h⟩

theorem trans (h : Passes P offset cs middle mid) (h' : Passes Q middle mid stop rest)
    (hR : ∀ front back, P front → Q back → R (front ++ back)) :
    Passes R offset cs stop rest := by
  obtain ⟨front, hfront, rfl, rfl⟩ := h
  obtain ⟨back, hback, rfl, rfl⟩ := h'
  refine ⟨front ++ back, hR front back hfront hback, ?_, ?_⟩
  · rw [List.append_assoc]
  · rw [byteSize_append, Nat.add_assoc]

/-- A reader that goes on past a character. -/
theorem cons {c : Char} {size : Nat} (hc : c.utf8Size = size)
    (h : Passes P (offset + size) cs stop rest) (hQ : ∀ read, P read → Q (c :: read)) :
    Passes Q offset (c :: cs) stop rest := by
  obtain ⟨read, hread, rfl, rfl⟩ := h
  exact ⟨c :: read, hQ read hread, rfl, by rw [byteSize_cons, hc, Nat.add_assoc]⟩

/-- A reader that goes on past a character, whatever it is. -/
theorem past {c : Char} {size : Nat} (hc : c.utf8Size = size)
    (h : Passes P (offset + size) cs stop rest) : Passes Whatever offset (c :: cs) stop rest :=
  h.cons hc fun _ _ => trivial

/-- A reader that counts what it reads, from an offset on. -/
theorem shift {count : Nat} (h : Passes P 0 cs count rest) (offset : Nat) :
    Passes P offset cs (offset + count) rest := by
  obtain ⟨read, hread, hcs, rfl⟩ := h
  exact ⟨read, hread, hcs, by rw [Nat.zero_add]⟩

theorem le (h : Passes P offset cs stop rest) : offset ≤ stop := by
  obtain ⟨read, -, -, rfl⟩ := h
  exact Nat.le_add_right _ _

theorem suffix (h : Passes P offset cs stop rest) : rest <:+ cs := by
  obtain ⟨read, -, rfl, -⟩ := h
  exact List.suffix_append read rest

theorem add_byteSize (h : Passes P offset cs stop rest) :
    stop + byteSize rest = offset + byteSize cs := by
  obtain ⟨read, -, rfl, rfl⟩ := h
  rw [byteSize_append, Nat.add_assoc]

theorem ne_nil (h : Passes P offset cs stop rest) (hlt : offset < stop) :
    Passes (fun read => P read ∧ read ≠ []) offset cs stop rest := by
  obtain ⟨read, hread, rfl, rfl⟩ := h
  refine ⟨read, ⟨hread, ?_⟩, rfl, rfl⟩
  rintro rfl
  exact Nat.lt_irrefl _ hlt

end Passes

/-! ## Characters that show -/

/-- A character of one byte that is not blank. -/
def IsPlain (c : Char) : Prop :=
  c.utf8Size = 1 ∧ isBlank c = false

theorem char_le_iff (a b : Char) : a ≤ b ↔ a.toNat ≤ b.toNat := by
  rw [Char.le_def, UInt32.le_iff_toNat_le]
  rfl

theorem char_eq_iff (a b : Char) : a = b ↔ a.toNat = b.toNat :=
  Char.toNat_inj.symm

theorem isPlain_of_le {c : Char} (hlow : '!' ≤ c) (hhigh : c ≤ '~') : IsPlain c := by
  rw [char_le_iff] at hlow hhigh
  simp [IsPlain, isBlank, Char.utf8Size, char_le_iff, char_eq_iff, UInt32.le_iff_toNat_le] at *
  omega

theorem isPlain_of_range {c low high : Char} (hlow : '!' ≤ low) (hhigh : high ≤ '~')
    (h : (decide (low ≤ c) && decide (c ≤ high)) = true) : IsPlain c := by
  simp only [Bool.and_eq_true, decide_eq_true_eq] at h
  exact isPlain_of_le (Char.le_trans hlow h.1) (Char.le_trans h.2 hhigh)

theorem isPlain_of_isAsciiDigit {c : Char} (h : isAsciiDigit c = true) : IsPlain c :=
  isPlain_of_range (by decide) (by decide) h

theorem isPlain_of_isOctalDigit {c : Char} (h : isOctalDigit c = true) : IsPlain c :=
  isPlain_of_range (by decide) (by decide) h

theorem isPlain_of_isHexDigit {c : Char} (h : isHexDigit c = true) : IsPlain c := by
  unfold isHexDigit hexDigit? at h
  split at h
  · next hc => exact isPlain_of_range (by decide) (by decide) hc
  split at h
  · next hc => exact isPlain_of_range (by decide) (by decide) hc
  split at h
  · next hc => exact isPlain_of_range (by decide) (by decide) hc
  · cases h

theorem isPlain_of_isBit {c : Char} (h : (c == '0' || c == '1') = true) : IsPlain c := by
  rw [Bool.or_eq_true, beq_iff_eq, beq_iff_eq] at h
  rcases h with rfl | rfl <;> exact isPlain_of_le (by decide) (by decide)

/-- The blank characters. -/
def blanks : List Char :=
  ['\t', '\n', '\u000b', '\u000c', '\r', ' ', '\u0085', '\u00a0', '\u1680', '\u2000', '\u2001',
    '\u2002', '\u2003', '\u2004', '\u2005', '\u2006', '\u2007', '\u2008', '\u2009', '\u200a',
    '\u2028', '\u2029', '\u202f', '\u205f', '\u3000']

theorem mem_blanks {c : Char} (h : isBlank c = true) : c ∈ blanks := by
  simp [isBlank, blanks, char_le_iff, char_eq_iff] at h ⊢
  omega

/-- No blank is a part of a name. -/
theorem isBlank_of_isNamePart {c : Char} (h : isNamePart c = true) : isBlank c = false := by
  have hall : blanks.all (fun c => isNamePart c == false) = true := by decide +kernel
  rw [← Bool.not_eq_true]
  intro hblank
  rw [beq_iff_eq.1 (List.all_eq_true.1 hall c (mem_blanks hblank))] at h
  cases h

theorem isBlank_of_isNameStart {c : Char} (h : isNameStart c = true) : isBlank c = false :=
  isBlank_of_isNamePart (by simp [isNamePart, h])

/-! ### Texts -/

/-- Every character is plain. -/
def Plain (cs : List Char) : Prop :=
  ∀ c ∈ cs, IsPlain c

/-- No character is blank. -/
def Shown (cs : List Char) : Prop :=
  ∀ c ∈ cs, isBlank c = false

/-- The text is not empty, and neither starts nor ends with a blank. -/
structure Solid (cs : List Char) : Prop where
  head : ∃ c, cs.head? = some c ∧ isBlank c = false
  last : ∃ c, cs.getLast? = some c ∧ isBlank c = false

theorem Plain.append {front back : List Char} (hfront : Plain front) (hback : Plain back) :
    Plain (front ++ back) :=
  List.forall_mem_append.2 ⟨hfront, hback⟩

theorem Plain.shown (h : Plain read) : Shown read :=
  fun c hc => (h c hc).2

theorem Plain.byteSize_eq (h : Plain read) : byteSize read = read.length :=
  Text.byteSize_eq_length fun c hc => (h c hc).1

theorem Shown.append {front back : List Char} (hfront : Shown front) (hback : Shown back) :
    Shown (front ++ back) :=
  List.forall_mem_append.2 ⟨hfront, hback⟩

theorem Shown.solid (h : Shown read) (hne : read ≠ []) : Solid read where
  head := ⟨read.head hne, List.head?_eq_some_head hne, h _ (List.head_mem hne)⟩
  last := ⟨read.getLast hne, List.getLast?_eq_some_getLast hne, h _ (List.getLast_mem hne)⟩

/-- A text between two marks. -/
theorem solid_of_ends {first last : Char} {inner : List Char} (hfirst : isBlank first = false)
    (hlast : isBlank last = false) : Solid (first :: (inner ++ [last])) where
  head := ⟨first, rfl, hfirst⟩
  last := ⟨last, by simp [List.getLast?_cons], hlast⟩

theorem byteSize_pos (hne : read ≠ []) : 0 < byteSize read := by
  cases read with
  | nil => exact absurd rfl hne
  | cons c read =>
    have hsize := c.utf8Size_pos
    rw [byteSize_cons]
    omega

theorem Solid.ne_nil (h : Solid read) : read ≠ [] := by
  rintro rfl
  obtain ⟨c, hc, -⟩ := h.head
  cases hc

end Rebind.Snippet
