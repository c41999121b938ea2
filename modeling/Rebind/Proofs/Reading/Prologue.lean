import Rebind.Proofs.Reading.Openings

/-!
# The string literals that a text begins with

`prologue` reads statements from the head of a text as long as they are string literals, each with
a semicolon behind it.  These are the directives of a function with that text between its braces.
Where no character but blanks and line breaks comes before the next token, the reader agrees with
the tokens of the text about what comes past a literal (`scan_semicolon`).
-/

namespace Rebind.Snippet

open Rebind.Text (Span byteSize byteSize_cons)
open Rebind.Grammar (isMark)

/-- Whether the character stands between tokens. -/
def isGap (c : Char) : Bool := isSpace c || isLineBreak c

/-- A string literal with a semicolon at the head of a text, and the text past it. -/
def directive? (cs : List Char) : Option (List Char × List Char) :=
  match literal? (cs.dropWhile isGap) with
  | none => none
  | some (text, rest) =>
    match rest.dropWhile isGap with
    | ';' :: more => some (text, more)
    | _ => none

theorem length_lt_of_directive? {cs text more : List Char} (h : directive? cs = some (text, more)) :
    more.length < cs.length := by
  unfold directive? at h
  split at h
  · cases h
  · next text' rest hliteral =>
    split at h
    · next more' hrest =>
      cases h
      have hcs := (literal?_eq_append hliteral).1
      have hle := (List.dropWhile_suffix (l := cs) isGap).length_le
      have hle' := (List.dropWhile_suffix (l := rest) isGap).length_le
      rw [hcs, List.length_append] at hle
      rw [hrest, List.length_cons] at hle'
      exact Nat.lt_of_lt_of_le hle' (Nat.le_trans (Nat.le_add_left _ _) hle)
    · cases h

/-- The string literals at the head of a text, each with a semicolon behind it. -/
def prologue (cs : List Char) : List (List Char) :=
  match _h : directive? cs with
  | none => []
  | some (text, more) => text :: prologue more
termination_by cs.length
decreasing_by exact length_lt_of_directive? _h

variable {cs text rest more gaps : List Char} {c : Char} {offset : Nat}

theorem prologue_of_none (h : directive? cs = none) : prologue cs = [] := by
  rw [prologue]
  split
  · rfl
  · next hsome => cases h.symm.trans hsome

theorem prologue_of_some (h : directive? cs = some (text, more)) :
    prologue cs = text :: prologue more := by
  rw [prologue]
  split
  · next hnone => cases h.symm.trans hnone
  · next hsome =>
    cases h.symm.trans hsome
    rfl

/-- Blanks before a statement make no difference. -/
theorem directive?_gaps (hgaps : ∀ c ∈ gaps, isGap c = true) :
    directive? (gaps ++ cs) = directive? cs := by
  rw [directive?, List.dropWhile_append_of_pos hgaps, directive?]

theorem prologue_gaps (hgaps : ∀ c ∈ gaps, isGap c = true) :
    prologue (gaps ++ cs) = prologue cs := by
  cases h : directive? cs with
  | none =>
    rw [prologue_of_none h, prologue_of_none ((directive?_gaps hgaps).trans h)]
  | some found =>
    rw [prologue_of_some h, prologue_of_some ((directive?_gaps hgaps).trans h)]

/-- Another character comes first. -/
theorem prologue_other (hgap : isGap c = false) (hquote : isQuote c = false) :
    prologue (c :: cs) = [] := by
  refine prologue_of_none ?_
  rw [directive?, List.dropWhile_cons_of_neg (by simp [hgap]), literal?, if_neg (by simp [hquote])]

theorem IsLiteral.dropWhile_gap (h : IsLiteral text) :
    (text ++ rest).dropWhile isGap = text ++ rest := by
  obtain ⟨c, more, rfl, hc⟩ := h.head
  rw [isQuote, Bool.or_eq_true, beq_iff_eq, beq_iff_eq] at hc
  refine List.dropWhile_cons_of_neg ?_
  obtain rfl | rfl := hc <;> decide

/-- A literal comes first, with a semicolon behind it. -/
theorem prologue_literal (h : IsLiteral text) :
    prologue (text ++ ';' :: more) = text :: prologue more := by
  refine prologue_of_some ?_
  rw [directive?, h.dropWhile_gap, h]
  rfl

/-- A literal comes first, with something else than a semicolon behind it. -/
theorem prologue_goesOn (h : IsLiteral text) (hrest : (rest.dropWhile isGap).head? ≠ some ';') :
    prologue (text ++ rest) = [] := by
  refine prologue_of_none ?_
  rw [directive?, h.dropWhile_gap, h]
  dsimp only
  split
  · next hhead =>
    rw [hhead] at hrest
    exact absurd rfl hrest
  · rfl

/-! ## Gaps between tokens -/

theorem skipGap_gaps (hgaps : ∀ c ∈ gaps, isGap c = true) (broken : Bool) :
    ∃ isBroken, skipGap .blank offset broken (gaps ++ cs) =
      skipGap .blank (offset + byteSize gaps) isBroken cs := by
  induction gaps generalizing offset broken with
  | nil => exact ⟨broken, rfl⟩
  | cons c gaps ih =>
    obtain ⟨hc, hgaps⟩ := List.forall_mem_cons.1 hgaps
    rw [List.cons_append, skipGap, byteSize_cons, ← Nat.add_assoc]
    rw [isGap, Bool.or_eq_true] at hc
    split
    · exact ih hgaps broken
    · next hspace =>
      rw [if_pos (hc.resolve_left hspace)]
      exact ih hgaps true

/-- The next token starts past the blanks. -/
theorem le_start_of_scan_gaps {l : Lexeme} (hgaps : ∀ c ∈ gaps, isGap c = true)
    (h : Lexeme.scan offset (gaps ++ cs) = .ok l) : offset + byteSize gaps ≤ l.start := by
  obtain ⟨⟨start, isBroken, here⟩, hgap, h⟩ := exists_ok_of_bind h
  obtain ⟨⟨token, stop, rest⟩, -, h⟩ := exists_ok_of_bind h
  cases h
  obtain ⟨_, hskip⟩ := skipGap_gaps hgaps false
  rw [hskip] at hgap
  exact (skipGap_passes hgap).le

/-- A semicolon past blanks is the next token. -/
theorem scan_semicolon {l : Lexeme} (hgaps : ∀ c ∈ gaps, isGap c = true)
    (h : Lexeme.scan offset (gaps ++ ';' :: cs) = .ok l) : isMark l.token ";" = true := by
  obtain ⟨⟨start, isBroken, here⟩, hgap, h⟩ := exists_ok_of_bind h
  obtain ⟨⟨token, stop, rest⟩, htoken, h⟩ := exists_ok_of_bind h
  cases h
  obtain ⟨_, hskip⟩ := skipGap_gaps hgaps false
  rw [hskip] at hgap
  cases hgap
  cases htoken
  rfl

/-! ## The first character of a token -/

/-- Characters between tokens are blank, but one that is no blank elsewhere. -/
theorem isBlank_of_isGap (h : isGap c = true) : Text.isBlank c = true ∨ c = '\ufeff' := by
  simp only [isGap, isSpace, isLineBreak, Bool.or_eq_true, beq_iff_eq, Bool.and_eq_true,
    decide_eq_true_eq] at h
  rcases h with ((((((((((rfl | rfl) | rfl) | rfl) | rfl) | rfl) | rfl) | h) | rfl) | rfl) | rfl) |
    ((rfl | rfl) | rfl) | rfl
  case inl.inl.inl.inl.inr => exact .inl (by simp [Text.isBlank, h])
  all_goals decide

theorem isGap_of_isNameStart (h : Unicode.isNameStart c = true) : isGap c = false := by
  rw [← Bool.not_eq_true]
  intro hgap
  obtain hblank | rfl := isBlank_of_isGap hgap
  · rw [isBlank_of_isNameStart h] at hblank
    cases hblank
  · revert h
    decide +kernel

theorem isQuote_of_isNameStart (h : Unicode.isNameStart c = true) : isQuote c = false := by
  rw [← Bool.not_eq_true, isQuote, Bool.or_eq_true, beq_iff_eq, beq_iff_eq]
  rintro (rfl | rfl) <;> revert h <;> decide

/-- No token starts with a character that stands between tokens. -/
theorem isGap_of_scanToken {token : Token} {start stop : Nat}
    (h : scanToken start (c :: cs) = .ok (token, stop, rest)) : isGap c = false := by
  rw [← Bool.not_eq_true]
  intro hgap
  obtain hblank | rfl := isBlank_of_isGap hgap
  · obtain ⟨-, hnil, -⟩ | ⟨read, hsolid, hread, -⟩ := (scanToken_takes h).taken
    · cases hnil
    · obtain ⟨d, hd, hshown⟩ := hsolid.head
      obtain ⟨more, rfl⟩ := List.head?_eq_some_iff.1 hd
      rw [(List.cons.inj hread).1, hshown] at hblank
      cases hblank
  · have hpunctuator : punctuator? ('\ufeff' :: cs) = none := rfl
    have hstart : Unicode.isNameStart '\ufeff' = false := by decide +kernel
    have hdigit : Unicode.isAsciiDigit '\ufeff' = false := by decide
    simp [scanToken, hstart, hdigit, hpunctuator] at h

/-- No semicolon comes next in a text that goes on past blanks with another token, or with a name
in its place. -/
theorem head_ne_semicolon {past tail : List Char} {next : Lexeme}
    (h : Lexeme.scan offset (past ++ rest) = .ok next) (hmark : isMark next.token ";" = false)
    (hpast : next.start < offset + byteSize past ∨
      ∃ c cs, tail = c :: cs ∧ Unicode.isNameStart c = true) :
    ((past ++ tail).dropWhile isGap).head? ≠ some ';' := by
  have hgaps : ∀ c ∈ past.takeWhile isGap, isGap c = true := List.all_eq_true.1 List.all_takeWhile
  have hsplit : past.takeWhile isGap ++ past.dropWhile isGap = past :=
    List.takeWhile_append_dropWhile
  cases hd : past.dropWhile isGap with
  | nil =>
    rw [hd, List.append_nil] at hsplit
    rw [hsplit] at hgaps
    rw [List.dropWhile_append_of_pos hgaps]
    obtain hlt | ⟨c, cs, rfl, hc⟩ := hpast
    · have hle := le_start_of_scan_gaps hgaps h
      omega
    · rw [List.dropWhile_cons_of_neg (by simp [isGap_of_isNameStart hc])]
      rintro ⟨rfl⟩
      exact absurd hc (by decide)
  | cons d ds =>
    rw [List.dropWhile_append, hd]
    rintro ⟨rfl⟩
    rw [← hsplit, hd, List.append_assoc, List.cons_append] at h
    rw [scan_semicolon hgaps h] at hmark
    cases hmark

end Rebind.Snippet
