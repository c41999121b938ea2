import Rebind.Proofs.Copying.Answers

/-!
# Reading a text that is printed

A printed text is put together from marks, names, keys and copied expressions.  `State.Ahead` says
that a parser stands before such a text, with all of the text before it read, and `Restored` that
what it reads of the text looks the same as that from which the text was printed.
-/

namespace Rebind.Grammar

open Rebind.Text (Span byteSize byteSize_append byteSize_cons)
open Rebind.Unicode (isNameStart isNamePart isAsciiDigit)
open Rebind.Snippet
open Rebind.Grammar.Parser

/-- A parser stands before a text with which the source ends, and only blanks lie between that text
and the last token read.  No host form is met so far, and no other names are exported than the given
ones. -/
structure State.Ahead (source : List Char) (exports : List String) (text : List Char)
    (t : State) : Prop where
  scan : ∃ offset, t.lastStop ≤ offset ∧ offset + byteSize text = byteSize source ∧
    Lexeme.scan offset text = .ok t.lexeme
  suffix : text <:+ source
  limit_eq : t.limit = byteSize source
  hosts_eq : t.hosts = []
  exports_sub : t.exports ⊆ exports

/-- A text whose first token can be scanned. -/
def Scans (text : List Char) : Prop :=
  ∀ offset, ∃ l, Lexeme.scan offset text = .ok l

/-- The marks of patterns that are tokens of their own, whatever follows. -/
def loneMarks : List Char := ['[', ']', '\x7b', '\x7d', ',', ':']

theorem scan_mark {c : Char} (hc : c ∈ loneMarks) (offset : Nat) (text : List Char) :
    Lexeme.scan offset (c :: text) =
      .ok ⟨.punctuator (String.singleton c), offset, offset + 1, false, c :: text, text⟩ := by
  simp only [loneMarks, List.mem_cons, List.not_mem_nil, or_false] at hc
  rcases hc with rfl | rfl | rfl | rfl | rfl | rfl <;> rfl

theorem scans_mark {c : Char} (hc : c ∈ loneMarks) (text : List Char) : Scans (c :: text) :=
  fun offset => ⟨_, scan_mark hc offset text⟩

/-- A blank before a token makes no difference but that of the offset. -/
theorem scan_blank (offset : Nat) (text : List Char) :
    Lexeme.scan offset (' ' :: text) = Lexeme.scan (offset + 1) text := rfl

theorem Scans.blank {text : List Char} (h : Scans text) : Scans (' ' :: text) :=
  fun offset => h (offset + 1)

namespace State.Ahead

variable {source text : List Char} {exports : List String} {t : State}

/-- A blank before the text makes no difference. -/
theorem skip_blank (h : t.Ahead source exports (' ' :: text)) : t.Ahead source exports text := by
  obtain ⟨offset, hlast, hoffset, hl⟩ := h.scan
  have hsize : ' '.utf8Size = 1 := by decide
  rw [byteSize_cons, hsize] at hoffset
  exact { h with
    scan := ⟨offset + 1, by omega, by omega, hl⟩
    suffix := (List.suffix_cons _ _).trans h.suffix }

/-- The current token ends where the text behind it begins. -/
theorem stop_eq (h : t.Ahead source exports text) :
    t.lexeme.stop + byteSize t.lexeme.rest = byteSize source := by
  obtain ⟨offset, -, hoffset, hl⟩ := h.scan
  obtain ⟨-, -, hstands⟩ := Lexeme.scan_stands hoffset hl
  exact hstands.stop_add_byteSize

/-- Past a token the parser stands before the text behind it. -/
theorem advance {rest : List Char} (h : t.Ahead source exports text) (hrest : t.lexeme.rest = rest)
    (hscans : Scans rest) :
    Answers advance t fun _ t' => t'.Ahead source exports rest ∧ t'.lastStop = t.lexeme.stop := by
  obtain ⟨offset, hlast, hoffset, hl⟩ := h.scan
  obtain ⟨hle, hsuffix, hstands⟩ := Lexeme.scan_stands hoffset hl
  obtain ⟨next, hnext⟩ := hscans t.lexeme.stop
  rw [answers_advance]
  refine ⟨next, by rw [State.Next, hrest, hnext], ?_, rfl⟩
  subst hrest
  exact {
    scan := ⟨t.lexeme.stop, Nat.le_refl _, hstands.stop_add_byteSize, hnext⟩
    suffix := (hstands.takes.suffix.trans hsuffix).trans h.suffix
    limit_eq := h.limit_eq
    hosts_eq := h.hosts_eq
    exports_sub := h.exports_sub }

/-- The mark at the head of the text is the current token. -/
theorem lexeme_mark {c : Char} (hc : c ∈ loneMarks) (h : t.Ahead source exports (c :: text)) :
    t.lexeme.token = .punctuator (String.singleton c) ∧ t.lexeme.rest = text ∧
      t.lexeme.start + byteSize (c :: text) = byteSize source := by
  obtain ⟨offset, -, hoffset, hl⟩ := h.scan
  rw [Except.ok.inj (hl.symm.trans (scan_mark hc _ _))]
  exact ⟨rfl, rfl, hoffset⟩

theorem isMark_eq {c : Char} (hc : c ∈ loneMarks) (h : t.Ahead source exports (c :: text))
    (mark : String) : isMark t.lexeme.token mark = (String.singleton c == mark) := by
  rw [(h.lexeme_mark hc).1, isMark, Bool.eq_iff_iff, beq_iff_eq, beq_iff_eq,
    Token.punctuator.injEq]

theorem advance_mark {c : Char} (hc : c ∈ loneMarks) (h : t.Ahead source exports (c :: text))
    (hscans : Scans text) : Answers Parser.advance t fun _ t' => t'.Ahead source exports text :=
  (h.advance (h.lexeme_mark hc).2.1 hscans).of fun _ _ h => h.1

end State.Ahead

/-! ## Texts that are read again -/

/-- A text that goes on with one of some marks, and whose first token can be scanned. -/
structure Follows (marks : List Char) (text : List Char) : Prop where
  head : ∃ c ∈ marks, text.head? = some c
  scans : Scans text

theorem follows_mark {c : Char} {marks : List Char} (hc : c ∈ loneMarks) (hmarks : c ∈ marks)
    (text : List Char) : Follows marks (c :: text) :=
  ⟨⟨c, hmarks, rfl⟩, scans_mark hc text⟩

namespace Follows

variable {marks marks' text : List Char}

theorem mono (h : Follows marks text) (hsub : marks ⊆ marks') : Follows marks' text := by
  obtain ⟨⟨c, hc, hhead⟩, hscans⟩ := h
  exact ⟨⟨c, hsub hc, hhead⟩, hscans⟩

theorem severed (h : Follows endMarks text) : Severed text := by
  obtain ⟨c, hmem, hc⟩ := h.head
  intro d hd
  obtain rfl : c = d := Option.some.inj (hc.symm.trans hd)
  refine ⟨isNamePart_of_mem_endMarks hmem, ?_⟩
  rintro rfl
  exact absurd hmem (by decide)

theorem exists_cons (h : Follows marks text) : ∃ c tail, c ∈ marks ∧ text = c :: tail := by
  obtain ⟨⟨c, hc, hhead⟩, -⟩ := h
  obtain ⟨tail, rfl⟩ := List.head?_eq_some_iff.1 hhead
  exact ⟨c, tail, hc, rfl⟩

end Follows

/-- The first token of a text, which stands at its head, is no punctuator of the given ones. -/
def Begins (marks : List String) (text : List Char) : Prop :=
  ∀ offset rest, Follows endMarks rest → ∃ l, Lexeme.scan offset (text ++ rest) = .ok l ∧
    l.start = offset ∧ (l.token == .endOfInput) = false ∧
      ∀ mark ∈ marks, isMark l.token mark = false

theorem Begins.scans {marks : List String} {text rest : List Char} (h : Begins marks text)
    (hrest : Follows endMarks rest) : Scans (text ++ rest) := by
  intro offset
  obtain ⟨l, hl, -⟩ := h offset rest hrest
  exact ⟨l, hl⟩

/-- What a reader finds in a text that is printed, before one of some marks: it answers with
something that looks like what was printed, and stops where the text ends.  The names that are
exported on the way are among those that were so when the text was first read.  For a text that
nests deeper the reader needs more fuel. -/
def Restored {α β : Type} (reader : Nat → Parser α) (view : List Char → α → β) (marks : List Char)
    (text : List Char) (value : β) (before after : List String) : Prop :=
  ∀ source fuel rest (t : State), t.Ahead source before (text ++ rest) → Follows marks rest →
    2 * byteSize (text ++ rest) ≤ fuel →
    (reader fuel).Answers t fun a t' => t'.Ahead source after rest ∧ view source a = value

end Rebind.Grammar
