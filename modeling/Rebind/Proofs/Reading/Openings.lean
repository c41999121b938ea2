import Rebind.Proofs.Reading.Parser
import Rebind.Proofs.Splicing.Stretches

/-!
# How statements open

A source has no two tokens at one place of which one is a string literal (`Lexeme.IsOf.same`).  So
an expression that starts with a string literal is nothing but the literal, or goes on past it by
another token than a semicolon (`Expression.Opens`).  A place that is spelled as a word which is
ambiguous before `of` is that word (`ReadsTerm.ambiguous`).
-/

namespace Rebind.Snippet

open Rebind.Text (Span byteSize)
open Rebind.Grammar (isMark isKeyword)

/-! ## Tokens of a source -/

/-- A token of a source. -/
structure Lexeme.IsOf (source : List Char) (l : Lexeme) : Prop where
  stands : l.Stands (byteSize source)
  suffix : l.here <:+ source
  scanned : l.Scanned

/-- The stretch of the source that a token takes. -/
def Lexeme.span (l : Lexeme) : Span := ⟨l.start, l.stop⟩

/-- Whether the token is a string literal. -/
def Lexeme.IsString (l : Lexeme) : Prop :=
  ∃ value isSound, l.token = .string value isSound

/-- A stretch of the source that is a string literal. -/
def IsLiteralSpan (source : List Char) (span : Span) : Prop :=
  ∃ l : Lexeme, l.IsOf source ∧ l.IsString ∧ l.span = span

variable {source : List Char}

/-- Two texts that the source ends with are the same if they are of one size. -/
theorem eq_of_suffix {xs ys : List Char} (hx : xs <:+ source) (hy : ys <:+ source)
    (h : byteSize xs = byteSize ys) : xs = ys := by
  have heq {xs ys : List Char} (hxy : xs <:+ ys) (h : byteSize xs = byteSize ys) : xs = ys := by
    obtain ⟨front, rfl⟩ := hxy
    rw [Text.byteSize_append] at h
    cases front with
    | nil => rfl
    | cons c front =>
      have hpos := byteSize_pos (List.cons_ne_nil c front)
      omega
  obtain hxy | hyx := List.suffix_or_suffix_of_suffix hx hy
  · exact heq hxy h
  · exact (heq hyx h.symm).symm

theorem boundary_of_suffix {low : Nat} {xs : List Char} (hxs : xs <:+ source)
    (hlow : low + byteSize xs = byteSize source) : Text.Boundary source low := by
  obtain ⟨front, rfl⟩ := hxs
  rw [Text.byteSize_append] at hlow
  exact ⟨front, xs, rfl, by omega⟩

/-- What the source goes on with at an offset starts with any stretch from there on. -/
theorem eq_slice_append {low high : Nat} {xs : List Char} (hxs : xs <:+ source)
    (hlow : low + byteSize xs = byteSize source) (hhigh : Text.Boundary source high)
    (hle : low ≤ high) :
    ∃ rest, xs = Span.slice ⟨low, high⟩ source ++ rest ∧
      low + byteSize (Span.slice ⟨low, high⟩ source) = high := by
  obtain ⟨front, rfl⟩ := hxs
  rw [Text.byteSize_append] at hlow
  obtain rfl : byteSize front = low := by omega
  obtain ⟨mid, rest, rfl, rfl⟩ := hhigh.split_rest hle
  rw [Text.slice_append_append]
  exact ⟨rest, rfl, rfl⟩

namespace Lexeme.IsOf

variable {l l' : Lexeme}

theorem here_eq (h : l.IsOf source) (h' : l'.IsOf source) (hstart : l'.start = l.start) :
    l'.here = l.here := by
  have hsize := h.stands.here
  have hsize' := h'.stands.here
  exact eq_of_suffix h'.suffix h.suffix (by omega)

/-- A string literal is found by itself. -/
theorem scanToken_eq (h : l.IsOf source) (hstring : l.IsString) :
    scanToken l.start l.here = .ok (l.token, l.stop, l.rest) := by
  obtain ⟨value, isSound, htoken⟩ := hstring
  obtain hscan | ⟨hother, -⟩ | ⟨⟨_, _, hother⟩, -⟩ := h.scanned
  · exact hscan
  · exact absurd (htoken.symm.trans hother) nofun
  · exact absurd (htoken.symm.trans hother) nofun

theorem literal (h : l.IsOf source) (hstring : l.IsString) :
    Passes IsLiteral l.start l.here l.stop l.rest := by
  have hscan := h.scanToken_eq hstring
  obtain ⟨value, isSound, htoken⟩ := hstring
  rw [htoken] at hscan
  exact scanToken_literal hscan

/-- The stretch of a token is what is read of it. -/
theorem slice_span (h : l.IsOf source) {read : List Char} (hhere : l.here = read ++ l.rest)
    (hstop : l.stop = l.start + byteSize read) : l.span.slice source = read := by
  have hsize := h.stands.here
  obtain ⟨front, hsource⟩ := h.suffix
  rw [← hsource, Text.byteSize_append] at hsize
  have hfront : byteSize front = l.start := by omega
  rw [Lexeme.span, hstop, ← hsource, hhere, ← hfront]
  exact Text.slice_append_append front read l.rest

/-- A token that starts with a mark of string literals is one. -/
theorem isString_of_head (h : l.IsOf source) {c : Char} {more : List Char}
    (hhere : l.here = c :: more) (hc : isQuote c = true) : l.IsString := by
  rw [isQuote, Bool.or_eq_true, beq_iff_eq, beq_iff_eq] at hc
  obtain hscan | ⟨-, hhead⟩ | ⟨-, hhead⟩ := h.scanned
  · rw [hhere] at hscan
    obtain rfl | rfl := hc
    · exact (scanString_passes (by decide) hscan).2
    · exact (scanString_passes (by decide) hscan).2
  · rw [hhere, List.head?_cons, Option.some.injEq] at hhead
    exact absurd hc (by rw [hhead]; decide)
  · rw [hhere, List.head?_cons, Option.some.injEq] at hhead
    exact absurd hc (by rw [hhead]; decide)

/-- No other token starts where a string literal does. -/
theorem same (h : l.IsOf source) (hstring : l.IsString) (h' : l'.IsOf source)
    (hstart : l'.start = l.start) : l'.IsString ∧ l'.stop = l.stop := by
  have hhere := h.here_eq h' hstart
  have hstring' : l'.IsString := by
    obtain ⟨read, hread, hl, -⟩ := h.literal hstring
    obtain ⟨c, more, rfl, hc⟩ := hread.head
    exact h'.isString_of_head (hhere.trans hl) hc
  have hscan := h.scanToken_eq hstring
  have hscan' := h'.scanToken_eq hstring'
  rw [hhere, hstart, hscan] at hscan'
  exact ⟨hstring', (Prod.mk.inj (Prod.mk.inj (Except.ok.inj hscan')).2).1.symm⟩

end Lexeme.IsOf

/-! ## What is kept of tokens -/

/-- An expression goes on past a token, by another one than a semicolon, and its host forms do not
start before. -/
def Expression.GoesPast (l : Lexeme) (e : Expression) : Prop :=
  (∃ next, Lexeme.scan l.stop l.rest = .ok next ∧ isMark next.token ";" = false ∧
    next.start < e.span.stop) ∧ ∀ host ∈ e.hosts, l.stop ≤ host.span.start

/-- An expression starts at a token.  If this is a string literal, it is all of the expression or
the expression goes on past it. -/
def Expression.Opens (source : List Char) (e : Expression) : Prop :=
  ∃ l : Lexeme, l.IsOf source ∧ l.start = e.span.start ∧
    (l.IsString → e = ⟨l.span, []⟩ ∨ e.GoesPast l)

/-- The words that are ambiguous before `of`. -/
def ambiguousWords : List String := ["async", "let"]

/-- A word that is ambiguous has only characters of names, and no digit comes first. -/
theorem ambiguousWords_spelled {word : String} (h : word ∈ ambiguousWords) :
    ∃ c more, word.toList = c :: more ∧ Unicode.isNameStart c = true ∧
      Unicode.isAsciiDigit c = false ∧ ∀ d ∈ more, Unicode.isNamePart d = true := by
  obtain rfl | rfl : word = "async" ∨ word = "let" := by simpa [ambiguousWords] using h
  · exact ⟨'a', "sync".toList, rfl, by decide, by decide, List.all_eq_true.1 (by decide)⟩
  · exact ⟨'l', "et".toList, rfl, by decide, by decide, List.all_eq_true.1 (by decide)⟩

end Rebind.Snippet

namespace Rebind.Grammar

open Rebind.Text (byteSize)
open Rebind.Snippet

variable {source : List Char} {s s' : State}

/-- A state on the way through a source. -/
structure State.Within (source : List Char) (s : State) : Prop where
  sound : s.Sound
  limit_eq : s.limit = byteSize source
  suffix : s.lexeme.here <:+ source
  scanned : s.lexeme.Scanned

namespace State.Within

variable {xs : List Part}

theorem isOf (h : s.Within source) : s.lexeme.IsOf source where
  stands := h.limit_eq ▸ h.sound.lexeme
  suffix := h.suffix
  scanned := h.scanned

theorem start_le (h : s.Within source) : s.lexeme.start ≤ byteSize source :=
  h.limit_eq ▸ h.sound.start_le_limit

theorem after (h : s.Within source) (hread : Reads s xs s') : s'.Within source where
  sound := hread.sound
  limit_eq := hread.limit_eq.trans h.limit_eq
  suffix := hread.suffix.trans h.suffix
  scanned := hread.scanned h.scanned

end State.Within

theorem Parser.advance_within (hs : s.Within source) :
    advance.Ensures s fun _ s' => s'.Within source := by
  simp only [advance, ensures_bind, ensures_get, ensures_liftM, ensures_set]
  intro l hl
  obtain ⟨hle, hsuffix, hstands⟩ := Lexeme.scan_stands hs.sound.lexeme.stop_add_byteSize hl
  exact ⟨⟨hstands, hle⟩, hs.limit_eq,
    (hsuffix.trans hs.sound.lexeme.takes.suffix).trans hs.suffix, Lexeme.scan_scanned hl⟩

/-- What a term has read goes on past a string literal that comes first, or this is all of it. -/
theorem ReadsTerm.opens {t : Term} {hosts : List HostForm} (h : ReadsTerm s t s')
    (hs : s.Within source) (hhosts : s'.hosts = hosts.reverse ++ s.hosts) :
    Expression.Opens source ⟨t.span, hosts⟩ := by
  refine ⟨s.lexeme, hs.isOf, by rw [h.whole], fun hstring => ?_⟩
  have hstring : s.AtString := hstring
  have hlt := h.start_lt_stop
  have hlast := h.sound_before.stop_le
  obtain ⟨later, hlater, hpast⟩ := h.steps.hosts hstring
  obtain rfl : later = hosts :=
    List.reverse_inj.1 (List.append_cancel_right (hlater.symm.trans hhosts))
  -- If nothing follows the literal, no host form does.
  have hall (hstop : s'.lastStop = s.lexeme.stop) :
      (⟨t.span, later⟩ : Expression) = ⟨s.lexeme.span, []⟩ := by
    obtain ⟨between, hbetween, hordered, -⟩ := h.hosts
    obtain rfl : between = later :=
      List.reverse_inj.1 (List.append_cancel_right (hbetween.symm.trans hlater))
    have hnone : between = [] := by
      refine List.eq_nil_iff_forall_not_mem.2 fun host hhost => ?_
      obtain ⟨hle, hlt, hstop'⟩ := hordered.between_of_mem _ (List.mem_map_of_mem hhost)
      have hstart := hpast host hhost
      omega
    rw [hnone, h.whole, hstop]
    rfl
  obtain hgo | hstop := h.goesOn
  · obtain ⟨-, hsame⟩ | ⟨next, hnext, hbefore | hlt'⟩ := h.steps.first hstring.isFixed
    · omega
    · exact .inl (hall hbefore.stop_eq)
    · exact .inr ⟨⟨next, hnext, hgo hstring next hnext, by rw [h.whole]; exact hlt'⟩, hpast⟩
  · exact .inl (hall hstop)

namespace Parser

/-- A copied expression opens at the token that comes first. -/
theorem copied_opens {term : Parser Term} (hs : s.Within source)
    (hterm : Ensures term s fun t s' => ReadsTerm s t s') :
    Ensures (copied term) s fun e _ => e.Opens source ∧ e.span.start = s.lexeme.start := by
  simp only [copied, ensures_bind, ensures_get, ensures_value, ensures_hostsSince, ensures_pure]
  refine hterm.of fun t s1 h1 _ => ?_
  obtain ⟨hosts, heq, -⟩ := h1.hosts
  refine ⟨?_, by rw [h1.whole]⟩
  have htake : (s1.hosts.take (s1.hosts.length - s.hosts.length)).reverse = hosts := by
    rw [heq, List.length_append, Nat.add_sub_cancel, List.take_left, List.reverse_reverse]
  exact htake ▸ h1.opens hs heq

end Parser

/-- The name that a term is starts with a character that names start with. -/
theorem ReadsTerm.name_starts {t : Term} {name : String} (h : ReadsTerm s t s')
    (hs : s.Within source) (hname : t.shape = .name name) :
    ∃ c, name.toList.head? = some c ∧ Unicode.isNameStart c = true := by
  obtain ⟨isEscaped, htoken⟩ := h.named name hname
  obtain hscan | ⟨hother, -⟩ | ⟨⟨_, _, hother⟩, -⟩ := hs.scanned
  · rw [htoken] at hscan
    exact scanToken_word hscan
  · exact absurd (htoken.symm.trans hother) nofun
  · exact absurd (htoken.symm.trans hother) nofun

/-- A term that is spelled as an ambiguous word is the word that comes first, and the token past the
word comes next. -/
theorem ReadsTerm.ambiguous {t : Term} {word : String} (h : ReadsTerm s t s')
    (hs : s.Within source) (hword : word ∈ ambiguousWords)
    (hslice : String.ofList (t.span.slice source) = word) :
    isKeyword s.lexeme.token word = true ∧ ∃ l, s.Next l ∧ s'.Before l s.lexeme.stop := by
  obtain ⟨c, more, hspelled, hc, hdigit, hmore⟩ := ambiguousWords_spelled hword
  have hlt := h.start_lt_stop
  have hlast := h.sound_before.stop_le
  have hstops := ((hs.limit_eq ▸ h.stopsAt hlt).mono hs.suffix).boundary
  obtain ⟨rest, hhere, hstop⟩ := eq_slice_append hs.suffix hs.isOf.stands.here hstops
    (Nat.le_of_lt hlt)
  have hread : Text.Span.slice ⟨s.lexeme.start, s'.lastStop⟩ source = c :: more := by
    rw [← h.whole, ← hspelled, ← hslice, String.toList_ofList]
  rw [hread] at hhere hstop
  have hne {d : Char} (hd : Unicode.isNameStart d = false) : s.lexeme.here.head? ≠ some d := by
    rw [hhere]
    rintro heq
    rw [Option.some.inj heq, hd] at hc
    cases hc
  have hscan := hs.scanned.resolve_right fun hother => hother.elim
    (fun h => hne (by decide) h.2) fun h => hne (by decide) h.2
  rw [hhere] at hscan
  obtain ⟨⟨name, isEscaped, htoken⟩, hlong, hshort⟩ := scanToken_name hc hdigit hmore hscan
  rw [hstop] at hlong hshort
  obtain ⟨-, hsame⟩ | ⟨l, hl, hnext⟩ := h.steps.first (by rw [htoken]; rfl)
  · omega
  have hle := h.sound_before.stop_le_next hl
  obtain hbefore | hlt' := hnext
  · refine ⟨?_, l, hl, hbefore⟩
    rw [hshort (Nat.le_of_eq hbefore.stop_eq.symm), ← hspelled, String.ofList_toList]
    exact beq_self_eq_true _
  · omega

end Rebind.Grammar
