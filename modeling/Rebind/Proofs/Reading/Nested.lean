import Rebind.Proofs.Parts
import Rebind.Proofs.Reading.Token

/-!
# Where host forms lie

Stretches of the source go from a token to a token.  The host forms of an expression follow each
other in it, and those in the specifier of a dynamic import follow each other there
(`Expression.Nested`).  Offsets are related to the characters of the source by the text that is left
past them, so that all of this can be said of the end of a source as well (`Nested.mono`).
-/

namespace Rebind.Snippet

open Rebind.Text (Span byteSize byteSize_cons isBlank)

variable {limit offset start stop : Nat} {text text' : List Char} {span : Span}

/-! ## Tokens -/

/-- A character that is not blank comes first past the offset, in a text that goes on to the offset
`limit`. -/
def StartsAt (limit : Nat) (text : List Char) (offset : Nat) : Prop :=
  ∃ c cs, c :: cs <:+ text ∧ offset + byteSize (c :: cs) = limit ∧ isBlank c = false

/-- A character that is not blank comes last before the offset. -/
def StopsAt (limit : Nat) (text : List Char) (offset : Nat) : Prop :=
  ∃ c cs, c :: cs <:+ text ∧ offset + byteSize cs = limit ∧ isBlank c = false

/-- A stretch of the source from a token to a token. -/
structure OnTokens (limit : Nat) (text : List Char) (span : Span) : Prop where
  starts : StartsAt limit text span.start
  stops : StopsAt limit text span.stop

theorem StartsAt.mono (h : StartsAt limit text offset) (hsuffix : text <:+ text') :
    StartsAt limit text' offset := by
  obtain ⟨c, cs, hcs, h⟩ := h
  exact ⟨c, cs, hcs.trans hsuffix, h⟩

theorem StartsAt.lt (h : StartsAt limit text offset) : offset < limit := by
  obtain ⟨c, cs, -, hlimit, -⟩ := h
  have hpos := byteSize_pos (List.cons_ne_nil c cs)
  omega

theorem StopsAt.mono (h : StopsAt limit text offset) (hsuffix : text <:+ text') :
    StopsAt limit text' offset := by
  obtain ⟨c, cs, hcs, h⟩ := h
  exact ⟨c, cs, hcs.trans hsuffix, h⟩

theorem OnTokens.mono (h : OnTokens limit text span) (hsuffix : text <:+ text') :
    OnTokens limit text' span :=
  ⟨h.starts.mono hsuffix, h.stops.mono hsuffix⟩

namespace Lexeme.Stands

variable {l : Lexeme}

/-- A token that is not the end of the text starts at a token. -/
theorem startsAt (h : l.Stands limit) (hlt : l.start < limit) : StartsAt limit l.here l.start := by
  obtain ⟨-, hhere, -, -⟩ | ⟨read, hsolid, hhere, -⟩ := h.takes.taken
  · have hlimit := h.here
    rw [hhere, Text.byteSize_nil] at hlimit
    omega
  · obtain ⟨c, hhead, hc⟩ := hsolid.head
    obtain ⟨more, rfl⟩ := List.head?_eq_some_iff.1 hhead
    rw [List.cons_append] at hhere
    exact ⟨c, more ++ l.rest, hhere ▸ List.suffix_rfl, hhere ▸ h.here, hc⟩

theorem stopsAt (h : l.Stands limit) (hne : l.token ≠ .endOfInput) :
    StopsAt limit l.here l.stop := by
  obtain ⟨hend, -⟩ | ⟨read, hsolid, hhere, -⟩ := h.takes.taken
  · exact absurd hend hne
  · obtain ⟨c, hlast, hc⟩ := hsolid.last
    obtain ⟨front, rfl⟩ := List.getLast?_eq_some_iff.1 hlast
    rw [List.append_assoc, List.singleton_append] at hhere
    exact ⟨c, l.rest, hhere ▸ List.suffix_append _ _, h.stop_add_byteSize, hc⟩

end Lexeme.Stands

/-! ## Host forms -/

mutual

/-- A host form goes from a token to a token, and so does the specifier in it, in which the inner
host forms follow each other. -/
def HostForm.Nested (limit : Nat) (text : List Char) : HostForm → Prop
  | .metadata span => OnTokens limit text span
  | .load span specifier inner =>
    OnTokens limit text span ∧ OnTokens limit text specifier ∧
      span.start ≤ specifier.start ∧ specifier.stop ≤ span.stop ∧
      Ordered specifier.start specifier.stop (inner.map HostForm.span) ∧
      AllNested limit text inner

def AllNested (limit : Nat) (text : List Char) : List HostForm → Prop
  | [] => True
  | host :: hosts => host.Nested limit text ∧ AllNested limit text hosts

end

mutual

/-- A dynamic import starts before the specifier in it, and so do those in the specifier. -/
def HostForm.Proper : HostForm → Prop
  | .metadata _ => True
  | .load span specifier inner => span.start < specifier.start ∧ AllProper inner

def AllProper : List HostForm → Prop
  | [] => True
  | host :: hosts => host.Proper ∧ AllProper hosts

end

/-- The outermost host forms of a part. -/
def Part.hosts : Part → List HostForm
  | .expression value | .default _ value => value.hosts
  | .verbatim _ => []

/-- Host forms that follow each other between two offsets. -/
structure HostsBetween (limit : Nat) (text : List Char) (start stop : Nat)
    (hosts : List HostForm) : Prop where
  ordered : Ordered start stop (hosts.map HostForm.span)
  nested : AllNested limit text hosts

/-- An expression goes from a token to a token, and its host forms follow each other in it. -/
structure Expression.Nested (limit : Nat) (text : List Char) (e : Expression) : Prop where
  onTokens : OnTokens limit text e.span
  hosts : HostsBetween limit text e.span.start e.span.stop e.hosts

/-- What a part of the source holds lies in it.  What is copied before a default value starts where
a token stops. -/
def Part.Nested (limit : Nat) (text : List Char) : Part → Prop
  | .expression value => value.Nested limit text
  | .default patternStop value =>
    StopsAt limit text patternStop ∧ patternStop ≤ value.span.start ∧ value.Nested limit text
  | .verbatim span => OnTokens limit text span

theorem HostForm.nested_load {specifier : Span} {inner : List HostForm} :
    (HostForm.load span specifier inner).Nested limit text ↔ OnTokens limit text span ∧
      span.start ≤ specifier.start ∧ specifier.stop ≤ span.stop ∧
      (Expression.mk specifier inner).Nested limit text := by
  rw [HostForm.Nested]
  constructor
  · rintro ⟨hspan, hspecifier, hstart, hstop, hordered, hinner⟩
    exact ⟨hspan, hstart, hstop, hspecifier, hordered, hinner⟩
  · rintro ⟨hspan, hstart, hstop, hspecifier, hordered, hinner⟩
    exact ⟨hspan, hspecifier, hstart, hstop, hordered, hinner⟩

theorem HostForm.Nested.onTokens {host : HostForm} (h : host.Nested limit text) :
    OnTokens limit text host.span := by
  cases host with
  | metadata span => exact h
  | load span specifier inner => exact (nested_load.1 h).1

theorem allNested_append {xs ys : List HostForm} :
    AllNested limit text (xs ++ ys) ↔ AllNested limit text xs ∧ AllNested limit text ys := by
  induction xs with
  | nil => simp [AllNested]
  | cons host xs ih => simp only [List.cons_append, AllNested, ih, and_assoc]

theorem allProper_iff {hosts : List HostForm} :
    AllProper hosts ↔ ∀ host ∈ hosts, host.Proper := by
  induction hosts with
  | nil => simp [AllProper]
  | cons host hosts ih => rw [AllProper, ih, List.forall_mem_cons]

theorem allProper_reverse_append {xs ys : List HostForm} :
    AllProper (xs.reverse ++ ys) ↔ AllProper xs ∧ AllProper ys := by
  simp only [allProper_iff, List.forall_mem_append, List.mem_reverse]

mutual

theorem HostForm.Nested.mono {host : HostForm} (h : host.Nested limit text)
    (hsuffix : text <:+ text') : host.Nested limit text' := by
  cases host with
  | metadata span =>
    rw [HostForm.Nested] at h ⊢
    exact h.mono hsuffix
  | load span specifier inner =>
    obtain ⟨hspan, hspecifier, hstart, hstop, hordered, hinner⟩ := h
    exact ⟨hspan.mono hsuffix, hspecifier.mono hsuffix, hstart, hstop, hordered,
      hinner.mono hsuffix⟩

theorem AllNested.mono {hosts : List HostForm} (h : AllNested limit text hosts)
    (hsuffix : text <:+ text') : AllNested limit text' hosts := by
  cases hosts with
  | nil => trivial
  | cons host hosts => exact ⟨h.1.mono hsuffix, h.2.mono hsuffix⟩

end

theorem HostsBetween.mono {hosts : List HostForm} (h : HostsBetween limit text start stop hosts)
    (hsuffix : text <:+ text') : HostsBetween limit text' start stop hosts :=
  ⟨h.ordered, h.nested.mono hsuffix⟩

theorem HostsBetween.append {start' stop' : Nat} {xs ys : List HostForm}
    (hx : HostsBetween limit text start stop xs) (hy : HostsBetween limit text start' stop' ys)
    (hstart : start ≤ start') (hstop : stop ≤ stop') (hmeet : stop ≤ start') :
    HostsBetween limit text start stop' (xs ++ ys) where
  ordered := by
    rw [List.map_append]
    exact hx.ordered.append hy.ordered hstart hstop hmeet
  nested := allNested_append.2 ⟨hx.nested, hy.nested⟩

theorem Expression.Nested.mono {e : Expression} (h : e.Nested limit text)
    (hsuffix : text <:+ text') : e.Nested limit text' :=
  ⟨h.onTokens.mono hsuffix, h.hosts.mono hsuffix⟩

theorem Part.Nested.mono {part : Part} (h : part.Nested limit text) (hsuffix : text <:+ text') :
    part.Nested limit text' := by
  cases part with
  | expression value => exact Expression.Nested.mono h hsuffix
  | default patternStop value =>
    obtain ⟨hstop, hle, hvalue⟩ := h
    exact ⟨hstop.mono hsuffix, hle, hvalue.mono hsuffix⟩
  | verbatim span => exact OnTokens.mono h hsuffix

end Rebind.Snippet
