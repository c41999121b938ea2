import Mathlib.Data.List.Pairwise
import Rebind.Proofs.Nodes
import Rebind.Proofs.Splicing

/-!
# Host forms in parameters

The default value of a parameter is copied together with what stands between the pattern and it, so
the stretch that is copied is not that of the expression in it, and the host forms that are
collected on the way through the parameter are not all in the stretch.  Those of the pattern start
before it: the loop skips just these, and each of them is replaced by the code of the pattern
(`parameters_are_spliced_once`).
-/

namespace Rebind

open Rebind.Text (Span Boundary byteSize isBlank)
open Rebind.Snippet

/-! ## Host forms at any depth -/

mutual

/-- A host form, and those in it at any depth. -/
def Snippet.HostForm.flatten : HostForm → List HostForm
  | .metadata span => [.metadata span]
  | .load span specifier inner => .load span specifier inner :: flattenHosts inner

def flattenHosts : List HostForm → List HostForm
  | [] => []
  | host :: hosts => host.flatten ++ flattenHosts hosts

end

theorem flattenHosts_append (xs ys : List HostForm) :
    flattenHosts (xs ++ ys) = flattenHosts xs ++ flattenHosts ys := by
  induction xs with
  | nil => rfl
  | cons host xs ih => simp only [List.cons_append, flattenHosts, ih, List.append_assoc]

theorem mem_flattenHosts_flatMap {host : HostForm} {parts : List Part} :
    host ∈ flattenHosts (parts.flatMap Part.hosts) ↔
      ∃ part ∈ parts, host ∈ flattenHosts part.hosts := by
  induction parts with
  | nil => simp [flattenHosts]
  | cons part parts ih =>
    simp only [List.flatMap_cons, flattenHosts_append, List.mem_append, ih, List.mem_cons,
      exists_eq_or_imp]

section Between

variable {limit : Nat} {text : List Char}

mutual

theorem flatten_between {host : HostForm} (h : host.Nested limit text)
    (hlt : host.span.start < host.span.stop) :
    ∀ inner ∈ host.flatten,
      host.span.start ≤ inner.span.start ∧ inner.span.start < host.span.stop := by
  cases host with
  | metadata span => exact List.forall_mem_singleton.2 ⟨Nat.le_refl _, hlt⟩
  | load span specifier inner =>
    obtain ⟨-, hstart, hstop, hspecifier⟩ := HostForm.nested_load.1 h
    have hinner := flattenHosts_between hspecifier.hosts
    refine List.forall_mem_cons.2 ⟨⟨Nat.le_refl _, hlt⟩, fun host hhost => ?_⟩
    have hbetween := hinner host hhost
    dsimp only [HostForm.span] at hbetween ⊢
    omega

theorem flattenHosts_between {start stop : Nat} {hosts : List HostForm}
    (h : HostsBetween limit text start stop hosts) :
    ∀ host ∈ flattenHosts hosts, start ≤ host.span.start ∧ host.span.start < stop := by
  cases hosts with
  | nil => nofun
  | cons host hosts =>
    obtain ⟨⟨hstart, hlt, hstop, hrest⟩, hhost, hhosts⟩ := h
    refine List.forall_mem_append.2 ⟨fun inner hinner => ?_, fun inner hinner => ?_⟩
    · have hbetween := flatten_between hhost hlt inner hinner
      omega
    · have hbetween := flattenHosts_between ⟨hrest, hhosts⟩ inner hinner
      omega

end

/-- The host forms of a part lie in it. -/
theorem Snippet.Part.Nested.hostsBetween {part : Part} (h : part.Nested limit text) :
    HostsBetween limit text part.span.start part.span.stop part.hosts := by
  cases part with
  | expression value => exact Expression.Nested.hosts h
  | default patternStop value =>
    obtain ⟨-, hle, hvalue⟩ := h
    exact ⟨hvalue.hosts.ordered.mono hle (Nat.le_refl _), hvalue.hosts.nested⟩
  | verbatim span => exact ⟨trivial, trivial⟩

/-- Of two parts that follow each other one stops before the other starts. -/
theorem Snippet.Ordered.apart {start stop : Nat} {parts : List Part} {a b : Part}
    (h : Ordered start stop (parts.map Part.span)) (ha : a ∈ parts) (hb : b ∈ parts)
    (hne : a ≠ b) : a.span.stop ≤ b.span.start ∨ b.span.stop ≤ a.span.start := by
  have hpairwise : parts.Pairwise fun a b =>
      a.span.stop ≤ b.span.start ∨ b.span.stop ≤ a.span.start :=
    (List.pairwise_map.1 h.pairwise).imp .inl
  have : Std.Symm fun a b : Part => a.span.stop ≤ b.span.start ∨ b.span.stop ≤ a.span.start :=
    ⟨fun _ _ => Or.symm⟩
  exact hpairwise.forall ha hb hne

/-- The host forms of parts that follow each other follow each other too. -/
theorem hostsBetween_flatMap {start stop : Nat} {parts : List Part}
    (hordered : Ordered start stop (parts.map Part.span))
    (hnested : ∀ part ∈ parts, part.Nested limit text) :
    HostsBetween limit text start stop (parts.flatMap Part.hosts) := by
  induction parts generalizing start with
  | nil => exact ⟨trivial, trivial⟩
  | cons part parts ih =>
    obtain ⟨hstart, hlt, hstop, hrest⟩ := hordered
    obtain ⟨hpart, hparts⟩ := List.forall_mem_cons.1 hnested
    have hfirst : HostsBetween limit text start part.span.stop part.hosts :=
      ⟨hpart.hostsBetween.ordered.mono hstart (Nat.le_refl _), hpart.hostsBetween.nested⟩
    rw [List.flatMap_cons]
    exact hfirst.append (ih hrest hparts) (by omega) hstop (Nat.le_refl _)

end Between

/-! ## What a fragment copies -/

/-- The stretch of the source that a piece copies. -/
def Piece.span? : Piece → Option Span
  | .copy span | .copyTrimmed span => some span
  | .text _ | .slot _ => none

/-- Whether an offset lies in a stretch of the source. -/
def Text.Span.Covers (span : Span) (offset : Nat) : Prop :=
  span.start ≤ offset ∧ offset < span.stop

namespace Code

/-- The stretches of the source that a fragment copies. -/
def copies (x : Fragment) : List Span :=
  x.filterMap Piece.span?

/-- How often a fragment refers to the module object. -/
def references (x : Fragment) : Nat :=
  x.count (.slot .moduleObject)

theorem copies_append (x y : Fragment) : copies (x ++ y) = copies x ++ copies y :=
  List.filterMap_append

theorem references_append (x y : Fragment) : references (x ++ y) = references x + references y :=
  List.count_append

theorem copies_trimmed (x : Fragment) : copies (trimmed x) = copies x := by
  unfold trimmed
  split <;> simp [copies, Piece.span?]

theorem references_trimmed (x : Fragment) : references (trimmed x) = references x := by
  unfold trimmed
  split <;> simp [references]

section Copied

variable {limit : Nat} {text : List Char}

/-- Before the first host form the source is copied, and past it the rest is. -/
theorem copied_cons {start stop : Nat} {host : HostForm} {hosts : List HostForm}
    (h : HostsBetween limit text start stop (host :: hosts)) :
    copied start stop (host :: hosts) = .copy ⟨start, host.span.start⟩ ::
      ((hostSite host).2 ++ copied host.span.stop stop hosts) := by
  rw [copied_eq_splicedFrom h]
  obtain ⟨⟨hstart, -, hstop, hrest⟩, -, hhosts⟩ := h
  have hspan := hostSite_span host
  rw [hostSites, splicedFrom, hspan, if_neg (by omega), copied_eq_splicedFrom ⟨hrest, hhosts⟩]

theorem copied_nil {start stop : Nat} : copied start stop [] = [.copy ⟨start, stop⟩] := by
  have h : HostsBetween 0 [] start stop [] := ⟨trivial, trivial⟩
  exact copied_eq_splicedFrom h

mutual

theorem references_hostSite {host : HostForm} (h : host.Nested limit text) :
    references (hostSite host).2 = host.flatten.length := by
  cases host with
  | metadata span => rfl
  | load span specifier inner =>
    obtain ⟨-, -, -, hspecifier⟩ := HostForm.nested_load.1 h
    have hinner : references (spliced specifier (hostSites inner)) = (flattenHosts inner).length :=
      references_copied hspecifier.hosts
    rw [hostSite_load, references_append, references_append, hinner, HostForm.flatten,
      List.length_cons]
    simp [references, Nat.add_comm]

/-- A copied stretch refers to the module object once for each host form in it. -/
theorem references_copied {start stop : Nat} {hosts : List HostForm}
    (h : HostsBetween limit text start stop hosts) :
    references (copied start stop hosts) = (flattenHosts hosts).length := by
  cases hosts with
  | nil =>
    rw [copied_nil]
    rfl
  | cons host hosts =>
    have hcons := copied_cons h
    obtain ⟨⟨-, -, -, hrest⟩, hhost, hhosts⟩ := h
    have hcopy (x : Fragment) : references (.copy ⟨start, host.span.start⟩ :: x) = references x :=
      List.count_cons_of_ne (by simp)
    rw [hcons, hcopy, references_append, references_hostSite hhost,
      references_copied ⟨hrest, hhosts⟩, flattenHosts, List.length_append]

end

mutual

theorem copies_hostSite {host : HostForm} (h : host.Nested limit text) (hproper : host.Proper) :
    ∀ span ∈ copies (hostSite host).2,
      host.span.start < span.start ∧ span.stop ≤ host.span.stop ∧
        ∀ inner ∈ host.flatten, ¬ span.Covers inner.span.start := by
  cases host with
  | metadata span => nofun
  | load span specifier inner =>
    obtain ⟨-, -, hstop, hspecifier⟩ := HostForm.nested_load.1 h
    obtain ⟨hlt, hproper⟩ := hproper
    have hcopies : copies (hostSite (.load span specifier inner)).2 =
        copies (copied specifier.start specifier.stop inner) := by
      rw [hostSite_load, copies_append, copies_append]
      exact List.append_nil _
    rw [hcopies]
    intro part hpart
    obtain ⟨hlow, hhigh, hinner⟩ := copies_copied hspecifier.hosts hproper part hpart
    have hbefore : span.start < part.start := Nat.lt_of_lt_of_le hlt hlow
    refine ⟨hbefore, Nat.le_trans hhigh hstop, List.forall_mem_cons.2 ⟨?_, hinner⟩⟩
    rintro ⟨hle, -⟩
    exact Nat.not_le_of_lt hbefore hle

/-- What is copied lies in the stretch, and no host form starts in it. -/
theorem copies_copied {start stop : Nat} {hosts : List HostForm}
    (h : HostsBetween limit text start stop hosts) (hproper : AllProper hosts) :
    ∀ span ∈ copies (copied start stop hosts),
      start ≤ span.start ∧ span.stop ≤ stop ∧
        ∀ host ∈ flattenHosts hosts, ¬ span.Covers host.span.start := by
  cases hosts with
  | nil =>
    rw [copied_nil]
    exact List.forall_mem_singleton.2 ⟨Nat.le_refl _, Nat.le_refl _, List.forall_mem_nil _⟩
  | cons host hosts =>
    rw [copied_cons h]
    obtain ⟨⟨hstart, hlt, hstop, hrest⟩, hhost, hhosts⟩ := h
    have hinside := flatten_between hhost hlt
    have hlater := flattenHosts_between ⟨hrest, hhosts⟩
    -- The stretch before the host form, those in it, and those past it.
    refine List.forall_mem_cons.2 ⟨⟨Nat.le_refl _, by dsimp only; omega, ?_⟩, ?_⟩
    · refine List.forall_mem_append.2 ⟨fun inner hinner => ?_, fun inner hinner => ?_⟩
      · have hbetween := hinside inner hinner
        simp only [Text.Span.Covers]
        omega
      · have hbetween := hlater inner hinner
        simp only [Text.Span.Covers]
        omega
    have hsplit : (List.filterMap Piece.span? ((hostSite host).2 ++
        copied host.span.stop stop hosts)) = copies (hostSite host).2 ++
          copies (copied host.span.stop stop hosts) := copies_append _ _
    rw [hsplit]
    refine List.forall_mem_append.2 ⟨fun span hspan => ?_, fun span hspan => ?_⟩
    · obtain ⟨hlow, hhigh, hcovers⟩ := copies_hostSite hhost hproper.1 span hspan
      refine ⟨by omega, by omega, List.forall_mem_append.2 ⟨hcovers, fun inner hinner => ?_⟩⟩
      have hbetween := hlater inner hinner
      simp only [Text.Span.Covers]
      omega
    · obtain ⟨hlow, hhigh, hcovers⟩ :=
        copies_copied ⟨hrest, hhosts⟩ hproper.2 span hspan
      refine ⟨by omega, hhigh, List.forall_mem_append.2 ⟨fun inner hinner => ?_, hcovers⟩⟩
      have hbetween := hinside inner hinner
      simp only [Text.Span.Covers]
      omega

end

end Copied

/-! ## The parts of a fragment -/

section Composed

variable {limit : Nat} {text : List Char} {part : Part} {parts : List Part} {x : Fragment}

theorem references_code (h : part.Nested limit text) :
    references part.code = (flattenHosts part.hosts).length := by
  have hhosts := h.hostsBetween
  cases part with
  | expression value => exact references_copied hhosts
  | default patternStop value =>
    rw [Part.code, references_trimmed]
    exact references_copied hhosts
  | verbatim span => rfl

/-- The code of a part copies nothing outside of it, and no host form of the part starts in what is
copied. -/
theorem copies_code (h : part.Nested limit text) (hproper : AllProper part.hosts) :
    ∀ span ∈ copies part.code, part.span.start ≤ span.start ∧ span.stop ≤ part.span.stop ∧
      ∀ host ∈ flattenHosts part.hosts, ¬ span.Covers host.span.start := by
  have hhosts := h.hostsBetween
  cases part with
  | expression value => exact copies_copied hhosts hproper
  | default patternStop value =>
    rw [Part.code, copies_trimmed]
    exact copies_copied hhosts hproper
  | verbatim span =>
    exact List.forall_mem_singleton.2 ⟨Nat.le_refl _, Nat.le_refl _, List.forall_mem_nil _⟩

theorem references_of_composed (h : Composed parts x)
    (hparts : ∀ part ∈ parts, part.Nested limit text) :
    references x = (flattenHosts (parts.flatMap Part.hosts)).length := by
  induction h with
  | nil | text => rfl
  | part part =>
    rw [references_code (hparts part List.mem_cons_self), List.flatMap_singleton]
  | append _ _ hx hy =>
    obtain ⟨hfirst, hlater⟩ := List.forall_mem_append.1 hparts
    rw [references_append, hx hfirst, hy hlater, List.flatMap_append, flattenHosts_append,
      List.length_append]

theorem copies_of_composed (h : Composed parts x) :
    copies x = parts.flatMap fun part => copies part.code := by
  induction h with
  | nil | text => rfl
  | part part => rw [List.flatMap_singleton]
  | append _ _ hx hy => rw [copies_append, hx, hy, List.flatMap_append]

end Composed

/-! ## Sites before a stretch -/

section Sites

variable {cursor stop : Nat} {front sites : List HostSite}

/-- The loop passes over sites that start before the stretch. -/
theorem splicedFrom_before (h : ∀ site ∈ front, site.1.start < cursor) :
    splicedFrom cursor stop (front ++ sites) = splicedFrom cursor stop sites := by
  induction front with
  | nil => rfl
  | cons site front ih =>
    obtain ⟨hsite, hfront⟩ := List.forall_mem_cons.1 h
    rw [List.cons_append, splicedFrom, if_pos (.inl hsite), ih hfront]

theorem skippedFrom_before (h : ∀ site ∈ front, site.1.start < cursor) :
    skippedFrom cursor stop (front ++ sites) = front ++ skippedFrom cursor stop sites := by
  induction front with
  | nil => rfl
  | cons site front ih =>
    obtain ⟨hsite, hfront⟩ := List.forall_mem_cons.1 h
    rw [List.cons_append, skippedFrom, if_pos (.inl hsite), ih hfront, List.cons_append]

theorem splicedFrom_outside (h : ∀ site ∈ sites, site.1.start < cursor ∨ stop < site.1.stop) :
    splicedFrom cursor stop sites = [.copy ⟨cursor, stop⟩] := by
  induction sites with
  | nil => rfl
  | cons site sites ih =>
    obtain ⟨hsite, hsites⟩ := List.forall_mem_cons.1 h
    rw [splicedFrom, if_pos hsite, ih hsites]

/-- Where no site lies in the stretch it is copied as if there were none. -/
theorem spliced_outside {span : Span}
    (h : ∀ site ∈ sites, site.1.start < span.start ∨ span.stop < site.1.stop) :
    spliced span sites = [.copy span] :=
  splicedFrom_outside fun site hsite => h site (List.mem_mergeSort.1 hsite)

end Sites

end Code

/-! ## Parameters -/

/-- The outermost host forms of a pattern. -/
def Snippet.Pattern.hosts (p : Pattern) : List HostForm :=
  p.parts.flatMap Part.hosts

namespace Snippet.Parameter

/-- The outermost host forms of a parameter, also those of its pattern. -/
def hosts (q : Parameter) : List HostForm :=
  q.parts.flatMap Part.hosts

/-- The stretch of the source from the end of the pattern to the end of a default value. -/
def tail (q : Parameter) (value : Expression) : Span :=
  ⟨q.pattern.span.stop, value.span.stop⟩

/-- The host forms of a parameter are replaced once each, those of the pattern by the code of the
pattern and those of the default value by the loop through what is copied with it. -/
structure SplicedOnce (options : Options) (source : List Char) (q : Parameter) : Prop where
  /-- Without a default value the code is that of the pattern. -/
  bare : q.value = none → Code.parameter q = Code.pattern q.pattern
  /-- A default value comes after the pattern and one blank, together with what stands before it,
  with its host forms replaced, and trimmed.  Something is left to come after the blank. -/
  text : ∀ value, q.value = some value →
    let rest := Text.trim (replaced
      (replacements options.moduleBinding.toList source value.hosts) source (q.tail value))
    rest ≠ [] ∧ Code.textOf options.filling source (Code.parameter q) =
      Code.textOf options.filling source (Code.pattern q.pattern) ++ ' ' :: rest
  /-- The code of the pattern has its expressions once each and in order, with their host forms
  replaced. -/
  pattern : Composed q.pattern.parts (Code.pattern q.pattern) ∧
    ∀ e ∈ q.pattern.parts.flatMap Part.expressions, e.IsSpliced options source
  /-- Of the host forms of the whole parameter, in whatever order they are found, the loop skips
  those of the pattern and no other. -/
  skipped : ∀ value, q.value = some value → q.hosts = q.pattern.hosts ++ value.hosts ∧
    ∀ found, found.Perm (Code.hostSites q.hosts) →
      Code.skipped (q.tail value) found = Code.hostSites q.pattern.hosts ∧
        Code.trimmed (Code.spliced (q.tail value) found) =
          (Part.default q.pattern.span.stop value).code
  /-- If no site lies in what is copied, it is copied as if none were found. -/
  outside : ∀ value, q.value = some value → ∀ found : List Code.HostSite,
    (∀ site ∈ found, site.1.start < (q.tail value).start ∨ (q.tail value).stop < site.1.stop) →
      Code.spliced (q.tail value) found = Code.spliced (q.tail value) []
  /-- What is copied without host forms stands in the code as it is, but trimmed. -/
  plain : ∀ value, q.value = some value → value.hosts = [] →
    Code.textOf options.filling source (Code.parameter q) =
      Code.textOf options.filling source (Code.pattern q.pattern) ++
        ' ' :: Text.trim ((q.tail value).slice source)
  /-- No host form is copied, at any depth. -/
  gone : ∀ span ∈ Code.copies (Code.parameter q), ∀ host ∈ flattenHosts q.hosts,
    ¬ span.Covers host.span.start
  /-- The code refers to the module object as often as there are host forms, at any depth. -/
  once : Code.references (Code.parameter q) = (flattenHosts q.hosts).length

end Snippet.Parameter

section Parameters

variable {options : Options} {source : List Char} {q : Parameter} {value : Expression}
variable {start stop : Nat}

theorem Snippet.Parameter.parts_of_value (h : q.value = some value) :
    q.parts = q.pattern.parts ++ [.default q.pattern.span.stop value] := by
  rw [Parameter.parts, h]
  rfl

theorem Snippet.Parameter.hosts_of_value (h : q.value = some value) :
    q.hosts = q.pattern.hosts ++ value.hosts := by
  rw [Parameter.hosts, Parameter.parts_of_value h, List.flatMap_append, List.flatMap_singleton]
  rfl

/-- The host forms of the pattern start before what is copied with the default value. -/
theorem hosts_before_tail (hordered : Ordered start stop (q.parts.map Part.span))
    (hnested : ∀ part ∈ q.parts, part.Nested (byteSize source) source)
    (hvalue : q.value = some value) :
    ∀ site ∈ Code.hostSites q.pattern.hosts, site.1.start < (q.tail value).start := by
  rw [Parameter.parts_of_value hvalue] at hordered hnested
  rw [List.map_append] at hordered
  have hbefore := (List.pairwise_append.1 hordered.pairwise).2.2
  intro site hsite
  rw [Code.hostSites_eq_map] at hsite
  obtain ⟨host, hhost, rfl⟩ := List.mem_map.1 hsite
  obtain ⟨part, hpart, hhost⟩ := List.mem_flatMap.1 hhost
  have hle : part.span.stop ≤ q.pattern.span.stop :=
    hbefore _ (List.mem_map_of_mem hpart) _ List.mem_cons_self
  have hhosts := (hnested part (List.mem_append_left _ hpart)).hostsBetween
  obtain ⟨-, hlt, hstop⟩ := hhosts.ordered.between_of_mem _ (List.mem_map_of_mem hhost)
  rw [Code.hostSite_span]
  exact Nat.lt_of_lt_of_le (Nat.lt_of_lt_of_le hlt hstop) hle

/-- What is copied with a default value has its host forms replaced and is trimmed. -/
theorem textOf_default {patternStop : Nat} (hname : Code.NameShown options.filling)
    (hlt : patternStop < value.span.stop)
    (h : (Part.default patternStop value).Nested (byteSize source) source) :
    let rest := Text.trim (replaced (replacements options.moduleBinding.toList source value.hosts)
      source ⟨patternStop, value.span.stop⟩)
    rest ≠ [] ∧
      Code.textOf options.filling source (Part.default patternStop value).code = rest := by
  have hhosts : HostsBetween (byteSize source) source patternStop value.span.stop value.hosts :=
    h.hostsBetween
  obtain ⟨hstart, -, hvalue⟩ := h
  have hends := hvalue.onTokens.stops
  have hlast := Code.last_copied hname hhosts hstart.boundary hends hlt
  have hcopied : Code.textOf options.filling source
      (Code.copied patternStop value.span.stop value.hosts) =
      replaced (replacements options.moduleBinding.toList source value.hosts) source
        ⟨patternStop, value.span.stop⟩ :=
    Code.textOf_copied hhosts hstart.boundary hends.boundary
  rw [Part.code, Code.textOf_trimmed hname hhosts, ← Text.trim_of_last hlast, ← hcopied]
  exact ⟨Text.trim_ne_nil hlast, rfl⟩

/-- The host forms of a parameter are replaced once each if its parts follow each other and what
they hold lies in them. -/
theorem Snippet.Parameter.splicedOnce (hname : Code.NameShown options.filling)
    (hordered : Ordered start stop (q.parts.map Part.span))
    (hnested : ∀ part ∈ q.parts, part.Nested (byteSize source) source)
    (hproper : ∀ part ∈ q.parts, AllProper part.hosts) : q.SplicedOnce options source := by
  have hhosts := hostsBetween_flatMap hordered hnested
  have hcode {value : Expression} (hvalue : q.value = some value) : Code.parameter q =
      Code.pattern q.pattern ++ [Piece.text " "] ++
        (Part.default q.pattern.span.stop value).code := by
    rw [Code.parameter, hvalue]
    rfl
  have hmem {value : Expression} (hvalue : q.value = some value) :
      Part.default q.pattern.span.stop value ∈ q.parts :=
    Parameter.parts_of_value hvalue ▸ List.mem_append_right _ List.mem_cons_self
  have htext {value : Expression} (hvalue : q.value = some value) :
      let rest := Text.trim (replaced
        (replacements options.moduleBinding.toList source value.hosts) source (q.tail value))
      rest ≠ [] ∧ Code.textOf options.filling source (Code.parameter q) =
        Code.textOf options.filling source (Code.pattern q.pattern) ++ ' ' :: rest := by
    have hlt : q.pattern.span.stop < value.span.stop :=
      (hordered.between_of_mem _ (List.mem_map_of_mem (hmem hvalue))).2.1
    obtain ⟨hne, hdefault⟩ := textOf_default hname hlt (hnested _ (hmem hvalue))
    refine ⟨hne, ?_⟩
    rw [hcode hvalue, Code.textOf_append, Code.textOf_append, hdefault]
    simp [Code.textOf, Piece.fill, Parameter.tail]
  refine ⟨fun hvalue => ?_, fun value => htext, ⟨Code.composed_pattern q.pattern, ?_⟩,
    fun value hvalue => ⟨Parameter.hosts_of_value hvalue, fun found hfound => ?_⟩,
    fun value hvalue found hfound => ?_, fun value hvalue hnone => ?_, ?_, ?_⟩
  · rw [Code.parameter, hvalue]
  · intro e he
    obtain ⟨part, hpart, he⟩ := List.mem_flatMap.1 he
    have hpart : part ∈ q.parts := List.mem_append_left _ hpart
    exact ((hnested part hpart).expressions e he).isSpliced
  · have hsorted := Code.mergeSort_of_perm (Code.hostSites_ordered hhosts) hfound
    have hbefore := hosts_before_tail hordered hnested hvalue
    have hvalues : HostsBetween (byteSize source) source q.pattern.span.stop value.span.stop
        value.hosts := (hnested _ (hmem hvalue)).hostsBetween
    have hsites : Code.hostSites (q.parts.flatMap Part.hosts) =
        Code.hostSites q.pattern.hosts ++ Code.hostSites value.hosts := by
      rw [← Parameter.hosts, Parameter.hosts_of_value hvalue, Code.hostSites_eq_map,
        Code.hostSites_eq_map, Code.hostSites_eq_map, List.map_append]
    rw [hsites] at hsorted
    constructor
    · have hnone : Code.skippedFrom (q.tail value).start (q.tail value).stop
          (Code.hostSites value.hosts) = [] :=
        Code.skippedFrom_eq_nil (Code.hostSites_ordered hvalues)
      rw [Code.skipped, hsorted, Code.skippedFrom_before hbefore, hnone, List.append_nil]
    · rw [Code.spliced, hsorted, Code.splicedFrom_before hbefore, Part.code,
        Code.copied_eq_splicedFrom hvalues]
      rfl
  · rw [Code.spliced_outside hfound, Code.spliced_outside (List.forall_mem_nil _)]
  · rw [(htext hvalue).2, hnone, replacements, replaced,
      replacedFrom_before (List.forall_mem_nil _)]
  · intro span hspan host hhost
    rw [Code.copies_of_composed (Code.composed_parameter q)] at hspan
    obtain ⟨part, hpart, hspan⟩ := List.mem_flatMap.1 hspan
    obtain ⟨other, hother, hhost⟩ := mem_flattenHosts_flatMap.1 hhost
    obtain ⟨hlow, hhigh, hclear⟩ :=
      Code.copies_code (hnested part hpart) (hproper part hpart) span hspan
    rcases eq_or_ne part other with rfl | hne
    · exact hclear host hhost
    -- What is copied for one part lies apart from the host forms of another one.
    · have hbetween := flattenHosts_between (hnested other hother).hostsBetween host hhost
      have happart := hordered.apart hpart hother hne
      rintro ⟨hle, hlt⟩
      omega
  · exact Code.references_of_composed (Code.composed_parameter q) hnested

end Parameters

/-- The parameters of a function or method. -/
def Snippet.Node.parameters : Node → List Parameter
  | .callable c => c.parameters
  | .statement _ | .body _ | .definition _ | .member _ => []

/-- The parameters of all functions and methods that re-emission walks through. -/
def Snippet.Program.parameters (p : Program) : List Parameter :=
  p.nodes.flatMap Node.parameters

/-- **Host forms in parameters are replaced exactly once.**  The code of a parameter is that of its
pattern, and with a default value one blank and what is copied of the source up to the end of the
default value, trimmed and with every outermost host form in it replaced.  The loop skips just the
host forms of the pattern, each of which the code of the pattern replaces.  In all of this no host
form is left, at any depth, and each is written once. -/
theorem parameters_are_spliced_once {options : Options} (hvalid : options.validate = .ok ())
    {source : List Char} {p : Program} (hp : parse source = .ok p) :
    ∀ q ∈ p.parameters, q.SplicedOnce options source := by
  intro q hq
  obtain ⟨node, hnode, hq⟩ := List.mem_flatMap.1 hq
  have hparts : q.parts.Sublist (listParts true p.statements) := by
    refine .trans ?_ (Node.parts_sublist_list p.statements hnode)
    cases node with
    | callable c =>
      have hall : q.parts.Sublist (c.parameters.flatMap Parameter.parts) :=
        List.sublist_flatten_of_mem (List.mem_map_of_mem hq)
      rw [Node.parts, Code.callableParts_eq]
      exact List.sublist_append_of_sublist_left (List.sublist_append_of_sublist_left hall)
    | statement | body | definition | member => nomatch hq
  obtain ⟨s, s', hlimit, hhosts, hhere, hreads, -⟩ := Program.parse_reads (parse_eq_ok.1 hp)
  have hreads := hreads.sublist (List.sublist_append_of_sublist_right hparts)
  have hname := nameShown_of_isBindingName (Options.validate_ok.1 hvalid).2.2
  refine q.splicedOnce hname hreads.ordered (fun part hpart => ?_) (hreads.proper ?_).2
  · exact hlimit ▸ (hreads.nested part hpart).mono hhere
  · rw [hhosts]
    trivial

/-- A host form in a computed name of the pattern, and two in the default value, one of them in the
specifier of the other. -/
theorem host_forms_of_pattern_and_default :
    let source := "function f({ [import.meta.a]: x } = import(import.meta.b)) {}".toList
    Options.validate {} = .ok () ∧ ∃ p q, parse source = .ok p ∧ q ∈ p.parameters ∧
      (flattenHosts q.hosts).map HostForm.span = [⟨14, 25⟩, ⟨36, 57⟩, ⟨43, 54⟩] ∧
      Code.references (Code.parameter q) = 3 ∧
      String.ofList (Code.textOf ({} : Options).filling source (Code.parameter q)) =
        "\x7b[__module__.meta.a]: x\x7d = __module__.import(__module__.meta.b)" := by
  intro source
  have hvalid : Options.validate {} = .ok () := Code.eq_ok_of_toOption (by decide +kernel)
  have hspans : (parse source).toOption.map (fun p => p.parameters.map fun q =>
      (flattenHosts q.hosts).map HostForm.span) = some [[⟨14, 25⟩, ⟨36, 57⟩, ⟨43, 54⟩]] := by
    decide +kernel
  have htexts : (parse source).toOption.map (fun p => p.parameters.map fun q =>
      q.value.map fun value => String.ofList
        (Code.textOf ({} : Options).filling source (Code.pattern q.pattern) ++ ' ' :: Text.trim
          (replaced (replacements "__module__".toList source value.hosts) source (q.tail value)))) =
      some [some "\x7b[__module__.meta.a]: x\x7d = __module__.import(__module__.meta.b)"] := by
    decide +kernel
  cases hp : parse source with
  | error e =>
    rw [hp] at hspans
    cases hspans
  | ok p =>
    rw [hp] at hspans htexts
    obtain ⟨q, hq, hspans⟩ := List.map_eq_singleton_iff.1 (Option.some.inj hspans)
    have hmem : q ∈ p.parameters := hq ▸ List.mem_cons_self
    have hspliced := parameters_are_spliced_once hvalid hp q hmem
    have htext := Option.some.inj htexts
    dsimp only at htext
    rw [hq, List.map_singleton] at htext
    obtain ⟨value, hvalue, htext⟩ := Option.map_eq_some_iff.1 (List.cons.inj htext).1
    refine ⟨hvalid, p, q, rfl, hmem, hspans, ?_, ?_⟩
    · rw [hspliced.once, ← List.length_map HostForm.span, hspans]
      rfl
    · rw [(hspliced.text value hvalue).2]
      exact htext

end Rebind
