import Mathlib.Data.List.Nodup
import Mathlib.Data.List.TakeWhile
import Rebind.Proofs.KeptParts
import Rebind.Proofs.Splicing.Reference
import Rebind.Proofs.Splicing.Stretches

/-!
# Host forms are replaced where they stand

An expression is copied by a loop that goes through the host forms from left to right and skips
those that overlap what is copied already.  In an expression as it is read the host forms follow
each other, so none of them is skipped, and the code of the expression is that of the reference
(`expressions_are_spliced`).
-/

namespace Rebind

open Rebind.Text (Span Boundary byteSize isBlank)
open Rebind.Snippet

/-! ## The loop -/

namespace Code

/-- The sites that the loop skips. -/
def skippedFrom (cursor stop : Nat) : List HostSite → List HostSite
  | [] => []
  | site :: sites =>
    if site.1.start < cursor ∨ stop < site.1.stop then site :: skippedFrom cursor stop sites
    else skippedFrom site.1.stop stop sites

/-- The sites of an expression that are skipped, in whatever order they are found. -/
def skipped (span : Span) (sites : List HostSite) : List HostSite :=
  skippedFrom span.start span.stop (sites.mergeSort fun a b => a.1.start ≤ b.1.start)

variable {cursor stop : Nat} {sites : List HostSite}

theorem skippedFrom_eq_nil (h : Ordered cursor stop (sites.map Prod.fst)) :
    skippedFrom cursor stop sites = [] := by
  induction sites generalizing cursor with
  | nil => rfl
  | cons site sites ih =>
    obtain ⟨hstart, -, hstop, hrest⟩ := h
    rw [skippedFrom, if_neg (by omega), ih hrest]

variable {filling : Filling} {source : List Char}

theorem textOf_append (front back : Fragment) :
    textOf filling source (front ++ back) =
      textOf filling source front ++ textOf filling source back :=
  List.flatMap_append

theorem textOf_cons (piece : Piece) (fragment : Fragment) :
    textOf filling source (piece :: fragment) =
      (piece.fill filling source).toList ++ textOf filling source fragment :=
  List.flatMap_cons

/-- A site that is not skipped. -/
theorem textOf_splicedFrom_cons {site : HostSite} (hstart : cursor ≤ site.1.start)
    (hend : site.1.stop ≤ stop) :
    textOf filling source (splicedFrom cursor stop (site :: sites)) =
      Span.slice ⟨cursor, site.1.start⟩ source ++ (textOf filling source site.2 ++
        textOf filling source (splicedFrom site.1.stop stop sites)) := by
  rw [splicedFrom, if_neg (by omega), ← textOf_append]
  simp [textOf, Piece.fill]

/-- The sites with the texts that stand for them. -/
def tableOf (filling : Filling) (source : List Char) (sites : List HostSite) : List Replacement :=
  sites.map fun site => (site.1, textOf filling source site.2)

/-- No site cuts a character. -/
def Uncut (source : List Char) (sites : List HostSite) : Prop :=
  ∀ site ∈ sites, Boundary source site.1.start ∧ Boundary source site.1.stop

/-- The loop and the reference agree from an offset on, at which the sites follow each other. -/
theorem textOf_splicedFrom (h : Ordered cursor stop (sites.map Prod.fst))
    (huncut : Uncut source sites) (hcursor : Boundary source cursor)
    (hstop : Boundary source stop) :
    textOf filling source (splicedFrom cursor stop sites) =
      replacedFrom (tableOf filling source sites) cursor (Span.slice ⟨cursor, stop⟩ source) := by
  induction sites generalizing cursor with
  | nil =>
    rw [replacedFrom_before (by simp [tableOf])]
    simp [splicedFrom, textOf, Piece.fill]
  | cons site sites ih =>
    obtain ⟨span, replacement⟩ := site
    obtain ⟨hstart, hlt, hend, hrest⟩ := h
    obtain ⟨⟨hlow, hhigh⟩, huncut⟩ := List.forall_mem_cons.1 huncut
    dsimp only at hstart hlt hend hrest hlow hhigh
    have hlater : ∀ entry ∈ tableOf filling source sites, span.stop ≤ entry.1.start := by
      intro entry hentry
      obtain ⟨site, hsite, rfl⟩ := List.mem_map.1 hentry
      exact (hrest.between_of_mem _ (List.mem_map_of_mem hsite)).1
    -- The stretch is what stands before the site, the site, and what stands past it.
    rw [← hcursor.slice_append hlow hstop hstart (by omega),
      ← hlow.slice_append hhigh hstop (Nat.le_of_lt hlt) hend, replacedFrom_append,
      replacedFrom_append, hcursor.byteSize_slice hlow hstart,
      hlow.byteSize_slice hhigh (Nat.le_of_lt hlt)]
    have hbefore : replacedFrom (tableOf filling source ((span, replacement) :: sites)) cursor
        (Span.slice ⟨cursor, span.start⟩ source) = Span.slice ⟨cursor, span.start⟩ source := by
      refine replacedFrom_before ?_
      rw [hcursor.byteSize_slice hlow hstart]
      exact List.forall_mem_cons.2
        ⟨Nat.le_refl _, fun entry hentry => Nat.le_trans (Nat.le_of_lt hlt) (hlater entry hentry)⟩
    have hsite : replacedFrom (tableOf filling source ((span, replacement) :: sites)) span.start
        (Span.slice ⟨span.start, span.stop⟩ source) = textOf filling source replacement :=
      replacedFrom_entry (hlow.byteSize_slice hhigh (Nat.le_of_lt hlt)) hlt hlater
    have hpast : replacedFrom (tableOf filling source ((span, replacement) :: sites)) span.stop
        (Span.slice ⟨span.stop, stop⟩ source) =
          textOf filling source (splicedFrom span.stop stop sites) := by
      rw [ih hrest huncut hhigh]
      exact replacedFrom_past hlt (Nat.le_refl _)
    rw [hbefore, hsite, hpast, textOf_splicedFrom_cons hstart hend]

/-- Sorting puts sites that follow each other in that order, in whatever order they are found. -/
theorem mergeSort_of_perm {found : List HostSite} (h : Ordered cursor stop (sites.map Prod.fst))
    (hperm : found.Perm sites) :
    (found.mergeSort fun a b => a.1.start ≤ b.1.start) = sites := by
  have hstrict : sites.Pairwise fun a b => a.1.start < b.1.start := by
    refine (List.pairwise_map.1 h.pairwise).imp_of_mem fun {a b} ha _ hle => ?_
    obtain ⟨-, hlt, -⟩ := h.between_of_mem _ (List.mem_map_of_mem ha)
    exact Nat.lt_of_lt_of_le hlt hle
  have hnodup : (sites.map fun site => site.1.start).Nodup :=
    List.pairwise_map.2 (hstrict.imp Nat.ne_of_lt)
  have hsorted : (found.mergeSort fun a b => a.1.start ≤ b.1.start).Pairwise
      fun a b => a.1.start ≤ b.1.start := by
    have hpairwise := @List.pairwise_mergeSort _ (fun a b : HostSite => a.1.start ≤ b.1.start)
      (fun _ _ _ hab hbc =>
        decide_eq_true (Nat.le_trans (of_decide_eq_true hab) (of_decide_eq_true hbc)))
      (fun a b => by simpa using Nat.le_total a.1.start b.1.start) found
    exact hpairwise.imp of_decide_eq_true
  have hsame := (List.mergeSort_perm found fun a b => a.1.start ≤ b.1.start).trans hperm
  refine hsame.eq_of_pairwise (fun a b ha hb hab hba => ?_) hsorted (hstrict.imp Nat.le_of_lt)
  exact List.inj_on_of_nodup_map hnodup (hsame.subset ha) hb (Nat.le_antisymm hab hba)

theorem hostSite_span [Wording] (host : HostForm) : (hostSite host).1 = host.span := by
  cases host <;> rfl

theorem hostSites_eq_map [Wording] (hosts : List HostForm) :
    hostSites hosts = hosts.map hostSite := by
  induction hosts with
  | nil => rfl
  | cons host hosts ih => rw [hostSites, ih, List.map_cons]

theorem hostSites_ordered [Wording] {limit : Nat} {text : List Char} {hosts : List HostForm}
    (h : HostsBetween limit text cursor stop hosts) :
    Ordered cursor stop ((hostSites hosts).map Prod.fst) := by
  have hspans : (hostSites hosts).map Prod.fst = hosts.map HostForm.span := by
    rw [hostSites_eq_map, List.map_map]
    exact List.map_congr_left fun host _ => hostSite_span host
  rw [hspans]
  exact h.ordered

theorem copied_eq_splicedFrom [Wording] {limit : Nat} {text : List Char} {hosts : List HostForm}
    (h : HostsBetween limit text cursor stop hosts) :
    copied cursor stop hosts = splicedFrom cursor stop (hostSites hosts) := by
  rw [copied, spliced, mergeSort_of_perm (hostSites_ordered h) (List.Perm.refl _)]

theorem uncut_hostSites [Wording] {hosts : List HostForm}
    (h : AllNested (byteSize source) source hosts) :
    Uncut source (hostSites hosts) := by
  induction hosts with
  | nil => nofun
  | cons host hosts ih =>
    have hhost := h.1.onTokens
    rw [← hostSite_span] at hhost
    exact List.forall_mem_cons.2 ⟨⟨hhost.starts.boundary, hhost.stops.boundary⟩, ih h.2⟩

/-- A stretch in which host forms follow each other is copied as the reference has it. -/
theorem textOf_copied_table [Wording] {hosts : List HostForm}
    (h : HostsBetween (byteSize source) source cursor stop hosts)
    (hstart : Boundary source cursor) (hstop : Boundary source stop) :
    textOf filling source (copied cursor stop hosts) =
      replaced (tableOf filling source (hostSites hosts)) source ⟨cursor, stop⟩ := by
  rw [copied_eq_splicedFrom h]
  exact textOf_splicedFrom (hostSites_ordered h) (uncut_hostSites h.nested) hstart hstop

mutual

theorem textOf_hostSite {host : HostForm} (h : host.Nested (byteSize source) source) :
    textOf filling source (hostSite host).2 =
      host.replacement filling.moduleObject.toList source := by
  cases host with
  | metadata span =>
    simp [hostSite, HostForm.replacement, textOf, Piece.fill]
  | load span specifier inner =>
    obtain ⟨-, -, -, hspecifier⟩ := HostForm.nested_load.1 h
    have hinner := table_hostSites hspecifier.hosts.nested
    have hcopied : textOf filling source (spliced specifier (hostSites inner)) =
        replaced (tableOf filling source (hostSites inner)) source specifier :=
      textOf_copied_table hspecifier.hosts hspecifier.onTokens.starts.boundary
        hspecifier.onTokens.stops.boundary
    rw [hinner] at hcopied
    rw [hostSite_load, HostForm.replacement, textOf_append, textOf_append, hcopied]
    simp [textOf, Piece.fill]

theorem table_hostSites {hosts : List HostForm} (h : AllNested (byteSize source) source hosts) :
    tableOf filling source (hostSites hosts) =
      replacements filling.moduleObject.toList source hosts := by
  cases hosts with
  | nil => rfl
  | cons host hosts =>
    rw [hostSites, tableOf, List.map_cons, hostSite_span, textOf_hostSite h.1, replacements]
    exact congrArg _ (table_hostSites h.2)

end

theorem textOf_copied {hosts : List HostForm}
    (h : HostsBetween (byteSize source) source cursor stop hosts) (hstart : Boundary source cursor)
    (hstop : Boundary source stop) :
    textOf filling source (copied cursor stop hosts) =
      replaced (replacements filling.moduleObject.toList source hosts) source ⟨cursor, stop⟩ := by
  rw [← table_hostSites h.nested]
  exact textOf_copied_table h hstart hstop

theorem textOf_expression {e : Expression} (h : e.Nested (byteSize source) source) :
    textOf filling source (expression e) =
      e.reference filling.moduleObject.toList source :=
  textOf_copied h.hosts h.onTokens.starts.boundary h.onTokens.stops.boundary

/-! ## The ends of the code -/

/-- The name of the module object starts with a character that is not blank. -/
def NameShown (filling : Filling) : Prop :=
  ∃ c cs, filling.moduleObject.toList = c :: cs ∧ isBlank c = false

theorem solid_hostSite (hname : NameShown filling) (host : HostForm) :
    Solid (textOf filling source (hostSite host).2) := by
  obtain ⟨c, cs, hcs, hc⟩ := hname
  cases host with
  | metadata span =>
    have htext : textOf filling source (hostSite (.metadata span)).2 =
        c :: (cs ++ ".met".toList ++ ['a']) := by
      simp [hostSite, textOf, Piece.fill, hcs]
    rw [htext]
    exact solid_of_ends hc (by decide)
  | load span specifier inner =>
    have htext : textOf filling source (hostSite (.load span specifier inner)).2 =
        c :: (cs ++ ".import(".toList ++
          textOf filling source (spliced specifier (hostSites inner)) ++ [')']) := by
      simp [hostSite, textOf, Piece.fill, hcs]
    rw [htext]
    exact solid_of_ends hc (by decide)

/-- The code starts with the first character of the stretch or with that of a name. -/
theorem head_splicedFrom (h : Ordered cursor stop (sites.map Prod.fst))
    (huncut : Uncut source sites) (hcursor : StartsAt (byteSize source) source cursor)
    (hstop : Boundary source stop) (hlt : cursor < stop)
    (hsolid : ∀ site ∈ sites, Solid (textOf filling source site.2)) :
    ∃ c, (textOf filling source (splicedFrom cursor stop sites)).head? = some c ∧
      isBlank c = false := by
  cases sites with
  | nil => simpa [splicedFrom, textOf, Piece.fill] using hcursor.head_slice hstop hlt
  | cons site sites =>
    obtain ⟨hstart, -, hend, -⟩ := h
    have hlow := (huncut site List.mem_cons_self).1
    rw [textOf_splicedFrom_cons hstart hend, List.head?_append]
    rcases Nat.lt_or_eq_of_le hstart with hbefore | heq
    · obtain ⟨c, hc, hshown⟩ := hcursor.head_slice hlow hbefore
      exact ⟨c, by rw [hc, Option.some_or], hshown⟩
    · obtain ⟨c, hc, hshown⟩ := (hsolid site List.mem_cons_self).head
      rw [← heq, Text.slice_of_le (Nat.le_refl _), List.head?_append, hc]
      exact ⟨c, rfl, hshown⟩

/-- The code ends with the last character of the stretch or with that of a replacement. -/
theorem last_splicedFrom (h : Ordered cursor stop (sites.map Prod.fst))
    (huncut : Uncut source sites) (hcursor : Boundary source cursor)
    (hstop : StopsAt (byteSize source) source stop) (hlt : cursor < stop)
    (hsolid : ∀ site ∈ sites, Solid (textOf filling source site.2)) :
    ∃ c, (textOf filling source (splicedFrom cursor stop sites)).getLast? = some c ∧
      isBlank c = false := by
  induction sites generalizing cursor with
  | nil => simpa [splicedFrom, textOf, Piece.fill] using hstop.last_slice hcursor hlt
  | cons site sites ih =>
    obtain ⟨hstart, -, hend, hrest⟩ := h
    obtain ⟨hsite, huncut⟩ := List.forall_mem_cons.1 huncut
    obtain ⟨hreplacement, hsolid⟩ := List.forall_mem_cons.1 hsolid
    rw [textOf_splicedFrom_cons hstart hend, List.getLast?_append, List.getLast?_append]
    rcases Nat.lt_or_eq_of_le hend with hmore | heq
    · obtain ⟨c, hc, hshown⟩ := ih hrest huncut hsite.2 hmore hsolid
      exact ⟨c, by rw [hc, Option.some_or, Option.some_or], hshown⟩
    · -- The last site goes to the end.
      have hlast : sites = [] := by
        cases sites with
        | nil => rfl
        | cons next sites =>
          obtain ⟨hle, hlt, hle', -⟩ := hrest
          omega
      have hnothing : textOf filling source (splicedFrom site.1.stop stop sites) = [] := by
        subst hlast
        simp [splicedFrom, textOf, Piece.fill, ← heq, Text.slice_of_le]
      obtain ⟨c, hc, hshown⟩ := hreplacement.last
      exact ⟨c, by rw [hnothing, List.getLast?_nil, Option.none_or, hc, Option.some_or], hshown⟩

theorem solid_hostSites (hname : NameShown filling) (hosts : List HostForm) :
    ∀ site ∈ hostSites hosts, Solid (textOf filling source site.2) := by
  intro site hsite
  rw [hostSites_eq_map] at hsite
  obtain ⟨host, -, rfl⟩ := List.mem_map.1 hsite
  exact solid_hostSite hname host

section Ends

variable {hosts : List HostForm}

theorem last_copied (hname : NameShown filling)
    (h : HostsBetween (byteSize source) source cursor stop hosts) (hstart : Boundary source cursor)
    (hstop : StopsAt (byteSize source) source stop) (hlt : cursor < stop) :
    ∃ c, (textOf filling source (copied cursor stop hosts)).getLast? = some c ∧
      isBlank c = false := by
  rw [copied_eq_splicedFrom h]
  exact last_splicedFrom (hostSites_ordered h) (uncut_hostSites h.nested) hstart hstop hlt
    (solid_hostSites hname hosts)

theorem solid_copied (hname : NameShown filling)
    (h : HostsBetween (byteSize source) source cursor stop hosts)
    (hstart : StartsAt (byteSize source) source cursor)
    (hstop : StopsAt (byteSize source) source stop) (hlt : cursor < stop) :
    Solid (textOf filling source (copied cursor stop hosts)) := by
  refine ⟨?_, last_copied hname h hstart.boundary hstop hlt⟩
  rw [copied_eq_splicedFrom h]
  exact head_splicedFrom (hostSites_ordered h) (uncut_hostSites h.nested) hstart hstop.boundary hlt
    (solid_hostSites hname hosts)

/-- What is copied first loses the blanks at its start, and so does the whole code. -/
theorem textOf_trimmed (hname : NameShown filling)
    (h : HostsBetween (byteSize source) source cursor stop hosts) :
    textOf filling source (trimmed (copied cursor stop hosts)) =
      (textOf filling source (copied cursor stop hosts)).dropWhile isBlank := by
  rw [copied_eq_splicedFrom h]
  have hordered := hostSites_ordered h
  have hsolid : ∀ site ∈ hostSites hosts, Solid (textOf filling source site.2) :=
    solid_hostSites hname hosts
  generalize hostSites hosts = sites at hordered hsolid
  cases sites with
  | nil => simp [splicedFrom, trimmed, textOf, Piece.fill]
  | cons site sites =>
    obtain ⟨hstart, -, hend, -⟩ := hordered
    obtain ⟨c, hc, hshown⟩ := (hsolid site List.mem_cons_self).head
    obtain ⟨rest, hrest⟩ := List.head?_eq_some_iff.1 hc
    have htrimmed : textOf filling source (trimmed (splicedFrom cursor stop (site :: sites))) =
        (Span.slice ⟨cursor, site.1.start⟩ source).dropWhile isBlank ++
          (textOf filling source site.2 ++
            textOf filling source (splicedFrom site.1.stop stop sites)) := by
      rw [splicedFrom, if_neg (by omega), trimmed, ← textOf_append]
      simp [textOf, Piece.fill]
    rw [htrimmed, textOf_splicedFrom_cons hstart hend, hrest, List.dropWhile_append]
    split
    · next hblank =>
      rw [List.isEmpty_iff.1 hblank, List.nil_append, List.cons_append,
        List.dropWhile_cons_of_neg (by simp [hshown])]
    · rfl

end Ends

end Code

namespace Text

variable {cs : List Char}

/-- A text that does not end with a blank is trimmed at its start only. -/
theorem trim_of_last (h : ∃ c, cs.getLast? = some c ∧ isBlank c = false) :
    trim cs = cs.dropWhile isBlank := by
  obtain ⟨c, hlast, hc⟩ := h
  obtain ⟨front, rfl⟩ := List.getLast?_eq_some_iff.1 hlast
  obtain ⟨kept, hkept⟩ : ∃ kept, (front ++ [c]).dropWhile isBlank = kept ++ [c] := by
    rw [List.dropWhile_append]
    split
    · exact ⟨[], List.dropWhile_cons_of_neg (by simp [hc])⟩
    · exact ⟨_, rfl⟩
  rw [trim, hkept, trimEnd, List.reverse_append, List.reverse_singleton, List.singleton_append,
    List.dropWhile_cons_of_neg (by simp [hc]), List.reverse_cons, List.reverse_reverse]

/-- Something is left of a text that does not end with a blank. -/
theorem trim_ne_nil (h : ∃ c, cs.getLast? = some c ∧ isBlank c = false) :
    trim cs ≠ [] := by
  rw [trim_of_last h]
  obtain ⟨c, hlast, hc⟩ := h
  intro hnil
  have hblank := List.dropWhile_eq_nil_iff.1 hnil c (List.mem_of_getLast? hlast)
  rw [hc] at hblank
  cases hblank

/-- A text without blanks at its ends is trimmed already. -/
theorem trim_of_solid (h : Solid cs) : trim cs = cs := by
  obtain ⟨c, hhead, hc⟩ := h.head
  obtain ⟨rest, rfl⟩ := List.head?_eq_some_iff.1 hhead
  rw [trim_of_last h.last, List.dropWhile_cons_of_neg (by simp [hc])]

end Text

/-- A stretch from a token to a token has no blanks at its ends. -/
theorem Code.trim_copied {filling : Filling} {source : List Char} {start stop : Nat}
    {hosts : List HostForm} (hname : NameShown filling)
    (h : HostsBetween (byteSize source) source start stop hosts)
    (htokens : OnTokens (byteSize source) source ⟨start, stop⟩) :
    Text.trim (textOf filling source (copied start stop hosts)) =
      textOf filling source (copied start stop hosts) := by
  rcases Nat.lt_or_ge start stop with hlt | hge
  · exact Text.trim_of_solid (solid_copied hname h htokens.starts htokens.stops hlt)
  · rw [textOf_copied h htokens.starts.boundary htokens.stops.boundary, replaced,
      Text.slice_of_le hge]
    rfl

/-! ## Expressions at any depth -/

mutual

/-- The specifiers in a host form, as expressions, also those in them. -/
def Snippet.HostForm.specifiers : HostForm → List Expression
  | .metadata _ => []
  | .load _ specifier inner => ⟨specifier, inner⟩ :: specifiersIn inner

def specifiersIn : List HostForm → List Expression
  | [] => []
  | host :: hosts => host.specifiers ++ specifiersIn hosts

end

/-- The expression of a part with the specifiers in it. -/
def Snippet.Part.expressions : Part → List Expression
  | .expression e | .default _ e => e :: specifiersIn e.hosts
  | .verbatim _ => []

/-- The copied expressions of a snippet, also those in what is left out, and the specifiers in
them. -/
def Snippet.Program.expressions (p : Program) : List Expression :=
  (listParts true p.statements).flatMap Part.expressions

mutual

theorem nested_specifiers {limit : Nat} {text : List Char} {host : HostForm}
    (h : host.Nested limit text) : ∀ e ∈ host.specifiers, e.Nested limit text := by
  cases host with
  | metadata span => nofun
  | load span specifier inner =>
    obtain ⟨-, -, -, hspecifier⟩ := HostForm.nested_load.1 h
    exact List.forall_mem_cons.2 ⟨hspecifier, nested_specifiersIn hspecifier.hosts.nested⟩

theorem nested_specifiersIn {limit : Nat} {text : List Char} {hosts : List HostForm}
    (h : AllNested limit text hosts) : ∀ e ∈ specifiersIn hosts, e.Nested limit text := by
  cases hosts with
  | nil => nofun
  | cons host hosts =>
    exact List.forall_mem_append.2 ⟨nested_specifiers h.1, nested_specifiersIn h.2⟩

end

theorem Snippet.Part.Nested.expressions {limit : Nat} {text : List Char} {part : Part}
    (h : part.Nested limit text) : ∀ e ∈ part.expressions, e.Nested limit text := by
  have hvalue {e : Expression} (h : e.Nested limit text) :
      ∀ inner ∈ e :: specifiersIn e.hosts, inner.Nested limit text :=
    List.forall_mem_cons.2 ⟨h, nested_specifiersIn h.hosts.nested⟩
  cases part with
  | expression e => exact hvalue h
  | default patternStop e => exact hvalue h.2.2
  | verbatim span => nofun

theorem Options.checkBinding_ok {option name : String} {u : Unit} :
    checkBinding option name = .ok u ↔ isBindingName name = true := by
  unfold checkBinding
  split <;> simp_all

theorem Options.validate_ok {options : Options} :
    options.validate = .ok () ↔ isBindingName options.globalBinding = true ∧
      isBindingName options.scopeBinding = true ∧ isBindingName options.moduleBinding = true := by
  simp only [validate, Code.bind_eq_ok, checkBinding_ok, exists_const]

theorem nameShown_of_isBindingName {options : Options}
    (h : isBindingName options.moduleBinding = true) : Code.NameShown options.filling := by
  have hname := (Bool.and_eq_true_iff.1 h).1
  unfold Unicode.isIdentifierName at hname
  split at hname
  · cases hname
  · next c cs hcs =>
    exact ⟨c, cs, hcs, isBlank_of_isNameStart (Bool.and_eq_true_iff.1 hname).1⟩

theorem toList_text (filling : Filling) (source : List Char) (part : Part) :
    (part.text filling source).toList = Code.textOf filling source part.code := by
  rw [Part.text, String.toList_join, List.flatMap_map]
  rfl

/-- The code of an expression is its source with every host form replaced. -/
structure Snippet.Expression.IsSpliced (options : Options) (source : List Char)
    (e : Expression) : Prop where
  /-- Host forms lie in the expression. -/
  inside : ∀ host ∈ e.hosts, e.span.start ≤ host.span.start ∧
    host.span.start < host.span.stop ∧ host.span.stop ≤ e.span.stop
  /-- Host forms do not overlap. -/
  apart : (e.hosts.map HostForm.span).Pairwise fun a b => a.stop ≤ b.start
  /-- The loop skips no host form, in whatever order they are found. -/
  kept : ∀ found, found.Perm (Code.hostSites e.hosts) →
    Code.skipped e.span found = [] ∧ Code.spliced e.span found = Code.expression e
  /-- The text is that of the reference. -/
  text : (Part.expression e).text options.filling source =
    String.ofList (e.reference options.moduleBinding.toList source)
  /-- Without host forms it is the source as it is. -/
  plain : e.hosts = [] →
    (Part.expression e).text options.filling source = String.ofList (e.span.slice source)
  /-- There is nothing to trim. -/
  trimmed : isBindingName options.moduleBinding = true →
    Text.trim ((Part.expression e).text options.filling source).toList =
      ((Part.expression e).text options.filling source).toList

section Spliced

variable {options : Options} {source : List Char} {e : Expression}

theorem Snippet.Expression.Nested.text_eq (h : e.Nested (byteSize source) source) :
    (Part.expression e).text options.filling source =
      String.ofList (e.reference options.moduleBinding.toList source) := by
  have htext : ((Part.expression e).text options.filling source).toList =
      e.reference options.moduleBinding.toList source :=
    (toList_text _ _ _).trans (Code.textOf_expression h)
  rw [← htext, String.ofList_toList]

theorem Snippet.Expression.Nested.trim_text (h : e.Nested (byteSize source) source)
    (hname : isBindingName options.moduleBinding = true) :
    Text.trim ((Part.expression e).text options.filling source).toList =
      ((Part.expression e).text options.filling source).toList := by
  rw [toList_text]
  exact Code.trim_copied (nameShown_of_isBindingName hname) h.hosts h.onTokens

theorem Snippet.Expression.Nested.isSpliced (h : e.Nested (byteSize source) source) :
    e.IsSpliced options source where
  inside _ hhost := h.hosts.ordered.between_of_mem _ (List.mem_map_of_mem hhost)
  apart := h.hosts.ordered.pairwise
  kept found hfound := by
    have hordered := Code.hostSites_ordered h.hosts
    have hsorted := Code.mergeSort_of_perm hordered hfound
    constructor
    · rw [Code.skipped, hsorted, Code.skippedFrom_eq_nil hordered]
    · rw [Code.spliced, hsorted, Code.expression_eq, Code.copied_eq_splicedFrom h.hosts]
  text := h.text_eq
  plain hnone := by
    rw [h.text_eq, Expression.reference, hnone, replacements, replaced,
      replacedFrom_before (List.forall_mem_nil _)]
  trimmed hname := h.trim_text hname

end Spliced

/-! ## Collecting host forms -/

section Collecting

open Rebind.Grammar Rebind.Grammar.Parser

/-- No host form that is recorded is forgotten by a production. -/
def Grammar.Parser.KeepsHosts {α : Type} (p : Parser α) : Prop :=
  ∀ {s : State}, s.Sound → p.Ensures s fun _ s' => s.hosts <:+ s'.hosts

/-- The productions collect the host forms of an expression. -/
structure Grammar.Productions.CollectHosts (g : Productions) : Prop where
  /-- What starts with the word `import` is recorded as one host form: as the metadata object, or
  as a dynamic import. -/
  recorded (ctx : Context) {s : State} (hs : s.Sound)
    (hword : isKeyword s.lexeme.token "import" = true) :
    (primary g ctx).Ensures s fun t s' => ∃ host, s'.hosts = host :: s.hosts ∧
      host.span = t.span ∧ ((∃ span, host = .metadata span) ↔ s.BeforeMeta)
  assignment (ctx : Context) : KeepsHosts (g.assignment ctx)
  unary (ctx : Context) : KeepsHosts (g.unary ctx)
  binary (ctx : Context) (least : Nat) : KeepsHosts (g.binary ctx least)
  access (ctx : Context) (calls : Bool) : KeepsHosts (g.access ctx calls)
  pattern (ctx : Context) : KeepsHosts (g.pattern ctx)
  statement (ctx : Context) (placement : Placement) : KeepsHosts (g.statement ctx placement)
  /-- A copied expression has those that are recorded on the way through it. -/
  copied (ctx : Context) {s : State} (hs : s.Sound) :
    (expression g ctx).Ensures s fun e s' => s'.hosts = e.hosts.reverse ++ s.hosts
  copiedAssignment (ctx : Context) {s : State} (hs : s.Sound) :
    (Parser.copied (g.assignment ctx)).Ensures s fun e s' => s'.hosts = e.hosts.reverse ++ s.hosts

theorem Grammar.Productions.Sound.collectHosts {g : Productions} (hg : g.Sound) :
    g.CollectHosts where
  recorded _ _ hs hword := (primary_import hg hs hword).of fun _ _ h => h.recorded
  assignment _ _ hs := (hg.assignment _ hs).of fun _ _ h => h.toReads.hosts_suffix
  unary _ _ hs := (hg.unary _ hs).of fun _ _ h => h.toReads.hosts_suffix
  binary _ _ _ hs := (hg.binary _ _ hs).of fun _ _ h => h.toReads.hosts_suffix
  access _ _ _ hs := (hg.access _ _ hs).of fun _ _ h => h.toReads.hosts_suffix
  pattern _ _ hs := (hg.pattern _ hs).of fun _ _ h => h.toReads.hosts_suffix
  statement _ _ _ hs := (hg.statement _ _ hs).of fun _ _ h => h.toReads.hosts_suffix
  copied _ _ hs := copied_hosts (sequence_reads hg hs)
  copiedAssignment _ _ hs := copied_hosts (hg.assignment _ hs)

end Collecting

/-- **Every host form in an expression is replaced, and nothing else changes.**  If an expression
goes from a token to a token and the host forms in it follow each other, and the same holds of the
specifiers in them, then the loop skips none of them, and the code of the expression is its source
with each of them replaced.  That is so for all expressions of a snippet that is read, at any depth,
and each host form that is met on the way through an expression is among those in it, unless it lies
in another one. -/
theorem expressions_are_spliced (options : Options) (source : List Char) :
    (∀ e : Expression, e.Nested (byteSize source) source → e.IsSpliced options source) ∧
    (∀ p, parse source = .ok p → ∀ e ∈ p.expressions, e.Nested (byteSize source) source) ∧
    ∀ depth, (Grammar.Productions.upTo depth).CollectHosts := by
  refine ⟨fun e h => h.isSpliced, fun p hp e he => ?_,
    fun depth => (Grammar.Productions.sound_upTo depth).collectHosts⟩
  obtain ⟨part, hpart, he⟩ := List.mem_flatMap.1 he
  have hnested := Program.parse_nested (parse_eq_ok.1 hp) part (List.mem_append_right _ hpart)
  exact hnested.expressions e he

/-- A host form in the specifier of another one. -/
theorem nested_host_forms_are_spliced :
    let source := "import(import.meta.resolve(\"x\"))".toList
    ∃ p, parse source = .ok p ∧ p.expressions.map Expression.span = [⟨0, 32⟩, ⟨7, 31⟩] ∧
      p.expressions.map (fun e => (Part.expression e).text ({} : Options).filling source) =
        ["__module__.import(__module__.meta.resolve(\"x\"))",
          "__module__.meta.resolve(\"x\")"] := by
  intro source
  have hspans : (parse source).toOption.map (·.expressions.map Expression.span) =
      some [⟨0, 32⟩, ⟨7, 31⟩] := by decide +kernel
  have hreferences : (parse source).toOption.map
      (·.expressions.map fun e => String.ofList (e.reference "__module__".toList source)) =
      some ["__module__.import(__module__.meta.resolve(\"x\"))",
        "__module__.meta.resolve(\"x\")"] := by decide +kernel
  obtain ⟨hspliced, hread, -⟩ := expressions_are_spliced {} source
  cases hp : parse source with
  | error e =>
    rw [hp] at hspans
    cases hspans
  | ok p =>
    rw [hp] at hspans hreferences
    refine ⟨p, rfl, Option.some.inj hspans, ?_⟩
    rw [← Option.some.inj hreferences]
    exact List.map_congr_left fun e he => (hspliced e (hread p hp e he)).text

end Rebind
