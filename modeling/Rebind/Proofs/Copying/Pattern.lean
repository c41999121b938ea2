import Rebind.Proofs.Copying.Look

/-!
# Printed patterns are read again

A pattern is printed as a list of parts between two marks, as a name, or as one of these with a
default value.  Each production of patterns is looked at twice: what it answers with is printed as a
text that is `Restored`, since names, keys and expressions are, and a text that is put together in
that way is read again by the same production.
-/

namespace Rebind.Grammar

open Rebind.Text (Span byteSize byteSize_append byteSize_cons)
open Rebind.Unicode (isNameStart isNamePart isAsciiDigit)
open Rebind.Snippet
open Rebind.Grammar.Parser

/-! ## Names -/

/-- A word spelled without escapes. -/
def IsWord (name : String) : Prop :=
  ∃ c word, name.toList = c :: word ∧ isNameStart c = true ∧ ∀ d ∈ word, isNamePart d = true

/-- A word that can be a name, spelled without escapes. -/
def IsSpelled (name : String) : Prop :=
  isName {} name = true ∧ IsWord name

theorem scan_name {c : Char} {word rest : List Char} (hc : isNameStart c = true)
    (hword : ∀ d ∈ word, isNamePart d = true) (hrest : Severed rest) (offset : Nat) :
    Lexeme.scan offset (c :: word ++ rest) =
      .ok ⟨.word (String.ofList (c :: word)) false, offset, offset + byteSize (c :: word), false,
        c :: word ++ rest, rest⟩ := by
  refine Lexeme.scan_of_scanToken ?_ (scanToken_spelled hc hword hrest)
  refine ungapped_cons (isSpace_of_isNamePart (isNamePart_of_isNameStart hc)) ?_
  rintro rfl
  exact absurd hc (by decide)

theorem IsWord.scan {name : String} {rest : List Char} (h : IsWord name) (hrest : Severed rest)
    (offset : Nat) :
    Lexeme.scan offset (name.toList ++ rest) =
      .ok ⟨.word name false, offset, offset + byteSize name.toList, false, name.toList ++ rest,
        rest⟩ := by
  obtain ⟨c, word, hname, hc, hword⟩ := h
  have hscan := scan_name hc hword hrest offset
  rwa [← hname, String.ofList_toList] at hscan

namespace IsSpelled

variable {name : String} {source rest : List Char} {exports : List String} {t : State}

theorem scan (h : IsSpelled name) (hrest : Severed rest) (offset : Nat) :
    Lexeme.scan offset (name.toList ++ rest) =
      .ok ⟨.word name false, offset, offset + byteSize name.toList, false, name.toList ++ rest,
        rest⟩ :=
  h.2.scan hrest offset

theorem begins (h : IsSpelled name) (marks : List String) : Begins marks name.toList :=
  fun offset _ hrest => ⟨_, h.scan hrest.severed offset, rfl, rfl, fun _ _ => rfl⟩

theorem lexeme (h : IsSpelled name) (ht : t.Ahead source exports (name.toList ++ rest))
    (hrest : Severed rest) : t.lexeme.token = .word name false ∧ t.lexeme.rest = rest := by
  obtain ⟨offset, -, -, hl⟩ := ht.scan
  rw [Except.ok.inj (hl.symm.trans (h.scan hrest _))]
  exact ⟨rfl, rfl⟩

/-- A name is read again before whatever ends it. -/
theorem name_answers (h : IsSpelled name) (ht : t.Ahead source exports (name.toList ++ rest))
    (hrest : Follows endMarks rest) :
    (Parser.name {}).Answers t fun r t' => t'.Ahead source exports rest ∧ r.1 = name := by
  obtain ⟨htoken, hstop⟩ := h.lexeme ht hrest.severed
  have hname : name? {} t.lexeme.token = some name := by
    rw [htoken]
    exact if_pos h.1
  simp only [Parser.name, answers_bind, answers_current, hname]
  exact (ht.advance hstop hrest.scans).of fun _ _ h1 => answers_pure.2 ⟨h1.1, rfl⟩

end IsSpelled

/-! ## Patterns of parts -/

section Parts

variable {α : Type} {view : List Char → α → PartLook}

/-- The parts before the rest element, and the rest element. -/
theorem splitRest_looks (view : List Char → α → PartLook) (source : List Char)
    {comma : Option Span} {parts : List (PatternPart α)} {s : State} :
    (splitRest comma parts).Ensures s fun r s' => s' = s ∧
      parts.map (partLook view source) =
        r.1.map (view source) ++ (r.2.map (restLook source)).toList := by
  fun_induction splitRest comma parts
  case case1 => exact ensures_pure.2 ⟨rfl, rfl⟩
  case case2 => exact ensures_fail.2 trivial
  case case3 => exact ensures_pure.2 ⟨rfl, rfl⟩
  case case4 => exact ensures_fail.2 trivial
  case case5 ih =>
    simp only [ensures_bind, ensures_pure]
    refine ih.of fun r s1 h1 => ?_
    obtain ⟨rfl, h1⟩ := h1
    exact ⟨rfl, by rw [List.map_cons, h1]; rfl⟩

/-- Parts that look like those of a pattern are split in the same way. -/
theorem splitRest_answers (hview : ∀ source a, (view source a).kind ≠ .rest) {source : List Char}
    {comma : Option Span} {parts : List (PatternPart α)} {looks : List PartLook}
    {last : Option PartLook} (hlooks : ∀ look ∈ looks, look.kind ≠ .rest)
    (hlast : ∀ look, last = some look → look.kind = .rest ∧ comma = none)
    (h : parts.map (partLook view source) = looks ++ last.toList) {t : State} :
    (splitRest comma parts).Answers t fun r t' => t' = t ∧ r.1.map (view source) = looks ∧
      r.2.map (restLook source) = last := by
  induction looks generalizing parts with
  | nil =>
    cases last with
    | none =>
      obtain rfl : parts = [] := List.map_eq_nil_iff.1 h
      exact answers_pure.2 ⟨rfl, rfl, rfl⟩
    | some look =>
      obtain ⟨hrest, rfl⟩ := hlast look rfl
      obtain ⟨part, rfl, hpart⟩ := List.map_eq_singleton_iff.1 h
      cases part with
      | part a =>
        rw [← hpart] at hrest
        exact absurd hrest (hview source a)
      | rest p span => exact answers_pure.2 ⟨rfl, rfl, congrArg some hpart⟩
  | cons look looks ih =>
    obtain ⟨part, parts, rfl, hpart, hparts⟩ := List.map_eq_cons_iff.1 h
    obtain ⟨hplain, hlooks⟩ := List.forall_mem_cons.1 hlooks
    cases part with
    | rest p span =>
      rw [← hpart] at hplain
      exact absurd rfl hplain
    | part a =>
      simp only [splitRest, answers_bind, answers_pure]
      refine (ih hlooks hparts).of fun r t1 h1 => ?_
      obtain ⟨rfl, hvalues, hrest⟩ := h1
      exact ⟨rfl, by rw [List.map_cons, hvalues]; exact congrArg (· :: looks) hpart, hrest⟩

end Parts

/-- The marks behind a pattern. -/
def patternMarks : List Char := [' ', ',', ']', '\x7d']

/-- Whether a pattern can start with a token. -/
def startsPattern : Token → Bool
  | .word name _ => isName {} name
  | token => isMark token "[" || isMark token "\x7b"

/-- The first token of a text is one that starts a pattern. -/
def OpensPattern (text : List Char) : Prop :=
  ∀ offset rest, Follows endMarks rest → ∃ l, Lexeme.scan offset (text ++ rest) = .ok l ∧
    startsPattern l.token = true

/-- A pattern that is printed is read again. -/
structure PatternRestored (shown : PatternLook) (before after : List String) : Prop where
  begins : Begins ["]", "\x7d", ",", "..."] shown.text
  opens : OpensPattern shown.text
  restored : Restored (fun fuel => (Productions.upTo fuel).pattern {}) look patternMarks shown.text
    shown before after

/-- A pattern finds what it nests one level below. -/
theorem answers_pattern {fuel : Nat} {text rest : List Char} {marks : List Char}
    (hfuel : 2 * byteSize (text ++ rest) ≤ fuel) (hrest : Follows marks rest) {t : State}
    {Q : Pattern → State → Prop}
    (h : ∀ n, 2 * byteSize (text ++ rest) ≤ n + 1 → (pattern (Productions.upTo n) {}).Answers t Q) :
    ((Productions.upTo fuel).pattern {}).Answers t Q := by
  obtain ⟨c, tail, -, rfl⟩ := hrest.exists_cons
  have hpos := byteSize_pos (List.append_ne_nil_of_right_ne_nil text (List.cons_ne_nil c tail))
  obtain ⟨n, rfl⟩ : ∃ n, fuel = n + 1 := ⟨fuel - 1, by omega⟩
  exact h n hfuel

theorem IsSpelled.pattern_restored {name : String} (h : IsSpelled name) (exports : List String) :
    PatternRestored ⟨name.toList, [name]⟩ exports exports where
  begins := h.begins _
  opens offset _ hrest := ⟨_, h.scan hrest.severed offset, h.1⟩
  restored source fuel rest t ht hrest hfuel := by
    have hrest := hrest.mono (show patternMarks ⊆ endMarks by simp [patternMarks, endMarks])
    refine answers_pattern hfuel hrest fun n _ => ?_
    have hmark (mark : String) : isMark t.lexeme.token mark = false := by
      rw [(h.lexeme ht hrest.severed).1]
      rfl
    simp only [pattern, answers_bind, answers_position, answers_eatMark, hmark, answers_ite,
      Bool.false_eq_true, ↓reduceIte, answers_pure]
    refine (h.name_answers ht hrest).of fun r t1 h1 => ?_
    exact ⟨h1.1, by rw [look_name, h1.2]⟩

/-- What is read between the brackets of an array pattern. -/
def elementPart (g : Productions) : Parser (PatternPart (Option Pattern)) :=
  patternPart (do
    if ← atMark "," then return none
    return some (← patternElement g {})) (g.pattern {})

/-- What is read between the braces of an object pattern. -/
def propertyPart (g : Productions) : Parser (PatternPart (Key × Pattern)) :=
  patternPart (patternProperty g {}) (restName {})

/-- The parts of a pattern between two marks. -/
def enclosedParts {α : Type} (close : String) (part : Parser (PatternPart α)) :
    Parser (List α × Option Pattern) := do
  let (parts, comma) ← separated close part
  let (values, rest) ← splitRest comma parts
  expectMark close
  return (values, rest)

theorem pattern_eq (g : Productions) :
    pattern g {} = (do
      let start ← position
      if ← eatMark "[" then
        let (elements, rest) ← enclosedParts "]" (elementPart g)
        return .array (← spanFrom start) elements rest
      if ← eatMark "\x7b" then
        let (properties, rest) ← enclosedParts "\x7d" (propertyPart g)
        return .object (← spanFrom start) properties rest
      let (text, span) ← name {}
      return .name text span) := by
  simp only [pattern, enclosedParts, elementPart, propertyPart, bind_assoc, pure_bind]

section Enclosed

variable {α : Type} {view : List Char → α → PartLook} {item : Nat → Parser (PatternPart α)}
  {source rest : List Char} {before after : List String} {fuel : Nat} {t : State} {c : Char}
  {looks : List PartLook} {last : Option PartLook}

/-- The parts between two marks are read again. -/
theorem enclosedParts_answers (hc : IsClosing c) (hview : ∀ source a, (view source a).kind ≠ .rest)
    (hlooks : ∀ look ∈ looks, look.kind ≠ .rest) (hlast : ∀ look ∈ last, look.kind = .rest)
    (h : Linked (PartRestored item (partLook view)) (looks ++ last.toList) before after)
    (ht : t.Ahead source before (partsText (looks ++ last.toList) ++ c :: rest))
    (hrest : Scans rest)
    (hfuel : 2 * byteSize (partsText (looks ++ last.toList) ++ c :: rest) ≤ fuel) :
    (enclosedParts (String.singleton c) (item fuel)).Answers t fun r t' =>
      t'.Ahead source after rest ∧ r.1.map (view source) = looks ∧
        r.2.map (restLook source) = last := by
  simp only [enclosedParts, answers_bind]
  refine (separated_restored hc h ht hfuel).of fun r t1 h1 => ?_
  obtain ⟨parts, comma⟩ := r
  obtain ⟨h1, hparts, hcomma⟩ := h1
  have hlast' : ∀ look, last = some look → look.kind = .rest ∧ comma = none := by
    rintro look rfl
    refine ⟨hlast look rfl, Option.not_isSome_iff_eq_none.1 fun hsome => ?_⟩
    obtain ⟨part, hpart, hhole⟩ := hcomma hsome
    rw [Option.toList_some, List.getLast?_concat, Option.some.injEq] at hpart
    rw [← hpart, hlast look rfl] at hhole
    cases hhole
  refine (splitRest_answers hview hlooks hlast' hparts).of fun r t2 h2 => ?_
  obtain ⟨rfl, hvalues, hrests⟩ := h2
  rw [answers_expectMark (by rw [h1.isMark_eq hc.facts.1]; exact beq_self_eq_true _)]
  refine (h1.advance_mark hc.facts.1 hrest).of fun _ t3 h3 => ?_
  exact answers_pure.2 ⟨h3, hvalues, hrests⟩

end Enclosed

theorem kind_elementLook (source : List Char) (element : Option Pattern) :
    (elementLook source element).kind ≠ .rest := by
  cases element <;> nofun

theorem kind_propertyLook (source : List Char) (property : Key × Pattern) :
    (propertyLook source property).kind ≠ .rest := nofun

section Marks

variable {before after : List String} {looks : List PartLook} {last : Option PartLook}

/-- A text that starts with an opening mark. -/
theorem begins_opening {first : Char} (hfirst : first = '[' ∨ first = '\x7b') (text : List Char) :
    Begins ["]", "\x7d", ",", "..."] (first :: text) := by
  intro offset rest _
  have hlone : first ∈ loneMarks := by
    obtain rfl | rfl := hfirst <;> decide
  have hmarks : ∀ mark ∈ ["]", "\x7d", ",", "..."],
      isMark (.punctuator (String.singleton first)) mark = false := by
    obtain rfl | rfl := hfirst <;> decide
  exact ⟨_, scan_mark hlone offset _, rfl, rfl, hmarks⟩

/-- The elements of an array pattern are read again. -/
theorem array_restored (hlooks : ∀ look ∈ looks, look.kind ≠ .rest)
    (hlast : ∀ look ∈ last, look.kind = .rest)
    (h : Linked (PartRestored (fun n => elementPart (Productions.upTo n)) (partLook elementLook))
      (looks ++ last.toList) before after) :
    PatternRestored (listLook '[' ']' (looks ++ last.toList)) before after where
  begins := begins_opening (.inl rfl) _
  opens offset _ _ := ⟨_, scan_mark (by decide) offset _, rfl⟩
  restored source fuel rest t ht hrest hfuel := by
    have hsize : '['.utf8Size = 1 := by decide
    have htext : (listLook '[' ']' (looks ++ last.toList)).text ++ rest =
        '[' :: (partsText (looks ++ last.toList) ++ ']' :: rest) := by
      simp [listLook]
    refine answers_pattern hfuel hrest fun n hn => ?_
    rw [htext] at ht hn
    rw [byteSize_cons, hsize] at hn
    have hmark : isMark t.lexeme.token "[" = true := by
      rw [ht.isMark_eq (by decide)]
      rfl
    simp only [pattern_eq, answers_bind, answers_position, answers_eatMark, hmark, answers_ite,
      answers_spanFrom, answers_pure, ↓reduceIte]
    refine (ht.advance_mark (by decide) (scans_partsText (.inl rfl) h rest)).of fun _ t1 h1 => ?_
    refine (enclosedParts_answers (.inl rfl) kind_elementLook hlooks hlast h h1 hrest.scans
      (by omega)).of fun r t2 h2 => ?_
    obtain ⟨h2, helements, hrests⟩ := h2
    exact ⟨h2, by rw [look_array, helements, hrests]⟩

/-- The properties of an object pattern are read again. -/
theorem object_restored (hlooks : ∀ look ∈ looks, look.kind ≠ .rest)
    (hlast : ∀ look ∈ last, look.kind = .rest)
    (h : Linked (PartRestored (fun n => propertyPart (Productions.upTo n)) (partLook propertyLook))
      (looks ++ last.toList) before after) :
    PatternRestored (listLook '\x7b' '\x7d' (looks ++ last.toList)) before after where
  begins := begins_opening (.inr rfl) _
  opens offset _ _ := ⟨_, scan_mark (by decide) offset _, rfl⟩
  restored source fuel rest t ht hrest hfuel := by
    have hsize : '\x7b'.utf8Size = 1 := by decide
    have htext : (listLook '\x7b' '\x7d' (looks ++ last.toList)).text ++ rest =
        '\x7b' :: (partsText (looks ++ last.toList) ++ '\x7d' :: rest) := by
      simp [listLook]
    refine answers_pattern hfuel hrest fun n hn => ?_
    rw [htext] at ht hn
    rw [byteSize_cons, hsize] at hn
    have hmark : isMark t.lexeme.token "\x7b" = true := by
      rw [ht.isMark_eq (by decide)]
      rfl
    have hother : isMark t.lexeme.token "[" = false := isMark_of_isMark hmark (by decide)
    simp only [pattern_eq, answers_bind, answers_position, answers_eatMark, hmark, hother,
      answers_ite, answers_spanFrom, answers_pure, Bool.false_eq_true, ↓reduceIte]
    refine (ht.advance_mark (by decide) (scans_partsText (.inr rfl) h rest)).of fun _ t1 h1 => ?_
    refine (enclosedParts_answers (.inr rfl) kind_propertyLook hlooks hlast h h1 hrest.scans
      (by omega)).of fun r t2 h2 => ?_
    obtain ⟨h2, hproperties, hrests⟩ := h2
    exact ⟨h2, by rw [look_object, hproperties, hrests]⟩

end Marks

/-! ## Elements and properties -/

/-- The marks behind an element of a pattern. -/
def elementMarks : List Char := [',', ']', '\x7d']

/-- What a copied expression looks like. -/
def expressionLook (source : List Char) (e : Expression) : List Char :=
  Code.textOf printing source (Code.expression e)

/-- A copied expression is read again. -/
structure ExpressionRestored (text : List Char) (before after : List String) : Prop where
  begins : Begins [] text
  restored : Restored (fun fuel => copied ((Productions.upTo fuel).assignment {})) expressionLook
    elementMarks text text before after

/-- A pattern with or without a default value is read again. -/
structure ElementRestored (shown : PatternLook) (before after : List String) : Prop where
  begins : Begins ["]", "\x7d", ",", "..."] shown.text
  restored : Restored (fun fuel => patternElement (Productions.upTo fuel) {}) look elementMarks
    shown.text shown before after

theorem elementMarks_subset : elementMarks ⊆ endMarks := by
  simp [elementMarks, endMarks]

/-- A text with a text behind it. -/
theorem Begins.append {marks : List String} {text : List Char} (h : Begins marks text)
    {back : List Char} (hback : ∀ rest, Follows endMarks rest → Follows endMarks (back ++ rest)) :
    Begins marks (text ++ back) := by
  intro offset rest hrest
  rw [List.append_assoc]
  exact h offset _ (hback rest hrest)

/-- The token behind an element is its mark. -/
theorem State.Ahead.not_isMark {source rest : List Char} {exports : List String} {t : State}
    (ht : t.Ahead source exports rest) (hrest : Follows elementMarks rest) {mark : String}
    (hmark : mark ∉ [",", "]", "\x7d"]) : isMark t.lexeme.token mark = false := by
  obtain ⟨c, tail, hc, rfl⟩ := hrest.exists_cons
  have hlone : c ∈ loneMarks ∧ String.singleton c ∈ [",", "]", "\x7d"] := by
    simp only [elementMarks, List.mem_cons, List.not_mem_nil, or_false] at hc
    rcases hc with rfl | rfl | rfl <;> decide
  rw [ht.isMark_eq hlone.1, beq_eq_false_iff_ne]
  rintro rfl
  exact hmark hlone.2

theorem PatternRestored.element {shown : PatternLook} {before after : List String}
    (h : PatternRestored shown before after) : ElementRestored shown before after where
  begins := h.begins
  restored source fuel rest t ht hrest hfuel := by
    have hpattern := hrest.mono (show elementMarks ⊆ patternMarks by
      simp [elementMarks, patternMarks])
    simp only [patternElement, answers_bind, answers_eatMark, answers_ite, answers_pure]
    refine (h.restored source fuel rest t ht hpattern hfuel).of fun p t1 h1 => ?_
    rw [h1.1.not_isMark hrest (by decide)]
    exact h1

/-- The sign before a default value. -/
theorem scan_equals (offset : Nat) (text : List Char) :
    Lexeme.scan offset ('=' :: ' ' :: text) = .ok ⟨.punctuator "=", offset, offset + 1, false,
      '=' :: ' ' :: text, ' ' :: text⟩ := rfl

theorem PatternRestored.withDefault {shown : PatternLook} {before middle after : List String}
    {text : List Char} (h : PatternRestored shown before middle)
    (htext : ExpressionRestored text middle after) :
    ElementRestored ⟨shown.text ++ ' ' :: '=' :: ' ' :: text, shown.names⟩ before after where
  begins := h.begins.append fun rest hrest =>
    ⟨⟨' ', by decide, rfl⟩, fun offset => ⟨_, scan_equals (offset + 1) _⟩⟩
  restored source fuel rest t ht hrest hfuel := by
    dsimp only at ht hfuel
    rw [List.append_assoc] at ht hfuel
    have hequals : Scans ('=' :: ' ' :: (text ++ rest)) := fun offset => ⟨_, scan_equals offset _⟩
    have hbehind : Follows patternMarks (' ' :: '=' :: ' ' :: (text ++ rest)) :=
      ⟨⟨' ', by decide, rfl⟩, hequals.blank⟩
    have hscans : Scans (text ++ rest) := htext.begins.scans (hrest.mono elementMarks_subset)
    simp only [patternElement, answers_bind, answers_eatMark, answers_ite, answers_pure]
    refine (h.restored source fuel _ t ht hbehind hfuel).of fun p t1 h1 => ?_
    obtain ⟨h1, hp⟩ := h1
    have h1 := h1.skip_blank
    obtain ⟨htoken, hstop⟩ : t1.lexeme.token = .punctuator "=" ∧
        t1.lexeme.rest = ' ' :: (text ++ rest) := by
      obtain ⟨offset, -, -, hl⟩ := h1.scan
      rw [Except.ok.inj (hl.symm.trans (scan_equals _ _))]
      exact ⟨rfl, rfl⟩
    have hmark : isMark t1.lexeme.token "=" = true := by
      rw [htoken]
      rfl
    rw [hmark, if_pos rfl]
    refine (h1.advance hstop hscans.blank).of fun _ t2 h2 => ?_
    have hsize : 2 * byteSize (text ++ rest) ≤ fuel := by
      simp only [byteSize_append, byteSize_cons] at hfuel ⊢
      omega
    simp only [↓reduceIte]
    refine (htext.restored source fuel rest t2 h2.1.skip_blank hrest hsize).of fun e t3 h3 => ?_
    obtain ⟨h3, he⟩ := h3
    refine ⟨h3, ?_⟩
    rw [look_withDefault, hp, ← he]
    rfl

section PatternPart

variable {α : Type} {view : List Char → α → PartLook} {part : Nat → Parser α}
  {rest : Nat → Parser Pattern} {before after : List String}

/-- The points before a rest element. -/
theorem scan_points (offset : Nat) (text : List Char) :
    Lexeme.scan offset ("...".toList ++ text) = .ok ⟨.punctuator "...", offset, offset + 3, false,
      "...".toList ++ text, text⟩ := rfl

theorem begins_of_subset {marks marks' : List String} {text : List Char} (h : Begins marks' text)
    (hsub : marks ⊆ marks') : Begins marks text := by
  intro offset rest hrest
  obtain ⟨l, hl, hstart, hinput, hmarks⟩ := h offset rest hrest
  exact ⟨l, hl, hstart, hinput, fun mark hmark => hmarks mark (hsub hmark)⟩

/-- A part that is no rest element is read again. -/
theorem plain_restored {shown : PartLook} (hkind : shown.kind = .plain)
    (hbegins : Begins ["]", "\x7d", "..."] shown.text)
    (h : Restored part view elementMarks shown.text shown before after) :
    PartRestored (fun n => patternPart (part n) (rest n)) (partLook view) shown before after where
  hole hhole := by
    rw [hkind] at hhole
    cases hhole
  begins _ := begins_of_subset hbegins (by simp)
  restored source fuel back t ht hback hfuel := by
    have hback := hback.mono (partMarks_subset shown)
    obtain ⟨offset, -, -, hl⟩ := ht.scan
    obtain ⟨l, hl', -, -, hmarks⟩ := hbegins offset back (hback.mono elementMarks_subset)
    obtain rfl : t.lexeme = l := Except.ok.inj (hl.symm.trans hl')
    simp only [patternPart, answers_bind, answers_position, answers_eatMark, answers_ite,
      answers_pure, hmarks "..." (by simp), Bool.false_eq_true, ↓reduceIte]
    exact (h source fuel back t ht hback hfuel).of fun a t1 h1 => h1

/-- A rest element is read again. -/
theorem rest_restored {marks : List String} {shown : PatternLook}
    (hbegins : Begins marks shown.text)
    (h : Restored rest look elementMarks shown.text shown before after) :
    PartRestored (fun n => patternPart (part n) (rest n)) (partLook view)
      ⟨.rest, "...".toList ++ shown.text, shown.names⟩ before after where
  hole := nofun
  begins _ := by
    intro offset back _
    have hmarks : ∀ mark ∈ ["]", "\x7d"], isMark (.punctuator "...") mark = false := by decide
    exact ⟨_, scan_points offset _, rfl, rfl, hmarks⟩
  restored source fuel back t ht hback hfuel := by
    have hback : Follows elementMarks back := hback
    dsimp only at ht hfuel
    rw [List.append_assoc] at ht hfuel
    obtain ⟨htoken, hstop⟩ : t.lexeme.token = .punctuator "..." ∧
        t.lexeme.rest = shown.text ++ back := by
      obtain ⟨offset, -, -, hl⟩ := ht.scan
      rw [Except.ok.inj (hl.symm.trans (scan_points _ _))]
      exact ⟨rfl, rfl⟩
    have hmark : isMark t.lexeme.token "..." = true := by
      rw [htoken]
      rfl
    simp only [patternPart, answers_bind, answers_position, answers_eatMark, answers_ite,
      answers_spanFrom, answers_pure, hmark, ↓reduceIte]
    refine (ht.advance hstop (hbegins.scans (hback.mono elementMarks_subset))).of fun _ t1 h1 => ?_
    have hsize : 2 * byteSize (shown.text ++ back) ≤ fuel := by
      rw [byteSize_append] at hfuel
      omega
    refine (h source fuel back t1 h1.1 hback hsize).of fun p t2 h2 => ⟨h2.1, ?_⟩
    rw [partLook, restLook, h2.2]

end PatternPart

/-- A hole is read again before its comma. -/
theorem hole_restored (exports : List String) :
    PartRestored (fun n => elementPart (Productions.upTo n)) (partLook elementLook)
      (elementLook [] none) exports exports where
  hole _ := rfl
  begins h := absurd rfl h
  restored source fuel back t ht hback hfuel := by
    obtain ⟨c, tail, hc, rfl⟩ := hback.exists_cons
    obtain rfl : c = ',' := List.mem_singleton.1 hc
    have ht : t.Ahead source exports (',' :: tail) := ht
    have hcomma : isMark t.lexeme.token "," = true := by
      rw [ht.isMark_eq (by decide)]
      rfl
    have hpoints : isMark t.lexeme.token "..." = false := isMark_of_isMark hcomma (by decide)
    simp only [elementPart, patternPart, answers_bind, answers_position, answers_eatMark,
      answers_atMark, answers_ite, answers_pure, hcomma, hpoints, Bool.false_eq_true, ↓reduceIte]
    exact ⟨ht, rfl⟩

/-- An element of an array pattern is read again. -/
theorem ElementRestored.part {shown : PatternLook} {before after : List String}
    (h : ElementRestored shown before after) :
    PartRestored (fun n => elementPart (Productions.upTo n)) (partLook elementLook)
      ⟨.plain, shown.text, shown.names⟩ before after := by
  refine plain_restored rfl (begins_of_subset h.begins (by simp)) ?_
  intro source fuel back t ht hback hfuel
  obtain ⟨offset, -, -, hl⟩ := ht.scan
  obtain ⟨l, hl', -, -, hmarks⟩ := h.begins offset back (hback.mono elementMarks_subset)
  obtain rfl : t.lexeme = l := Except.ok.inj (hl.symm.trans hl')
  simp only [answers_bind, answers_atMark, answers_ite, answers_pure, hmarks "," (by simp),
    Bool.false_eq_true, ↓reduceIte]
  refine (h.restored source fuel back t ht hback hfuel).of fun p t1 h1 => ⟨h1.1, ?_⟩
  rw [elementLook, h1.2]

/-! ## Keys -/

/-- What a key looks like. -/
def keyLook (source : List Char) (k : Key) : List Char :=
  Code.textOf printing source (Code.key k)

/-- A key is read again before its colon. -/
structure KeyRestored (text : List Char) (before after : List String) : Prop where
  begins : Begins ["]", "\x7d", "..."] text
  restored : Restored (fun fuel => key (Productions.upTo fuel) {} false)
    (fun source r => keyLook source r.1) [':'] text text before after

theorem keyLook_plain (source : List Char) (span : Span) :
    keyLook source (.plain span) = span.slice source := by
  simp [keyLook, Code.key, Code.textOf, Piece.fill]

theorem keyLook_computed (source : List Char) (e : Expression) :
    keyLook source (.computed e) = '[' :: (expressionLook source e ++ [']']) := by
  rw [keyLook, Code.key, textOf_enclosed]
  rfl

/-- A computed key is read again. -/
theorem ExpressionRestored.key {text : List Char} {before after : List String}
    (h : ExpressionRestored text before after) :
    KeyRestored ('[' :: (text ++ [']'])) before after where
  begins := begins_of_subset (begins_opening (.inl rfl) _) (by simp)
  restored source fuel rest t ht hrest hfuel := by
    have hsize : '['.utf8Size = 1 := by decide
    have hlater : '[' :: (text ++ [']']) ++ rest = '[' :: (text ++ ']' :: rest) := by simp
    have hclosing : Follows elementMarks (']' :: rest) := follows_mark (by decide) (by decide) rest
    rw [hlater] at ht hfuel
    rw [byteSize_cons, hsize] at hfuel
    simp only [Grammar.key, answers_bind, answers_current, (ht.lexeme_mark (by decide)).1,
      answers_eatMark, answers_ite, answers_pure, ↓reduceIte]
    refine (ht.advance_mark (by decide)
      (h.begins.scans (hclosing.mono elementMarks_subset))).of fun _ t1 h1 => ?_
    refine (h.restored source fuel _ t1 h1 hclosing (by omega)).of fun e t2 h2 => ?_
    obtain ⟨h2, he⟩ := h2
    rw [answers_expectMark (by rw [h2.isMark_eq (by decide)]; rfl)]
    refine (h2.advance_mark (by decide) hrest.scans).of fun _ t3 h3 => ⟨h3, ?_⟩
    rw [keyLook_computed, he]

/-- A stretch of a text that goes to its end. -/
theorem slice_of_suffix {source text rest : List Char} {offset : Nat}
    (hsuffix : text ++ rest <:+ source)
    (hoffset : offset + byteSize (text ++ rest) = byteSize source) :
    Span.slice ⟨offset, offset + byteSize text⟩ source = text := by
  obtain ⟨front, rfl⟩ := hsuffix
  obtain rfl : offset = byteSize front := by
    rw [byteSize_append front] at hoffset
    omega
  exact Text.slice_append_append front text rest

/-- Whether a token is a key as it is. -/
def isPlainKey : Token → Bool
  | .word _ _ | .string _ _ | .number => true
  | _ => false

/-- A name, literal or number is read again as a key. -/
theorem plainKey_restored {token : Token} {start stop : Nat} {here rest : List Char}
    (hkey : isPlainKey token = true) (hhere : Ungapped here)
    (hscan : scanToken start here = .ok (token, stop, rest))
    (hdigit : rest.head?.any isAsciiDigit = false) (exports : List String) :
    ∃ text, here = text ++ rest ∧ stop = start + byteSize text ∧
      KeyRestored text exports exports := by
  have hinput : token ≠ .endOfInput := by
    rintro rfl
    cases hkey
  obtain ⟨text, hne, rfl, rfl, hagain⟩ := scanToken_again hscan hinput
  refine ⟨text, rfl, rfl, ?_⟩
  have hlexeme (offset : Nat) {back : List Char} (hback : Follows endMarks back) :
      Lexeme.scan offset (text ++ back) =
        .ok ⟨token, offset, offset + byteSize text, false, text ++ back, back⟩ := by
    obtain ⟨c, tail, hc, rfl⟩ := hback.exists_cons
    have halike : Alike rest (c :: tail) := .ended hc hdigit
    exact Lexeme.scan_of_scanToken (hhere.again hne halike) (hagain offset _ halike)
  have hmark (mark : String) : isMark token mark = false := by
    cases token with
    | punctuator => cases hkey
    | _ => rfl
  refine ⟨fun offset back hback => ⟨_, hlexeme offset hback, rfl, ?_, fun mark _ => hmark mark⟩,
    fun source fuel back t ht hback hfuel => ?_⟩
  · simpa using hinput
  · have hback := hback.mono (show [':'] ⊆ endMarks by simp [endMarks])
    obtain ⟨offset, -, hoffset, hl⟩ := ht.scan
    have hl := Except.ok.inj (hl.symm.trans (hlexeme offset hback))
    have hshown : keyLook source (.plain ⟨t.lexeme.start, t.lexeme.stop⟩) = text := by
      rw [keyLook_plain, hl]
      exact slice_of_suffix ht.suffix hoffset
    have hnext := ht.advance (by rw [hl]) hback.scans
    have htoken : t.lexeme.token = token := by rw [hl]
    have hanswer (fixed : Option String) :
        (advance >>= fun _ => pure ((Key.plain ⟨t.lexeme.start, t.lexeme.stop⟩, fixed) :
          Key × Option String)).Answers t fun r t' =>
            t'.Ahead source exports back ∧ keyLook source r.1 = text := by
      rw [answers_bind]
      exact hnext.of fun _ t1 h1 => answers_pure.2 ⟨h1.1, hshown⟩
    simp only [key]
    rw [answers_bind, answers_current]
    cases token with
    | word name =>
      rw [htoken]
      exact hanswer _
    | string value =>
      rw [htoken]
      exact hanswer _
    | number =>
      rw [htoken]
      exact hanswer _
    | _ => cases hkey

/-- A property of an object pattern is read again. -/
theorem KeyRestored.property {text : List Char} {shown : PatternLook}
    {before middle after : List String} (hkey : KeyRestored text before middle)
    (hvalue : ElementRestored shown middle after) :
    PartRestored (fun n => propertyPart (Productions.upTo n)) (partLook propertyLook)
      ⟨.plain, text ++ ':' :: ' ' :: shown.text, shown.names⟩ before after := by
  have hcolon (back : List Char) : Follows [':'] (':' :: back) :=
    follows_mark (by decide) (by simp) back
  refine plain_restored rfl (hkey.begins.append fun rest _ => (hcolon _).mono (by simp [endMarks]))
    ?_
  intro source fuel back t ht hback hfuel
  dsimp only at ht hfuel
  rw [List.append_assoc] at ht hfuel
  simp only [patternProperty, answers_bind, answers_current, answers_eatMark, answers_ite,
    answers_pure]
  refine (hkey.restored source fuel _ t ht (hcolon _) hfuel).of fun r t1 h1 => ?_
  obtain ⟨h1, hk⟩ := h1
  have hscans := hvalue.begins.scans (hback.mono elementMarks_subset)
  have hmark : isMark t1.lexeme.token ":" = true := by
    rw [h1.isMark_eq (by decide)]
    rfl
  rw [hmark, if_pos rfl]
  refine (h1.advance_mark (by decide) hscans.blank).of fun _ t2 h2 => ?_
  have hsize : 2 * byteSize (shown.text ++ back) ≤ fuel := by
    simp only [byteSize_append, byteSize_cons] at hfuel ⊢
    omega
  simp only [↓reduceIte]
  refine (hvalue.restored source fuel back t2 h2.skip_blank hback hsize).of fun p t3 h3 => ?_
  obtain ⟨h3, hp⟩ := h3
  refine ⟨h3, ?_⟩
  rw [propertyLook, hp, ← hk]
  rfl

/-- The rest element of an object pattern is read again. -/
theorem IsSpelled.rest_restored {name : String} (h : IsSpelled name) (exports : List String) :
    Restored (fun _ => restName {}) look elementMarks name.toList ⟨name.toList, [name]⟩ exports
      exports := by
  intro source fuel back t ht hback _
  simp only [restName, answers_bind, answers_pure]
  refine (h.name_answers ht (hback.mono elementMarks_subset)).of fun r t1 h1 => ⟨h1.1, ?_⟩
  rw [look_name, h1.2]

end Rebind.Grammar
