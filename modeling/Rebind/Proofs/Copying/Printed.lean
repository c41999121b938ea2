import Rebind.Proofs.Copying.Pattern

/-!
# What patterns are printed as

Whatever a pattern of a source looks like is a text that is read again, if the expressions in it are
(`pattern_restored`).  The names, keys, holes and rest elements of the pattern are read again as
they are printed, at any depth.
-/

namespace Rebind.Grammar

open Rebind.Text (Span byteSize)
open Rebind.Unicode (isNameStart isNamePart isAsciiDigit)
open Rebind.Snippet
open Rebind.Grammar.Parser

variable {source : List Char} {s s' : State}

/-! ## States at tokens -/

/-- A state on the way through a source, with no blank or comment left before the current token. -/
structure State.Settled (source : List Char) (s : State) : Prop extends s.Within source where
  ungapped : Ungapped s.lexeme.here

theorem Lexeme.ungapped_of_scan {offset : Nat} {cs : List Char} {l : Lexeme}
    (h : Lexeme.scan offset cs = .ok l) : Ungapped l.here := by
  by_cases hne : l.here = []
  · rw [hne]
    exact ungapped_nil
  · exact (Lexeme.scan_gap h hne).1

theorem advance_settled (hs : s.Within source) :
    advance.Ensures s fun _ s' => s'.Settled source := by
  refine ((advance_within hs).and advance_scans).of fun _ s' h => ?_
  exact ⟨h.1, Lexeme.ungapped_of_scan h.2⟩

theorem expectMark_settled (hs : s.Within source) {mark : String} :
    (expectMark mark).Ensures s fun _ s' => s'.Settled source := by
  simp only [expectMark, ensures_bind, ensures_eatMark, ensures_ite, ensures_missing,
    ensures_pure, ↓reduceIte, Bool.false_eq_true]
  split
  · exact advance_settled hs
  · trivial

/-- A token with another reading is no key. -/
theorem State.Within.scanToken_of_plainKey (hs : s.Within source)
    (hkey : isPlainKey s.lexeme.token = true) :
    scanToken s.lexeme.start s.lexeme.here =
      .ok (s.lexeme.token, s.lexeme.stop, s.lexeme.rest) := by
  obtain hscan | ⟨htoken, -⟩ | ⟨⟨_, _, htoken⟩, -⟩ := hs.scanned
  · exact hscan
  · rw [htoken] at hkey
    cases hkey
  · rw [htoken] at hkey
    cases hkey

/-- A token that is a name is a word, and can be spelled without escapes. -/
theorem State.Within.spelled (hs : s.Within source) {text : String}
    (hname : name? {} s.lexeme.token = some text) :
    IsSpelled text ∧ ∃ isEscaped, s.lexeme.token = .word text isEscaped := by
  cases htoken : s.lexeme.token with
  | word word isEscaped =>
    rw [htoken] at hname
    have hscan := hs.scanToken_of_plainKey (by rw [htoken]; rfl)
    rw [htoken] at hscan
    simp only [name?, Option.ite_none_right_eq_some, Option.some.injEq] at hname
    obtain ⟨hname, rfl⟩ := hname
    obtain ⟨c, hc, hstart⟩ := scanToken_word hscan
    obtain ⟨more, hmore⟩ := List.head?_eq_some_iff.1 hc
    have hparts := isNamePart_of_word hscan
    rw [hmore] at hparts
    exact ⟨⟨hname, c, more, hmore, hstart, (List.forall_mem_cons.1 hparts).2⟩, isEscaped, rfl⟩
  | _ => rw [htoken] at hname; cases hname

/-- A name that is read is spelled without escapes where it is printed. -/
theorem name_spelled (hs : s.Settled source) :
    (name {}).Ensures s fun r s' => s'.Settled source ∧ IsSpelled r.1 := by
  simp only [name, ensures_bind, ensures_current]
  split
  · next text hname =>
    simp only [ensures_bind, ensures_pure]
    exact (advance_settled hs.toWithin).of fun _ s1 h1 => ⟨h1, (hs.spelled hname).1⟩
  · exact ensures_unexpected.2 trivial

/-! ## Expressions -/

/-- The expressions among some parts of a source are read again where they are printed, and export
nothing. -/
def ReadAgain (source : List Char) (parts : List Part) : Prop :=
  ∀ e, .expression e ∈ parts → ExpressionRestored (expressionLook source e) [] []

@[simp] theorem readAgain_nil : ReadAgain source [] := nofun

@[simp] theorem readAgain_append {xs ys : List Part} :
    ReadAgain source (xs ++ ys) ↔ ReadAgain source xs ∧ ReadAgain source ys := by
  simp only [ReadAgain, List.mem_append]
  exact ⟨fun h => ⟨fun e he => h e (.inl he), fun e he => h e (.inr he)⟩,
    fun h e he => he.elim (h.1 e) (h.2 e)⟩

@[simp] theorem readAgain_expression {e : Expression} :
    ReadAgain source [.expression e] ↔ ExpressionRestored (expressionLook source e) [] [] := by
  simp [ReadAgain]

/-! ## Patterns -/

/-- Whatever patterns of a source are printed as is read again, if the expressions in them are. -/
def Productions.Restores (source : List Char) (g : Productions) : Prop :=
  ∀ {s : State}, s.Settled source → (g.pattern {}).Ensures s fun p s' => s'.Within source ∧
    (ReadAgain source p.parts → PatternRestored (look source p) [] [])

variable {g : Productions}

theorem copied_within (hg : g.Sound) {ctx : Context} (hs : s.Within source) :
    (copied (g.assignment ctx)).Ensures s fun _ s' => s'.Within source :=
  (copied_assignment_reads hg hs.sound).of fun _ _ h => hs.after h

theorem patternElement_restored (hg : g.Sound) (hp : g.Restores source) (hs : s.Settled source) :
    (patternElement g {}).Ensures s fun p s' => s'.Within source ∧
      (ReadAgain source p.parts → ElementRestored (look source p) [] []) := by
  simp only [patternElement, ensures_bind, ensures_eatMark, ensures_ite, ensures_pure,
    Bool.false_eq_true, ↓reduceIte]
  refine (hp hs).of fun p s1 h1 => ?_
  obtain ⟨h1, hpattern⟩ := h1
  split
  · refine (advance_settled h1).of fun _ s2 h2 => ?_
    refine (copied_within hg h2.toWithin).of fun e s3 h3 => ⟨h3, fun hparts => ?_⟩
    rw [Pattern.parts, readAgain_append, readAgain_expression] at hparts
    rw [look_withDefault]
    exact (hpattern hparts.1).withDefault hparts.2
  · exact ⟨h1, fun hparts => (hpattern hparts).element⟩

section Parts

variable {α : Type} {view : List Char → α → PartLook} {item : Nat → Parser (PatternPart α)}
  {parts : α → List Part}

/-- What holds of each item of a list. -/
theorem separated_forall {β : Type} {close : String} {reader : Parser β} {P : β → Prop}
    (hitem : ∀ {s}, s.Settled source → reader.Ensures s fun a s' => s'.Within source ∧ P a)
    (hs : s.Settled source) :
    (separated close reader).Ensures s fun r s' => s'.Within source ∧ ∀ a ∈ r.1, P a := by
  simp only [separated_eq, ensures_bind, ensures_atMark, ensures_atEnd, ensures_ite, ensures_pure]
  split
  · exact ⟨hs.toWithin, List.forall_mem_nil _⟩
  refine ensures_repeatFrom (fun items s' => s'.Settled source ∧ ∀ a ∈ items, P a)
    ⟨hs, List.forall_mem_nil _⟩ fun items s1 h1 => ?_
  obtain ⟨h1, hitems⟩ := h1
  simp only [separatedRound, ensures_bind, ensures_atMark, ensures_atEnd, ensures_current,
    ensures_eatMark, ensures_missing, ensures_ite, ensures_pure, ↓reduceIte, Bool.false_eq_true,
    Sum.elim_inl, Sum.elim_inr, List.mem_reverse]
  refine (hitem h1).of fun a s2 h2 => ?_
  obtain ⟨h2, ha⟩ := h2
  have hread := List.forall_mem_cons.2 ⟨ha, hitems⟩
  split
  · exact ⟨h2, hread⟩
  split
  · refine (advance_settled h2).of fun _ s3 h3 => ?_
    split
    · exact ⟨h3.toWithin, hread⟩
    · exact ⟨h3, hread⟩
  · trivial

/-- The parts of a list that are read again one after the other. -/
theorem linked_of_forall {β : Type} {R : β → List String → List String → Prop} {bs : List β}
    (h : ∀ b ∈ bs, R b [] []) : Linked R bs [] [] := by
  induction bs with
  | nil => exact .nil _
  | cons b bs ih =>
    obtain ⟨hb, hbs⟩ := List.forall_mem_cons.1 h
    exact .cons hb (ih hbs)

/-- The parts of a pattern between two marks. -/
theorem enclosedParts_restored {close : String} {part : Parser (PatternPart α)}
    (hpart : ∀ {s}, s.Settled source → part.Ensures s fun a s' => s'.Within source ∧
      (ReadAgain source (a.parts parts) →
        PartRestored item (partLook view) (partLook view source a) [] []))
    (hs : s.Settled source) :
    (enclosedParts close part).Ensures s fun r s' => s'.Within source ∧
      (ReadAgain source (r.1.flatMap parts ++ restParts r.2) →
        Linked (PartRestored item (partLook view))
          (r.1.map (view source) ++ (r.2.map (restLook source)).toList) [] []) := by
  simp only [enclosedParts, ensures_bind, ensures_pure]
  refine (separated_forall hpart hs).of fun r s1 h1 => ?_
  obtain ⟨h1, hparts⟩ := h1
  refine ((splitRest_looks view source).and (splitRest_ensures parts r.1)).of fun values s2 h2 => ?_
  obtain ⟨⟨rfl, hvalues⟩, -, heq⟩ := h2
  refine (expectMark_settled h1).of fun _ s3 h3 => ⟨h3.toWithin, fun hread => ?_⟩
  rw [← heq] at hread
  rw [← hvalues]
  refine linked_of_forall (List.forall_mem_map.2 fun a ha => hparts a ha fun e he => ?_)
  exact hread e (List.mem_flatMap.2 ⟨a, ha, he⟩)

/-- A part of a pattern. -/
theorem patternPart_restored {part : Parser α} {rest : Parser Pattern}
    (hpart : ∀ {s}, s.Settled source → part.Ensures s fun a s' => s'.Within source ∧
      (ReadAgain source (parts a) → PartRestored item (partLook view) (view source a) [] []))
    (hrest : ∀ {s}, s.Settled source → rest.Ensures s fun p s' => s'.Within source ∧
      (ReadAgain source p.parts → PartRestored item (partLook view) (restLook source p) [] []))
    (hs : s.Settled source) :
    (patternPart part rest).Ensures s fun a s' => s'.Within source ∧
      (ReadAgain source (a.parts parts) →
        PartRestored item (partLook view) (partLook view source a) [] []) := by
  simp only [patternPart, ensures_bind, ensures_position, ensures_eatMark, ensures_ite,
    ensures_spanFrom, ensures_pure, Bool.false_eq_true, ↓reduceIte]
  split
  · exact (advance_settled hs.toWithin).of fun _ s1 h1 => hrest h1
  · exact hpart hs

end Parts

/-! ## Elements and keys -/

theorem elementParts_eq (elements : List (Option Pattern)) :
    elementParts elements = elements.flatMap restParts := by
  induction elements with
  | nil => rfl
  | cons element elements ih =>
    cases element with
    | none => exact ih
    | some p => rw [elementParts, ih]; rfl

theorem propertyParts_eq (properties : List (Key × Pattern)) :
    propertyParts properties = properties.flatMap fun property =>
      property.1.parts ++ property.2.parts := by
  induction properties with
  | nil => rfl
  | cons property properties ih => rw [propertyParts, ih]; rfl

theorem elementPart_restored (hg : g.Sound) (hp : g.Restores source) (hs : s.Settled source) :
    (elementPart g).Ensures s fun a s' => s'.Within source ∧
      (ReadAgain source (a.parts restParts) →
        PartRestored (fun n => elementPart (Productions.upTo n)) (partLook elementLook)
          (partLook elementLook source a) [] []) := by
  refine patternPart_restored (fun {s1} h1 => ?_) (fun {s1} h1 => ?_) hs
  · simp only [ensures_bind, ensures_atMark, ensures_ite, ensures_pure]
    split
    · exact ⟨h1.toWithin, fun _ => hole_restored _⟩
    · exact (patternElement_restored hg hp h1).of fun p s2 h2 =>
        ⟨h2.1, fun hparts => (h2.2 hparts).part⟩
  · refine (hp h1).of fun p s2 h2 => ⟨h2.1, fun hparts => ?_⟩
    have hpattern := h2.2 hparts
    have hsub : elementMarks ⊆ patternMarks := by simp [elementMarks, patternMarks]
    exact rest_restored hpattern.begins fun source fuel rest t ht hrest hfuel =>
      hpattern.restored source fuel rest t ht (hrest.mono hsub) hfuel

/-- No digit is at the head of a text whose first token is no number. -/
theorem undigited_of_scan {offset : Nat} {text : List Char} {l : Lexeme}
    (h : Lexeme.scan offset text = .ok l) (htoken : l.token ≠ .number) :
    text.head?.any isAsciiDigit = false := by
  rw [← Bool.not_eq_true]
  intro hdigit
  cases text with
  | nil => cases hdigit
  | cons c cs =>
    have hc : isAsciiDigit c = true := hdigit
    have hungapped : Ungapped (c :: cs) := by
      refine ungapped_cons (isSpace_of_isNamePart (isNamePart_of_isAsciiDigit hc)) ?_
      rintro rfl
      exact absurd hc (by decide)
    have hopening : c ∉ openingMarks := by
      intro hmem
      have hall : openingMarks.all (fun d => isAsciiDigit d == false) = true := by decide
      rw [beq_iff_eq.1 (List.all_eq_true.1 hall c hmem)] at hc
      cases hc
    rw [Lexeme.scan, hungapped] at h
    change scanToken offset (c :: cs) >>= _ = _ at h
    obtain ⟨⟨token, stop, rest⟩, hscan, hl⟩ := exists_ok_of_bind h
    cases hl
    rw [scanToken_cons hopening, if_pos (by rw [hc, Bool.true_or])] at hscan
    split at hscan
    · cases hscan
      exact htoken rfl
    · cases hscan

/-- Behind a word there is no digit. -/
theorem undigited_of_word {name : String} {isEscaped : Bool} {start stop : Nat}
    {here rest : List Char} (h : scanToken start here = .ok (.word name isEscaped, stop, rest)) :
    rest.head?.any isAsciiDigit = false := by
  obtain ⟨c, hc, -⟩ := scanToken_word h
  obtain ⟨-, -, -, -, hname⟩ := scanName_of_word h
  have hne : name ≠ "" := by
    rintro rfl
    cases hc
  obtain ⟨hrest, -⟩ := scanName_again hname hne
  cases rest with
  | nil => rfl
  | cons d tail =>
    rw [List.head?_cons, Option.any_some, ← Bool.not_eq_true]
    intro hdigit
    have hpart := (hrest d rfl).1
    rw [isNamePart_of_isAsciiDigit hdigit] at hpart
    cases hpart

/-- A key is an expression in brackets, or the token at which it stands. -/
theorem key_restored (hg : g.Sound) (hs : s.Settled source) :
    (key g {} false).Ensures s fun r s' => s'.Within source ∧
      ((name? {} s.lexeme.token = none ∧
          (ReadAgain source r.1.parts → KeyRestored (keyLook source r.1) [] [])) ∨
        (isPlainKey s.lexeme.token = true ∧ r.1 = .plain ⟨s.lexeme.start, s.lexeme.stop⟩ ∧
          s.Next s'.lexeme)) := by
  have hplain (fixed : Option String) (hkey : isPlainKey s.lexeme.token = true) :
      (advance >>= fun _ => pure ((Key.plain ⟨s.lexeme.start, s.lexeme.stop⟩, fixed) :
        Key × Option String)).Ensures s fun r s' => s'.Within source ∧
          ((name? {} s.lexeme.token = none ∧
              (ReadAgain source r.1.parts → KeyRestored (keyLook source r.1) [] [])) ∨
            (isPlainKey s.lexeme.token = true ∧ r.1 = .plain ⟨s.lexeme.start, s.lexeme.stop⟩ ∧
              s.Next s'.lexeme)) := by
    simp only [ensures_bind, ensures_pure]
    exact ((advance_within hs.toWithin).and advance_scans).of fun _ s1 h1 =>
      ⟨h1.1, .inr ⟨hkey, trivial, h1.2⟩⟩
  simp only [key]
  rw [ensures_bind, ensures_current]
  split
  · next htoken => exact hplain _ (by rw [htoken]; rfl)
  · next htoken => exact hplain _ (by rw [htoken]; rfl)
  · next htoken => exact hplain _ (by rw [htoken]; rfl)
  · simp only [ensures_bind, ensures_ite, Bool.false_eq_true, ↓reduceIte, ensures_unexpected]
  · simp only [ensures_bind, ensures_ite, ensures_eatMark, ensures_unexpected, ensures_pure,
      Bool.false_eq_true, ↓reduceIte]
    split
    · next hmark =>
      have hname : name? {} s.lexeme.token = none := by
        rw [beq_iff_eq.1 hmark]
        rfl
      refine (advance_settled hs.toWithin).of fun _ s1 h1 => ?_
      refine (copied_within hg h1.toWithin).of fun e s2 h2 => ?_
      refine (expectMark_settled h2).of fun _ s3 h3 => ⟨h3.toWithin, .inl ⟨hname, fun hparts => ?_⟩⟩
      rw [Key.parts, readAgain_expression] at hparts
      rw [keyLook_computed]
      exact hparts.key
    · trivial

/-- A key that is one token is read again. -/
theorem plainKey_shown (hs : s.Settled source) (hkey : isPlainKey s.lexeme.token = true)
    (hdigit : s.lexeme.rest.head?.any isAsciiDigit = false) (exports : List String) :
    KeyRestored (keyLook source (.plain ⟨s.lexeme.start, s.lexeme.stop⟩)) exports exports := by
  obtain ⟨text, hhere, hstop, htext⟩ := plainKey_restored hkey hs.ungapped
    (hs.scanToken_of_plainKey hkey) hdigit exports
  have hsuffix := hs.suffix
  have hlimit := hs.sound.lexeme.here
  rw [hhere] at hsuffix hlimit
  rw [hs.limit_eq] at hlimit
  rw [keyLook_plain, hstop, slice_of_suffix hsuffix hlimit]
  exact htext

/-- A property of an object pattern. -/
theorem patternProperty_restored (hg : g.Sound) (hp : g.Restores source) (hs : s.Settled source) :
    (patternProperty g {}).Ensures s fun property s' => s'.Within source ∧
      (ReadAgain source (property.1.parts ++ property.2.parts) →
        PartRestored (fun n => propertyPart (Productions.upTo n)) (partLook propertyLook)
          (propertyLook source property) [] []) := by
  simp only [patternProperty, ensures_bind, ensures_current, ensures_eatMark, ensures_ite,
    ensures_pure, Bool.false_eq_true, ↓reduceIte]
  refine (key_restored hg hs).of fun r s1 h1 => ?_
  obtain ⟨k, fixed⟩ := r
  obtain ⟨h1, hk⟩ := h1
  split
  · next hcolon =>
    have hkey (hparts : ReadAgain source k.parts) : KeyRestored (keyLook source k) [] [] := by
      obtain ⟨-, hk⟩ | ⟨hplain, rfl, hnext⟩ := hk
      · exact hk hparts
      · refine plainKey_shown hs hplain (undigited_of_scan hnext ?_) _
        rw [beq_iff_eq.1 hcolon]
        rintro ⟨⟩
    refine (advance_settled h1).of fun _ s2 h2 => ?_
    refine (patternElement_restored hg hp h2).of fun p s3 h3 => ⟨h3.1, fun hparts => ?_⟩
    obtain ⟨hparts, hparts'⟩ := readAgain_append.1 hparts
    exact (hkey hparts).property (h3.2 hparts')
  · split
    · exact ensures_fail.2 trivial
    · next name hname =>
      obtain ⟨hnone, -⟩ | ⟨hplain, rfl, -⟩ := hk
      · rw [hnone] at hname
        cases hname
      · obtain ⟨hspelled, isEscaped, htoken⟩ := hs.spelled hname
        have hscan := hs.scanToken_of_plainKey hplain
        rw [htoken] at hscan
        have hkey := plainKey_shown hs hplain (undigited_of_word hscan) []
        simp only [ensures_bind, ensures_eatMark, ensures_ite, ensures_pure, Bool.false_eq_true,
          ↓reduceIte]
        have hshown := look_name source name ⟨s.lexeme.start, s.lexeme.stop⟩
        split
        · refine (advance_settled h1).of fun _ s2 h2 => ?_
          refine (copied_within hg h2.toWithin).of fun e s3 h3 => ⟨h3, fun hparts => ?_⟩
          obtain ⟨-, hparts⟩ := readAgain_append.1 hparts
          rw [Pattern.parts, readAgain_append, readAgain_expression] at hparts
          refine hkey.property ?_
          rw [look_withDefault, hshown]
          exact (hspelled.pattern_restored _).withDefault hparts.2
        · refine ⟨h1, fun _ => hkey.property ?_⟩
          rw [hshown]
          exact (hspelled.pattern_restored _).element

theorem propertyPart_restored (hg : g.Sound) (hp : g.Restores source) (hs : s.Settled source) :
    (propertyPart g).Ensures s fun a s' => s'.Within source ∧
      (ReadAgain source (a.parts fun property => property.1.parts ++ property.2.parts) →
        PartRestored (fun n => propertyPart (Productions.upTo n)) (partLook propertyLook)
          (partLook propertyLook source a) [] []) := by
  refine patternPart_restored (fun h1 => patternProperty_restored hg hp h1) (fun {s1} h1 => ?_) hs
  simp only [restName, ensures_bind, ensures_pure]
  refine (name_spelled h1).of fun r s2 h2 => ?_
  obtain ⟨h2, hspelled⟩ := h2
  refine ⟨h2.toWithin, fun _ => ?_⟩
  rw [restLook, look_name]
  exact rest_restored (hspelled.begins []) (hspelled.rest_restored _)

theorem kind_of_mem_map {α : Type} {view : List Char → α → PartLook}
    (hview : ∀ source a, (view source a).kind ≠ .rest) (values : List α) :
    ∀ shown ∈ values.map (view source), shown.kind ≠ .rest := by
  intro shown hshown
  obtain ⟨a, -, rfl⟩ := List.mem_map.1 hshown
  exact hview source a

theorem kind_of_mem_rest (rest : Option Pattern) :
    ∀ shown ∈ rest.map (restLook source), shown.kind = .rest := by
  intro shown hshown
  obtain ⟨p, -, rfl⟩ := Option.map_eq_some_iff.1 hshown
  rfl

/-- A pattern is printed as a text that is read again. -/
theorem pattern_restored (hg : g.Sound) (hp : g.Restores source) (hs : s.Settled source) :
    (pattern g {}).Ensures s fun p s' => s'.Within source ∧
      (ReadAgain source p.parts → PatternRestored (look source p) [] []) := by
  simp only [pattern_eq, ensures_bind, ensures_position, ensures_eatMark, ensures_ite,
    ensures_spanFrom, ensures_pure, Bool.false_eq_true, ↓reduceIte]
  split
  · refine (advance_settled hs.toWithin).of fun _ s1 h1 => ?_
    refine (enclosedParts_restored (fun h => elementPart_restored hg hp h) h1).of fun r s2 h2 => ?_
    obtain ⟨h2, hparts⟩ := h2
    refine ⟨h2, fun hread => ?_⟩
    rw [Pattern.parts, elementParts_eq] at hread
    rw [look_array]
    exact array_restored (kind_of_mem_map kind_elementLook _) (kind_of_mem_rest _) (hparts hread)
  · split
    · refine (advance_settled hs.toWithin).of fun _ s1 h1 => ?_
      refine (enclosedParts_restored (fun h => propertyPart_restored hg hp h) h1).of
        fun r s2 h2 => ?_
      obtain ⟨h2, hparts⟩ := h2
      refine ⟨h2, fun hread => ?_⟩
      rw [Pattern.parts, propertyParts_eq] at hread
      rw [look_object]
      exact object_restored (kind_of_mem_map kind_propertyLook _) (kind_of_mem_rest _)
        (hparts hread)
    · refine (name_spelled hs).of fun r s1 h1 => ?_
      obtain ⟨h1, hspelled⟩ := h1
      refine ⟨h1.toWithin, fun _ => ?_⟩
      rw [look_name]
      exact hspelled.pattern_restored _

theorem Productions.restores_upTo (n : Nat) : (Productions.upTo n).Restores source := by
  induction n with
  | zero => exact fun _ => ensures_unexpected.2 trivial
  | succ n ih => exact fun hs => pattern_restored (sound_upTo n) ih hs

end Rebind.Grammar
