import Rebind.Proofs.Copying.Ahead

/-!
# Lists with commas are read again

A list is printed with a comma between its parts and one more behind a hole at its end.  Each part
that is read again goes on in the list as it was printed, a hole as the empty text before its comma.
-/

namespace Rebind.Grammar

open Rebind.Text (Span byteSize byteSize_append byteSize_cons)
open Rebind.Unicode (isNameStart isNamePart isAsciiDigit)
open Rebind.Snippet
open Rebind.Grammar.Parser

/-- What kind of part an element or property of a pattern is. -/
inductive PartKind where
  | hole
  | plain
  | rest
  deriving DecidableEq

/-- What a part of a pattern looks like: its text, and the names that it binds. -/
structure PartLook where
  kind : PartKind
  text : List Char
  names : List String

/-- The text of a list of parts.  A hole at its end keeps its comma. -/
def partsText : List PartLook → List Char
  | [] => []
  | [part] => part.text ++ if part.kind = .hole then [','] else []
  | part :: next :: parts => part.text ++ ',' :: ' ' :: partsText (next :: parts)

/-- Values that are linked one after the other by what holds between them. -/
inductive Linked {α σ : Type} (R : α → σ → σ → Prop) : List α → σ → σ → Prop
  | nil (s : σ) : Linked R [] s s
  | cons {a : α} {as : List α} {s s' s'' : σ} : R a s s' → Linked R as s' s'' →
      Linked R (a :: as) s s''

section Lists

variable {α : Type} {item : Nat → Parser α} {view : List Char → α → PartLook}

/-- The marks behind a part of a pattern. -/
def partMarks (part : PartLook) : List Char :=
  if part.kind = .hole then [','] else [',', ']', '\x7d']

/-- A part of a pattern is read again; a hole is an empty text before a comma. -/
structure PartRestored (item : Nat → Parser α) (view : List Char → α → PartLook) (part : PartLook)
    (before after : List String) : Prop where
  hole : part.kind = .hole → part.text = []
  begins : part.kind ≠ .hole → Begins ["]", "\x7d"] part.text
  restored : Restored item view (partMarks part) part.text part before after

/-- A round of a list with commas. -/
def separatedRound (close : String) (item : Parser α) (items : List α) :
    Parser (Sum (List α) (List α × Option Span)) := do
  let items := (← item) :: items
  if (← atMark close) || (← atEnd) then return .inr (items.reverse, none)
  let comma ← current
  unless ← eatMark "," do missing close
  if ← atMark close then return .inr (items.reverse, some ⟨comma.start, comma.stop⟩)
  return .inl items

theorem separated_eq (close : String) (item : Parser α) :
    separated close item = (do
      if (← atMark close) || (← atEnd) then return ([], none)
      repeatFrom [] (separatedRound close item)) := rfl

theorem partMarks_subset (part : PartLook) : partMarks part ⊆ [',', ']', '\x7d'] := by
  rw [partMarks]
  split <;> simp

/-- The text of a part can be scanned. -/
theorem PartRestored.scans {part : PartLook} {before after : List String} {rest : List Char}
    (h : PartRestored item view part before after) (hrest : Follows (partMarks part) rest) :
    Scans (part.text ++ rest) := by
  by_cases hhole : part.kind = .hole
  · rw [h.hole hhole]
    exact hrest.scans
  · exact (h.begins hhole).scans
      (hrest.mono (List.Subset.trans (partMarks_subset part) (by simp [endMarks])))

/-- What follows the first part of a list that a mark closes. -/
def tailText (part : PartLook) (parts : List PartLook) (closed : List Char) : List Char :=
  match parts with
  | [] => if part.kind = .hole then ',' :: closed else closed
  | parts => ',' :: ' ' :: (partsText parts ++ closed)

theorem partsText_cons (part : PartLook) (parts : List PartLook) (closed : List Char) :
    partsText (part :: parts) ++ closed = part.text ++ tailText part parts closed := by
  cases parts with
  | nil =>
    rw [partsText, tailText]
    split <;> simp
  | cons next parts => simp [partsText, tailText]

/-- The marks that close the list of a pattern. -/
def IsClosing (c : Char) : Prop := c = ']' ∨ c = '\x7d'

theorem IsClosing.facts {c : Char} (h : IsClosing c) :
    c ∈ loneMarks ∧ (String.singleton ',' == String.singleton c) = false ∧
      String.singleton c ∈ ["]", "\x7d"] := by
  obtain rfl | rfl := h <;> decide

/-- Behind the first part of a list there is a comma or the closing mark. -/
theorem follows_tailText (part : PartLook) (parts : List PartLook) {c : Char} (hc : IsClosing c)
    (rest : List Char) : Follows (partMarks part) (tailText part parts (c :: rest)) := by
  have hcomma {tail : List Char} : Follows (partMarks part) (',' :: tail) := by
    refine follows_mark (by decide) ?_ _
    rw [partMarks]
    split <;> decide
  cases parts with
  | cons => exact hcomma
  | nil =>
    rw [tailText]
    split
    · exact hcomma
    · next hhole =>
      refine follows_mark hc.facts.1 ?_ rest
      rw [partMarks, if_neg hhole]
      obtain rfl | rfl := hc <;> decide

theorem exists_tailText_hole {part : PartLook} (parts : List PartLook) (closed : List Char)
    (h : part.kind = .hole) : ∃ tail, tailText part parts closed = ',' :: tail := by
  cases parts with
  | nil => exact ⟨closed, if_pos h⟩
  | cons => exact ⟨_, rfl⟩

/-- The text of a list can be scanned. -/
theorem scans_partsText {parts : List PartLook} {before after : List String} {c : Char}
    (hc : IsClosing c) (h : Linked (PartRestored item view) parts before after) (rest : List Char) :
    Scans (partsText parts ++ c :: rest) := by
  cases h with
  | nil => exact scans_mark hc.facts.1 rest
  | cons hpart =>
    rw [partsText_cons]
    exact hpart.scans (follows_tailText _ _ hc rest)

/-- No list is over before its first part. -/
theorem PartRestored.goes_on {part : PartLook} {parts : List PartLook} {before after : List String}
    {source rest : List Char} {exports : List String} {c : Char} {t : State} (hc : IsClosing c)
    (h : PartRestored item view part before after)
    (ht : t.Ahead source exports (partsText (part :: parts) ++ c :: rest)) :
    isMark t.lexeme.token (String.singleton c) = false ∧
      (t.lexeme.token == .endOfInput) = false ∧
        t.lexeme.start + byteSize (partsText (part :: parts) ++ c :: rest) = byteSize source := by
  obtain ⟨-, hcomma, hmark⟩ := hc.facts
  rw [partsText_cons] at ht ⊢
  by_cases hhole : part.kind = .hole
  · obtain ⟨tail, htail⟩ := exists_tailText_hole parts (c :: rest) hhole
    rw [h.hole hhole, List.nil_append, htail] at ht ⊢
    obtain ⟨htoken, -, hstart⟩ := ht.lexeme_mark (by decide)
    rw [ht.isMark_eq (by decide), htoken]
    exact ⟨hcomma, rfl, hstart⟩
  · obtain ⟨offset, -, hoffset, hl⟩ := ht.scan
    obtain ⟨l, hl', hstart, hinput, hmarks⟩ := h.begins hhole offset _
      ((follows_tailText part parts hc rest).mono
        (List.Subset.trans (partMarks_subset part) (by simp [endMarks])))
    obtain rfl : t.lexeme = l := Except.ok.inj (hl.symm.trans hl')
    exact ⟨hmarks _ hmark, hinput, hstart ▸ hoffset⟩

/-- The round that reads the last part. -/
theorem lastRound_restored {part : PartLook} {before after : List String} {c : Char}
    (hc : IsClosing c) (h : PartRestored item view part before after) {source rest : List Char}
    {fuel : Nat} {items : List α} {t : State}
    (ht : t.Ahead source before (partsText [part] ++ c :: rest))
    (hfuel : 2 * byteSize (partsText [part] ++ c :: rest) ≤ fuel) :
    (separatedRound (String.singleton c) (item fuel) items).Answers t fun r t' =>
      t'.Ahead source after (c :: rest) ∧ ∃ a comma, r = .inr ((a :: items).reverse, comma) ∧
        view source a = part ∧ (comma.isSome = true → part.kind = .hole) := by
  obtain ⟨hlone, hcomma, -⟩ := hc.facts
  have hself : (String.singleton c == String.singleton c) = true := beq_self_eq_true _
  rw [partsText_cons] at ht hfuel
  simp only [separatedRound, answers_bind, answers_atMark, answers_atEnd, answers_current,
    answers_eatMark, answers_ite]
  refine (h.restored _ _ _ _ ht (follows_tailText part [] hc rest) hfuel).of fun a t1 h1 => ?_
  obtain ⟨h1, ha⟩ := h1
  rw [tailText] at h1
  split at h1
  · next hhole =>
    have hinput : (t1.lexeme.token == .endOfInput) = false := by
      rw [(h1.lexeme_mark (by decide)).1]
      rfl
    have hmark : isMark t1.lexeme.token "," = true := by
      rw [h1.isMark_eq (by decide)]
      rfl
    rw [h1.isMark_eq (by decide), hcomma, hinput, hmark]
    simp only [Bool.or_false, Bool.false_eq_true, ↓reduceIte]
    refine (h1.advance_mark (by decide) (scans_mark hlone rest)).of fun _ t2 h2 => ?_
    rw [h2.isMark_eq hlone, hself]
    simp only [answers_pure, ↓reduceIte]
    exact ⟨h2, a, _, rfl, ha, fun _ => hhole⟩
  · rw [h1.isMark_eq hlone, hself]
    simp only [Bool.true_or, answers_pure, ↓reduceIte]
    refine ⟨h1, a, none, rfl, ha, fun hsome => ?_⟩
    cases hsome

/-- A round that reads a part before another one. -/
theorem round_restored {part next : PartLook} {parts : List PartLook}
    {before middle middle' : List String} {c : Char} (hc : IsClosing c)
    (h : PartRestored item view part before middle)
    (hnext : PartRestored item view next middle middle') {source rest : List Char} {fuel : Nat}
    {items : List α} {t : State}
    (ht : t.Ahead source before (partsText (part :: next :: parts) ++ c :: rest))
    (hfuel : 2 * byteSize (partsText (part :: next :: parts) ++ c :: rest) ≤ fuel) :
    (separatedRound (String.singleton c) (item fuel) items).Answers t fun r t' =>
      t'.Ahead source middle (partsText (next :: parts) ++ c :: rest) ∧
        ∃ a, r = .inl (a :: items) ∧ view source a = part := by
  obtain ⟨hlone, hcomma, -⟩ := hc.facts
  rw [partsText_cons] at ht hfuel
  simp only [separatedRound, answers_bind, answers_atMark, answers_atEnd, answers_current,
    answers_eatMark, answers_ite]
  refine (h.restored _ _ _ _ ht (follows_tailText part _ hc rest) hfuel).of fun a t1 h1 => ?_
  obtain ⟨h1, ha⟩ := h1
  have h1 : t1.Ahead source middle (',' :: ' ' :: (partsText (next :: parts) ++ c :: rest)) := h1
  have hinput : (t1.lexeme.token == .endOfInput) = false := by
    rw [(h1.lexeme_mark (by decide)).1]
    rfl
  have hmark : isMark t1.lexeme.token "," = true := by
    rw [h1.isMark_eq (by decide)]
    rfl
  rw [h1.isMark_eq (by decide), hcomma, hinput, hmark]
  simp only [Bool.or_false, Bool.false_eq_true, ↓reduceIte]
  have hscans : Scans (partsText (next :: parts) ++ c :: rest) := by
    rw [partsText_cons]
    exact hnext.scans (follows_tailText next parts hc rest)
  refine (h1.advance_mark (by decide) hscans.blank).of fun _ t2 h2 => ?_
  have h2 := h2.skip_blank
  rw [(hnext.goes_on hc h2).1]
  simp only [Bool.false_eq_true, answers_pure, ↓reduceIte]
  exact ⟨h2, a, rfl, ha⟩

/-- The rounds of a list read its parts again. -/
theorem iterate_restored {parts : List PartLook} {part : PartLook} {before after : List String}
    {c : Char} (hc : IsClosing c)
    (h : Linked (PartRestored item view) (part :: parts) before after) {source rest : List Char}
    {fuel rounds : Nat} {items : List α} {t : State}
    (ht : t.Ahead source before (partsText (part :: parts) ++ c :: rest))
    (hfuel : 2 * byteSize (partsText (part :: parts) ++ c :: rest) ≤ fuel)
    (hrounds : parts.length < rounds) :
    (iterate (separatedRound (String.singleton c) (item fuel)) rounds items).Answers t fun r t' =>
      t'.Ahead source after (c :: rest) ∧
        r.1.map (view source) = items.reverse.map (view source) ++ part :: parts ∧
          (r.2.isSome = true → ((part :: parts).getLast (List.cons_ne_nil _ _)).kind = .hole) := by
  induction parts generalizing part before rounds items t with
  | nil =>
    obtain ⟨rounds, rfl⟩ : ∃ n, rounds = n + 1 := ⟨rounds - 1, by omega⟩
    cases h with
    | cons hpart hnil =>
      cases hnil
      rw [answers_iterate]
      refine (lastRound_restored hc hpart ht hfuel).of fun r t1 h1 => ?_
      obtain ⟨h1, a, comma, rfl, ha, hcomma⟩ := h1
      exact ⟨h1, by simp [ha], hcomma⟩
  | cons next parts ih =>
    obtain ⟨rounds, rfl⟩ : ∃ n, rounds = n + 1 := ⟨rounds - 1, by omega⟩
    cases h with
    | cons hpart hparts =>
      cases hparts with
      | cons hnext hlater =>
        rw [answers_iterate]
        refine (round_restored hc hpart hnext ht hfuel).of fun r t1 h1 => ?_
        obtain ⟨h1, a, rfl, ha⟩ := h1
        have hsize : byteSize (partsText (next :: parts) ++ c :: rest) ≤
            byteSize (partsText (part :: next :: parts) ++ c :: rest) := by
          simp only [partsText, byteSize_append, byteSize_cons]
          omega
        have hlength : parts.length < rounds := by
          rw [List.length_cons] at hrounds
          omega
        refine (ih (.cons hnext hlater) h1 (by omega) hlength).of fun r t2 h2 => ?_
        obtain ⟨h2, hitems, hcomma⟩ := h2
        refine ⟨h2, ?_, hcomma⟩
        rw [hitems, List.reverse_cons, List.map_append, List.append_assoc]
        simp [ha]

theorem length_le_partsText (part : PartLook) (parts : List PartLook) :
    parts.length ≤ byteSize (partsText (part :: parts)) := by
  induction parts generalizing part with
  | nil => exact Nat.zero_le _
  | cons next parts ih =>
    have hlater := ih next
    have hcomma : ','.utf8Size = 1 := by decide
    simp only [partsText, byteSize_append, byteSize_cons, List.length_cons]
    omega

/-- A list that is printed is read again. -/
theorem separated_restored {parts : List PartLook} {before after : List String} {c : Char}
    (hc : IsClosing c) (h : Linked (PartRestored item view) parts before after)
    {source rest : List Char} {fuel : Nat} {t : State}
    (ht : t.Ahead source before (partsText parts ++ c :: rest))
    (hfuel : 2 * byteSize (partsText parts ++ c :: rest) ≤ fuel) :
    (separated (String.singleton c) (item fuel)).Answers t fun r t' =>
      t'.Ahead source after (c :: rest) ∧ r.1.map (view source) = parts ∧
        (r.2.isSome = true → ∃ last, parts.getLast? = some last ∧ last.kind = .hole) := by
  simp only [separated_eq, answers_bind, answers_atMark, answers_atEnd, answers_ite]
  cases parts with
  | nil =>
    cases h
    have ht : t.Ahead source before (c :: rest) := ht
    rw [ht.isMark_eq hc.facts.1, beq_self_eq_true]
    simp only [Bool.true_or, answers_pure, ↓reduceIte]
    refine ⟨ht, rfl, fun hsome => ?_⟩
    cases hsome
  | cons part parts =>
    obtain ⟨middle, hpart⟩ : ∃ middle, PartRestored item view part before middle := by
      cases h with
      | cons hpart => exact ⟨_, hpart⟩
    obtain ⟨hmark, hinput, hstart⟩ := hpart.goes_on hc ht
    have hlength := length_le_partsText part parts
    rw [hmark, hinput]
    simp only [Bool.or_false, Bool.false_eq_true, answers_repeatFrom, ↓reduceIte]
    refine (iterate_restored hc h ht hfuel ?_).of fun r t1 h1 => ?_
    · rw [byteSize_append] at hstart
      rw [ht.limit_eq]
      omega
    · obtain ⟨h1, hitems, hcomma⟩ := h1
      refine ⟨h1, hitems, fun hsome => ⟨_, List.getLast?_eq_some_getLast _, hcomma hsome⟩⟩

end Lists

end Rebind.Grammar
