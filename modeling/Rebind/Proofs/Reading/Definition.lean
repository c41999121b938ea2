import Rebind.Grammar.Class
import Rebind.Proofs.Reading.Parser

/-!
# What patterns, functions and classes read
-/

namespace Rebind.Grammar

open Rebind.Text (Span)
open Rebind.Snippet
open Rebind.Grammar.Parser

variable {g : Productions} {ctx : Context} {s : State}

/-- An expression that is copied, in terms of the part of the source that it is. -/
theorem copied_assignment_reads (hg : g.Sound) (hs : s.Sound) :
    (copied (g.assignment ctx)).Ensures s fun e s' => Reads s [.expression e] s' :=
  copied_reads (hg.assignment ctx hs)

/-- A value after an equals sign. -/
theorem initializer_reads (hg : g.Sound) {xs : List Part} {s1 : State} (h1 : Reads s xs s1)
    (hmark : isMark s1.lexeme.token "=" = true) :
    advance.Ensures s1 fun _ s2 =>
      (copied (g.assignment ctx)).Ensures s2 fun e s3 => Reads s (xs ++ [.expression e]) s3 := by
  refine (advance_mark h1.sound hmark).of fun _ s2 h2 => ?_
  exact (copied_assignment_reads hg h2.sound).of fun e s3 h3 => h1.trans (h3.after h2)

theorem key_reads (hg : g.Sound) {allowsPrivate : Bool} (hs : s.Sound) :
    (key g ctx allowsPrivate).Ensures s fun r s' => Reads s r.1.parts s' := by
  have hplain (hne : s.lexeme.token ≠ .endOfInput) (text : Option String) :
      Ensures (advance >>= fun _ => pure (Key.plain s.here, text)) s fun r s' =>
        Reads s r.1.parts s' := by
    simp only [ensures_bind, ensures_pure]
    exact advance_here hs hne
  simp only [key, ensures_bind, ensures_current]
  split
  · next heq => exact hplain (by simp [heq]) _
  · next heq => exact hplain (by simp [heq]) _
  · next heq => exact hplain (by simp [heq]) _
  · next heq =>
    simp only [ensures_bind, ensures_ite, ensures_unexpected, ensures_pure, ensures_fail]
    have hread := hplain (by simp [heq]) none
    simp only [ensures_bind, ensures_pure] at hread
    split
    · split
      · trivial
      · exact hread
    · trivial
  · simp only [ensures_bind, ensures_eatMark, ensures_ite, ensures_unexpected, ensures_pure,
      ↓reduceIte, Bool.false_eq_true]
    split
    · next hmark =>
      refine (advance_mark hs hmark).of fun _ s1 h1 => ?_
      refine (copied_assignment_reads hg h1.sound).of fun e s2 h2 => ?_
      refine (expectMark_reads h2.sound).of fun _ s3 h3 => ?_
      exact (h2.after h1).before h3
    · trivial

/-! ## Patterns -/

theorem patternElement_reads (hg : g.Sound) (hs : s.Sound) :
    (patternElement g ctx).Ensures s fun p s' => Reads s p.parts s' := by
  simp only [patternElement, ensures_bind, ensures_eatMark, ensures_ite, ensures_pure, ↓reduceIte,
    Bool.false_eq_true]
  refine (hg.pattern ctx hs).of fun p s1 h1 => ?_
  split
  · next hmark => exact initializer_reads hg h1.toReads hmark
  · exact h1.toReads

/-- The parts of the source in a part of a pattern. -/
def PatternPart.parts {α : Type} (valueParts : α → List Part) : PatternPart α → List Part
  | .part value => valueParts value
  | .rest pattern _ => pattern.parts

theorem splitRest_ensures {α : Type} (valueParts : α → List Part) {comma : Option Span}
    (parts : List (PatternPart α)) :
    (splitRest comma parts).Ensures s fun r s' => s' = s ∧
      parts.flatMap (PatternPart.parts valueParts) = r.1.flatMap valueParts ++ restParts r.2 := by
  induction parts with
  | nil =>
    simp [splitRest, restParts]
  | cons part parts ih =>
    cases part with
    | part value =>
      simp only [splitRest, ensures_bind, ensures_pure]
      refine ih.of fun r s1 h1 => ?_
      obtain ⟨h1, hparts⟩ := h1
      refine ⟨h1, ?_⟩
      simp [PatternPart.parts, hparts]
    | rest pattern span =>
      cases parts with
      | nil =>
        simp only [splitRest]
        split
        · exact ensures_fail.2 trivial
        · simp [restParts, PatternPart.parts]
      | cons next parts => exact ensures_fail.2 trivial

theorem patternPart_reads {α : Type} {valueParts : α → List Part} {part : Parser α}
    {rest : Parser Pattern}
    (hpart : ∀ {s}, s.Sound → part.Ensures s fun a s' => Reads s (valueParts a) s')
    (hrest : ∀ {s}, s.Sound → rest.Ensures s fun p s' => Reads s p.parts s')
    (hs : s.Sound) :
    (patternPart part rest).Ensures s fun p s' =>
      Reads s (p.parts valueParts) s' := by
  simp only [patternPart, ensures_bind, ensures_position, ensures_eatMark, ensures_ite,
    ensures_spanFrom, ensures_pure, ↓reduceIte, Bool.false_eq_true]
  split
  · next hmark =>
    refine (advance_mark hs hmark).of fun _ s1 h1 => ?_
    exact (hrest h1.sound).of fun p s2 h2 => h2.after h1
  · exact hpart hs

theorem patternProperty_reads (hg : g.Sound) (hs : s.Sound) :
    (patternProperty g ctx).Ensures s fun p s' =>
      Reads s (p.1.parts ++ p.2.parts) s' := by
  simp only [patternProperty, ensures_bind, ensures_current, ensures_eatMark, ensures_ite,
    ensures_pure, ↓reduceIte, Bool.false_eq_true]
  refine (key_reads hg hs).of fun r s1 h1 => ?_
  split
  · next hmark =>
    refine (advance_mark h1.sound hmark).of fun _ s2 h2 => ?_
    exact (patternElement_reads hg h2.sound).of fun p s3 h3 => h1.trans (h3.after h2)
  · split
    · exact ensures_fail.2 trivial
    · simp only [ensures_bind, ensures_eatMark, ensures_ite, ensures_pure, ↓reduceIte,
        Bool.false_eq_true]
      split
      · next hmark => exact initializer_reads hg h1 hmark
      · simpa [Pattern.parts] using h1

theorem restName_reads (hs : s.Sound) :
    (restName ctx).Ensures s fun p s' => Reads s p.parts s' := by
  simp only [restName, ensures_bind, ensures_pure]
  exact (name_reads hs).of fun r s1 h1 => h1.1.sublist (List.nil_sublist _)

/-- The elements or properties of a pattern, and its rest element. -/
theorem patternParts_reads {α : Type} {valueParts : α → List Part} {part : Parser α}
    {rest : Parser Pattern} {close : String}
    (hpart : ∀ {s}, s.Sound → part.Ensures s fun a s' => Reads s (valueParts a) s')
    (hrest : ∀ {s}, s.Sound → rest.Ensures s fun p s' => Reads s p.parts s')
    (hs : s.Sound) :
    Ensures (separated close (patternPart part rest)) s fun r s' =>
      Ensures (splitRest r.2 r.1) s' fun r s' =>
        Reads s (r.1.flatMap valueParts ++ restParts r.2) s' := by
  have hitem {s : State} (hs : s.Sound) : (patternPart part rest).Ensures s fun a s' =>
      Reads s (a.parts valueParts) s' ∧ True :=
    (patternPart_reads hpart hrest hs).of fun _ _ h => ⟨h, trivial⟩
  refine (separated_reads hitem hs).of fun r s1 h1 => ?_
  obtain ⟨h1, -⟩ := h1
  refine (splitRest_ensures valueParts r.1).of fun r' s2 h2 => ?_
  obtain ⟨h2, hparts⟩ := h2
  rw [h2, ← hparts]
  exact h1

theorem pattern_reads (hg : g.Sound) (hs : s.Sound) :
    (pattern g ctx).Ensures s fun p s' => ReadsPattern s p s' := by
  simp only [pattern, ensures_bind, ensures_position, ensures_eatMark, ensures_ite,
    ensures_spanFrom, ensures_pure, ↓reduceIte, Bool.false_eq_true]
  split
  · next hmark =>
    refine (advance_mark hs hmark).of fun _ s1 h1 => ?_
    have helement {s : State} (hs : s.Sound) :
        Ensures (atMark "," >>= fun atComma =>
          if atComma then pure none else return some (← patternElement g ctx)) s fun p s' =>
            Reads s (restParts p) s' := by
      simp only [ensures_bind, ensures_atMark, ensures_ite, ensures_pure]
      split
      · exact .refl hs
      · exact patternElement_reads hg hs
    refine (patternParts_reads helement (fun hs => (hg.pattern ctx hs).of fun _ _ h => h.toReads)
      h1.sound).of fun parts s2 h2 => ?_
    refine h2.of fun r s3 h3 => ?_
    refine (expectMark_reads h3.sound).of fun _ s4 h4 => ⟨?_, rfl, ?_⟩
    · rw [Pattern.parts, elementParts_eq]
      exact (h3.after h1).before h4
    · exact (h4.after (h1.trans h3)).start_lt_stop
  split
  · next hmark =>
    refine (advance_mark hs hmark).of fun _ s1 h1 => ?_
    refine (patternParts_reads (patternProperty_reads hg) restName_reads h1.sound).of
      fun parts s2 h2 => ?_
    refine h2.of fun r s3 h3 => ?_
    refine (expectMark_reads h3.sound).of fun _ s4 h4 => ⟨?_, rfl, ?_⟩
    · rw [Pattern.parts, propertyParts_eq]
      exact (h3.after h1).before h4
    · exact (h4.after (h1.trans h3)).start_lt_stop
  · refine (name_reads hs).of fun r s1 h1 => ?_
    obtain ⟨h1, hstop⟩ := h1
    exact ⟨h1.sublist (List.nil_sublist _), hstop, h1.start_lt_stop⟩

/-! ## Declarations -/

theorem requireValue_ensures {kind : DeclarationKind} {d : Declarator} :
    (requireValue kind d).Ensures s fun _ s' => s' = s := by
  unfold requireValue
  simp only [ensures_ite, ensures_pure]
  split
  · trivial
  · split
    · exact ensures_pure.2 rfl
    · exact ensures_pure.2 rfl
    · exact ensures_fail.2 trivial
    · exact ensures_fail.2 trivial

theorem declarator_reads (hg : g.Sound) {kind : DeclarationKind} (hs : s.Sound) :
    (declarator g ctx kind).Ensures s fun d s' => Reads s d.parts s' := by
  simp only [declarator, ensures_bind, ensures_eatMark, ensures_ite, ensures_pure, ↓reduceIte,
    Bool.false_eq_true]
  have hend {target : Pattern} {s1 : State} (h1 : Reads s target.parts s1) :
      if isMark s1.lexeme.token "=" = true then
        advance.Ensures s1 fun _ s2 => (copied (g.assignment ctx)).Ensures s2 fun e s3 =>
          Reads s (Declarator.mk target (some e)).parts s3
      else Reads s (Declarator.mk target none).parts s1 := by
    split
    · next hmark => exact initializer_reads hg h1 hmark
    · simpa [Declarator.parts, valueParts] using h1
  split
  · exact (name_reads hs).of fun r s1 h1 => hend (h1.1.sublist (List.nil_sublist _))
  · exact (hg.pattern ctx hs).of fun target s1 h1 => hend h1.toReads

theorem declaration_reads (hg : g.Sound) {kind : DeclarationKind} {isStatement : Bool}
    (hs : s.Sound) :
    (declaration g ctx kind isStatement).Ensures s fun d s' =>
      Reads s d.parts s' := by
  refine ensures_repeatFrom
    (fun ds s' => Reads s (ds.reverse.flatMap Declarator.parts) s') (.refl hs)
    fun ds s1 h1 => ?_
  simp only [ensures_bind, ensures_eatMark, ensures_ite, ensures_pure, ↓reduceIte,
    Bool.false_eq_true, Sum.elim_inl, Sum.elim_inr]
  refine (declarator_reads hg h1.sound).of fun d s2 h2 => ?_
  have hread : Reads s ((d :: ds).reverse.flatMap Declarator.parts) s2 := by
    simpa using h1.trans h2
  have hend {s3 : State} (h3 : Reads s2 [] s3) :
      if isMark s3.lexeme.token "," = true then
        advance.Ensures s3 fun _ s4 =>
          Reads s ((d :: ds).reverse.flatMap Declarator.parts) s4
      else Reads s (Declaration.mk kind (d :: ds).reverse).parts s3 := by
    split
    · next hmark =>
      exact (advance_mark h3.sound hmark).of fun _ s4 h4 => (hread.before h3).before h4
    · exact hread.before h3
  split
  · exact requireValue_ensures.of fun _ s3 h3 => hend (by rw [h3]; exact .refl h2.sound)
  · exact hend (.refl h2.sound)

/-! ## Functions -/

theorem directivesAndStatements_reads (hg : g.Sound) {isClosed : Bool} (hs : s.Sound) :
    (directivesAndStatements g ctx isClosed).Ensures s fun r s' =>
      Reads s (r.1.map Part.verbatim ++ listParts true r.2) s' ∧
        ListFormed r.2 := by
  simp only [listParts_eq, listFormed_iff]
  refine ensures_repeatFrom
    (fun (found : List Span × List Statement) s' =>
      Reads s (found.1.reverse.map Part.verbatim ++
        found.2.reverse.flatMap (Statement.parts true)) s' ∧
        ∀ st ∈ found.2, st.Formed)
    ⟨.refl hs, by simp⟩ fun found s1 h1 => ?_
  obtain ⟨directives, statements⟩ := found
  obtain ⟨h1, hformed⟩ := h1
  simp only [ensures_bind, ensures_current, ensures_ite, ensures_pure, Sum.elim_inr]
  split
  · exact ⟨h1, fun st hst => hformed st (List.mem_reverse.1 hst)⟩
  refine (hg.statement ctx .listed h1.sound).of fun st s2 h2 => ?_
  obtain ⟨h2, hst⟩ := h2
  split
  · next start value _ _ =>
    simp only [ensures_ite, ensures_pure, Sum.elim_inl]
    split
    · refine ⟨?_, by simp⟩
      simpa using h1.trans h2.verbatim
    · refine ⟨?_, List.forall_mem_singleton.2 hst⟩
      simpa using h1.trans h2
  · refine ensures_pure.2 ⟨?_, List.forall_mem_cons.2 ⟨hst, hformed⟩⟩
    simpa using h1.trans h2

theorem bracedStatements_reads (hg : g.Sound) (hs : s.Sound) :
    (bracedStatements g ctx).Ensures s fun body s' =>
      Reads s (listParts true body) s' ∧ ListFormed body := by
  simp only [bracedStatements, ensures_bind, ensures_pure, listParts_eq, listFormed_iff]
  refine (expectMark_reads hs).of fun _ s1 h1 => ?_
  refine ensures_repeatFrom
    (fun (body : List Statement) s' =>
      Reads s1 (body.reverse.flatMap (Statement.parts true)) s' ∧
        ∀ st ∈ body, st.Formed)
    ⟨.refl h1.sound, by simp⟩ fun body s2 h2 => ?_
  obtain ⟨h2, hformed⟩ := h2
  simp only [ensures_bind, ensures_atMark, ensures_atEnd, ensures_ite, ensures_pure, Sum.elim_inl,
    Sum.elim_inr]
  split
  · refine (expectMark_reads h2.sound).of fun _ s3 h3 => ?_
    exact ⟨(h2.after h1).before h3, fun st hst => hformed st (List.mem_reverse.1 hst)⟩
  · refine (hg.statement ctx .listed h2.sound).of fun st s3 h3 => ?_
    obtain ⟨h3, hst⟩ := h3
    refine ⟨?_, List.forall_mem_cons.2 ⟨hst, hformed⟩⟩
    simpa using h2.trans h3

theorem functionBody_reads (hg : g.Sound) (hs : s.Sound) :
    (functionBody g ctx).Ensures s fun body s' =>
      Reads s (bodyParts body) s' ∧ BodyFormed body := by
  simp only [functionBody, ensures_bind, ensures_position, ensures_pure]
  refine (expectMark_reads hs).of fun _ s1 h1 => ?_
  refine (directivesAndStatements_reads hg h1.sound).of fun r s2 h2 => ?_
  obtain ⟨h2, hformed⟩ := h2
  refine (expectMark_reads h2.sound).of fun _ s3 h3 => ?_
  exact ⟨(h2.after h1).before h3, hformed⟩

/-- The parts of the source in a parameter or the rest parameter. -/
def oneParameterParts : Sum Parameter (Pattern × Span) → List Part
  | .inl p => p.parts
  | .inr (rest, _) => rest.parts

theorem parameter_reads (hg : g.Sound) (hs : s.Sound) :
    (parameter g ctx).Ensures s fun p s' => Reads s (oneParameterParts p) s' := by
  simp only [parameter, ensures_bind, ensures_position, ensures_eatMark, ensures_ite,
    ensures_spanFrom, ensures_pure, ↓reduceIte, Bool.false_eq_true]
  split
  · next hmark =>
    refine (advance_mark hs hmark).of fun _ s1 h1 => ?_
    exact (hg.pattern ctx h1.sound).of fun rest s2 h2 => h2.toReads.after h1
  · refine (hg.pattern ctx hs).of fun p s1 h1 => ?_
    split
    · -- The default value starts where the pattern stops, so that it takes the equals sign too.
      next hmark =>
      refine (advance_mark h1.sound hmark).of fun _ s2 h2 => ?_
      refine (copied_assignment_reads hg h2.sound).of fun e s3 h3 => ?_
      have hdefault := h1.toReads.trans_default h1.start_lt_stop (h3.after h2)
      rwa [h1.stop_eq] at hdefault
    · simpa [oneParameterParts, Parameter.parts] using h1.toReads

theorem splitParameters_ensures {comma : Option Span}
    (parts : List (Sum Parameter (Pattern × Span))) :
    (splitParameters comma parts).Ensures s fun r s' => s' = s ∧
      parts.flatMap oneParameterParts = r.1.flatMap Parameter.parts ++ restParts r.2 := by
  induction parts with
  | nil => simp [splitParameters, restParts]
  | cons part parts ih =>
    cases part with
    | inl p =>
      simp only [splitParameters, ensures_bind, ensures_pure]
      refine ih.of fun r s1 h1 => ?_
      obtain ⟨h1, hparts⟩ := h1
      refine ⟨h1, ?_⟩
      simp [oneParameterParts, hparts]
    | inr p =>
      cases parts with
      | nil =>
        simp only [splitParameters]
        split
        · exact ensures_fail.2 trivial
        · simp [restParts, oneParameterParts]
      | cons next parts => exact ensures_fail.2 trivial

theorem callable_reads (hg : g.Sound) {isAsync isGenerator : Bool} {name : Option String}
    (hs : s.Sound) :
    (callable g isAsync isGenerator name).Ensures s fun c s' =>
      Reads s (callableParts c) s' ∧ CallableFormed c ∧ c.name = name := by
  simp only [callable, ensures_bind, ensures_pure]
  refine (expectMark_reads hs).of fun _ s1 h1 => ?_
  have hitem {s : State} (hs : s.Sound) :
      (parameter g (.inFunction isAsync isGenerator)).Ensures s fun p s' =>
        Reads s (oneParameterParts p) s' ∧ True :=
    (parameter_reads hg hs).of fun _ _ h => ⟨h, trivial⟩
  refine (separated_reads hitem h1.sound).of fun parts s2 h2 => ?_
  obtain ⟨h2, -⟩ := h2
  refine (splitParameters_ensures parts.1).of fun r s3 h3 => ?_
  obtain ⟨h3, hparts⟩ := h3
  rw [h3]
  refine (expectMark_reads h2.sound).of fun _ s4 h4 => ?_
  refine (functionBody_reads hg h4.sound).of fun body s5 h5 => ?_
  obtain ⟨h5, hformed⟩ := h5
  refine ⟨?_, hformed, trivial⟩
  rw [callableParts, ← hparts]
  exact (h2.after h1).trans (h5.after h4)

theorem method_reads (hg : g.Sound) {kind : MethodKind} {isAsync isGenerator : Bool}
    (hs : s.Sound) :
    (method g kind isAsync isGenerator).Ensures s fun c s' =>
      Reads s (callableParts c) s' ∧ CallableFormed c := by
  simp only [method, ensures_bind, ensures_position, ensures_ite, ensures_spanFrom, ensures_fail,
    ensures_pure]
  refine (callable_reads hg hs).of fun c s1 h1 => ?_
  obtain ⟨h1, hformed, -⟩ := h1
  exact of_check ⟨h1, hformed⟩

/-- A function takes its first word and, past it, the parts that are copied. -/
theorem function_reads (hg : g.Sound) {isAsync : Bool} {naming : Naming} (hs : s.Sound) :
    (function g ctx isAsync naming).Ensures s fun c s' =>
      Reads s (s.here :: callableParts c) s' ∧ CallableFormed c ∧
        (naming = .required → c.name.isSome) := by
  have hname {isGenerator : Bool} {name : Option String} {s1 : State}
      (h1 : Reads s [s.here] s1) (hnamed : naming = .required → name.isSome) :
      (callable g isAsync isGenerator name).Ensures s1 fun c s' =>
        Reads s (s.here :: callableParts c) s' ∧ CallableFormed c ∧
          (naming = .required → c.name.isSome) := by
    refine (callable_reads hg h1.sound).of fun c s2 h2 => ?_
    obtain ⟨h2, hformed, hc⟩ := h2
    exact ⟨h1.trans h2, hformed, hc ▸ hnamed⟩
  simp only [function, ensures_bind]
  refine (expectKeyword_reads hs).of fun _ s1 h1 => ?_
  refine (eatMark_reads h1.sound).of fun isGenerator s2 h2 => ?_
  have h12 : Reads s [s.here] s2 := h1.before h2
  cases naming with
  | required =>
    simp only [ensures_bind, ensures_pure]
    refine (name_reads h2.sound).of fun r s3 h3 => ?_
    obtain ⟨h3, -⟩ := h3
    simpa using hname (h12.before h3) fun _ => rfl
  | optional | inner =>
    simp only [ensures_bind, ensures_atMark, ensures_ite, ensures_pure]
    split
    · exact hname h12 (by simp)
    · exact (name_reads h2.sound).of fun r s3 h3 => hname (h12.before h3.1) (by simp)

/-! ## Classes -/

theorem decorators_reads (hg : g.Sound) (hs : s.Sound) :
    (decorators g ctx).Ensures s fun ds s' => Reads s (ds.map .expression) s' := by
  refine ensures_repeatFrom
    (fun (ds : List Expression) s' => Reads s (ds.reverse.map .expression) s') (.refl hs)
    fun ds s1 h1 => ?_
  simp only [ensures_bind, ensures_eatMark, ensures_ite, ensures_pure, ↓reduceIte,
    Bool.false_eq_true, Sum.elim_inl, Sum.elim_inr]
  split
  · next hmark =>
    refine (advance_mark h1.sound hmark).of fun _ s2 h2 => ?_
    refine (copied_reads (hg.access _ _ h2.sound)).of fun e s3 h3 => ?_
    simpa using h1.trans (h3.after h2)
  · exact h1

theorem eatModifier_reads {word : String} (hs : s.Sound) :
    (eatModifier word).Ensures s fun _ s' => Reads s [] s' := by
  simp only [eatModifier, ensures_bind, ensures_atKeyword, ensures_peek, ensures_ite, ensures_pure]
  have happly (hword : isKeyword s.lexeme.token word = true) (applies : Bool) :
      if applies then Ensures advance s fun _ s' => Reads s [] s' else Reads s [] s := by
    split
    · exact advance_keyword hs hword
    · exact .refl hs
  split
  · next hword => exact fun l _ => happly hword _
  · exact .refl hs

theorem accessorKind_reads (hs : s.Sound) :
    accessorKind.Ensures s fun _ s' => Reads s [] s' := by
  simp only [accessorKind, ensures_bind, ensures_ite, ensures_pure]
  refine (eatModifier_reads hs).of fun isGetter s1 h1 => ?_
  split
  · exact h1
  · refine (eatModifier_reads h1.sound).of fun isSetter s2 h2 => ?_
    split <;> exact h1.trans h2

theorem fieldRest_reads (hg : g.Sound) {ds : List Expression} {isStatic isAccessor : Bool}
    {name : Key} (hs : s.Sound) :
    (fieldRest g ctx ds isStatic isAccessor name).Ensures s fun e s' =>
      ∃ value, e = .field ds isStatic isAccessor name value ∧
        Reads s (valueParts value) s' := by
  simp only [fieldRest, ensures_bind, ensures_eatMark, ensures_ite, ensures_pure, ↓reduceIte,
    Bool.false_eq_true]
  split
  · next hmark =>
    refine (advance_mark hs hmark).of fun _ s1 h1 => ?_
    refine (copied_assignment_reads hg h1.sound).of fun e s2 h2 => ?_
    exact (endStatement_reads h2.sound).of fun _ s3 h3 => ⟨_, rfl, (h2.after h1).before h3⟩
  · exact (endStatement_reads hs).of fun _ s1 h1 => ⟨_, rfl, h1⟩

theorem checkMethodName_ensures {isStatic isPlain : Bool} {name : Option String} {span : Span} :
    (checkMethodName isStatic isPlain name span).Ensures s fun _ s' => s' = s := by
  simp only [checkMethodName, ensures_bind, ensures_ite, ensures_fail, ensures_pure]
  split
  · trivial
  · split <;> trivial

theorem checkFieldName_ensures {isStatic : Bool} {name : Option String} {span : Span} :
    (checkFieldName isStatic name span).Ensures s fun _ s' => s' = s := by
  simp only [checkFieldName, ensures_bind, ensures_ite, ensures_fail, ensures_pure]
  split
  · trivial
  · split <;> trivial

theorem elementModifiers_reads (hs : s.Sound) :
    elementModifiers.Ensures s fun _ s' => Reads s [] s' := by
  simp only [elementModifiers, ensures_bind, ensures_ite, ensures_pure]
  refine (eatModifier_reads hs).of fun isAccessor s1 h1 => ?_
  split
  · exact h1
  refine (eatModifier_reads h1.sound).of fun isAsync s2 h2 => ?_
  refine (eatMark_reads h2.sound).of fun isGenerator s3 h3 => ?_
  split
  · exact (h1.trans h2).trans h3
  · exact (accessorKind_reads h3.sound).of fun kind s4 h4 => ((h1.trans h2).trans h3).trans h4

theorem elementRest_reads (hg : g.Sound) {ds : List Expression} {isStatic : Bool}
    {modifiers : ElementModifiers} {s1 : State} (h1 : Reads s (ds.map .expression) s1) :
    (elementRest g ctx ds isStatic modifiers).Ensures s1 fun e s' =>
      Reads s e.parts s' ∧ e.Formed := by
  simp only [elementRest, ensures_bind, ensures_position, ensures_spanFrom, ensures_atMark,
    ensures_ite, ensures_pure]
  refine (key_reads hg h1.sound).of fun name s2 h2 => ?_
  split
  · refine checkMethodName_ensures.of fun _ s3 h3 => ?_
    rw [h3]
    split
    · refine (method_reads hg h2.sound).of fun c s4 h4 => ?_
      obtain ⟨h4, hformed⟩ := h4
      refine ⟨?_, hformed⟩
      simpa [Element.parts] using (h1.trans h2).trans h4
    · exact ensures_unexpected.2 trivial
  · refine checkFieldName_ensures.of fun _ s3 h3 => ?_
    rw [h3]
    refine (fieldRest_reads hg h2.sound).of fun e s4 h4 => ?_
    obtain ⟨value, rfl, h4⟩ := h4
    refine ⟨?_, trivial⟩
    simpa [Element.parts] using (h1.trans h2).trans h4

theorem classElement_reads (hg : g.Sound) (hs : s.Sound) :
    (classElement g ctx).Ensures s fun e s' => Reads s e.parts s' ∧ e.Formed := by
  simp only [classElement, ensures_bind, ensures_position, ensures_atMark, ensures_ite,
    ensures_pure]
  refine (decorators_reads hg hs).of fun ds s1 h1 => ?_
  refine (eatModifier_reads h1.sound).of fun isStatic s2 h2 => ?_
  have h12 : Reads s (ds.map .expression) s2 := h1.before h2
  split
  · refine (bracedStatements_reads hg h2.sound).of fun body s3 h3 => ?_
    obtain ⟨h3, hformed⟩ := h3
    exact ⟨h3.after h12, hformed⟩
  · refine (elementModifiers_reads h2.sound).of fun modifiers s3 h3 => ?_
    exact elementRest_reads hg (h12.before h3)

theorem className_reads (hs : s.Sound) :
    (className ctx).Ensures s fun _ s' => Reads s [] s' := by
  simp only [className, ensures_bind, ensures_atMark, ensures_atKeyword, ensures_atEnd,
    ensures_ite, ensures_pure]
  split
  · exact .refl hs
  · exact (name_reads hs).of fun r s1 h1 => h1.1.sublist (List.nil_sublist _)

theorem classHeritage_reads (hg : g.Sound) (hs : s.Sound) :
    (classHeritage g ctx).Ensures s fun value s' =>
      Reads s (valueParts value) s' := by
  simp only [classHeritage, ensures_bind, ensures_eatKeyword, ensures_ite, ensures_pure,
    ↓reduceIte, Bool.false_eq_true]
  split
  · next hword =>
    refine (advance_keyword hs hword).of fun _ s1 h1 => ?_
    exact (copied_reads (hg.access _ _ h1.sound)).of fun e s2 h2 => h2.after h1
  · exact .refl hs

theorem classBody_reads (hg : g.Sound) (hs : s.Sound) :
    (classBody g ctx).Ensures s fun elements s' =>
      Reads s (elementsParts elements) s' ∧ ElementsFormed elements := by
  simp only [classBody, ensures_bind, ensures_pure, elementsParts_eq, elementsFormed_iff]
  refine (expectMark_reads hs).of fun _ s1 h1 => ?_
  refine ensures_repeatFrom
    (fun (elements : List Element) s' =>
      Reads s1 (elements.reverse.flatMap Element.parts) s' ∧
        ∀ e ∈ elements, e.Formed)
    ⟨.refl h1.sound, by simp⟩ fun elements s2 h2 => ?_
  obtain ⟨h2, hformed⟩ := h2
  simp only [ensures_bind, ensures_eatMark, ensures_atMark, ensures_atEnd, ensures_ite,
    ensures_pure, ↓reduceIte, Bool.false_eq_true, Sum.elim_inl, Sum.elim_inr]
  split
  · next hmark =>
    exact (advance_mark h2.sound hmark).of fun _ s3 h3 => ⟨h2.before h3, hformed⟩
  split
  · refine (expectMark_reads h2.sound).of fun _ s3 h3 => ?_
    exact ⟨(h2.after h1).before h3, fun e he => hformed e (List.mem_reverse.1 he)⟩
  · refine (classElement_reads hg h2.sound).of fun e s3 h3 => ?_
    obtain ⟨h3, he⟩ := h3
    refine ⟨?_, List.forall_mem_cons.2 ⟨he, hformed⟩⟩
    simpa using h2.trans h3

/-- A class takes its first word and, past it, the parts that are copied. -/
theorem classDefinition_reads (hg : g.Sound) {start : Nat} {ds : List Expression} (hs : s.Sound) :
    (classDefinition g ctx start ds).Ensures s fun d s' =>
      Reads s (s.here :: (valueParts d.heritage ++ elementsParts d.elements)) s' ∧
        d.start = start ∧ d.decorators = ds ∧ ClassFormed d := by
  simp only [classDefinition, ensures_bind, ensures_pure]
  refine (expectKeyword_reads hs).of fun _ s1 h1 => ?_
  refine (className_reads h1.sound).of fun name s2 h2 => ?_
  refine (classHeritage_reads hg h2.sound).of fun value s3 h3 => ?_
  refine (classBody_reads hg h3.sound).of fun elements s4 h4 => ?_
  obtain ⟨h4, hformed⟩ := h4
  refine ⟨?_, trivial, trivial, hformed⟩
  simpa using ((h1.before h2).trans h3).trans h4

end Rebind.Grammar
