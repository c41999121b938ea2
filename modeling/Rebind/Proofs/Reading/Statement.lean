import Rebind.Grammar.Statement
import Rebind.Proofs.Reading.Expression

/-!
# What statements read

The parts of the source that a statement keeps lie between the states before and after it, in the
order in which `Statement.parts` lists them, also those that re-emission leaves out outside
functions.
-/

namespace Rebind.Grammar

open Rebind.Text (Span)
open Rebind.Snippet
open Rebind.Grammar.Parser

variable {g : Productions} {ctx : Context} {s : State}

/-! ## Import and export declarations -/

theorem stringLiteral_reads (hs : s.Sound) :
    stringLiteral.Ensures s fun _ s' => Reads s [] s' := by
  simp only [stringLiteral, ensures_bind, ensures_current, ensures_ite, ensures_unexpected]
  split
  case h_1 heq => exact of_check (advance_reads hs (by simp [heq]))
  case h_2 => simp only [Bool.false_eq_true, ↓reduceIte]

theorem importAttributes_reads (hs : s.Sound) :
    importAttributes.Ensures s fun _ s' => Reads s [] s' := by
  simp only [importAttributes, ensures_bind, ensures_current, ensures_ite, ensures_position,
    ensures_spanFrom, ensures_fail, ensures_pure]
  split
  · next hword =>
    have hne : s.lexeme.token ≠ .endOfInput := by
      intro hend
      simp [hend, isKeyword] at hword
    refine (advance_reads hs hne).of fun _ s1 h1 => ?_
    refine (expectMark_reads h1.sound).of fun _ s2 h2 => ?_
    refine (separated_moves ?item h2.sound).of fun r s3 h3 => of_check ?_
    case item =>
      intro s hs
      have hvalue (hne : s.lexeme.token ≠ .endOfInput) (text : String) :
          Ensures (advance >>= fun _ => expectMark ":" >>= fun _ => stringLiteral >>= fun _ =>
            pure text) s fun _ s' => Reads s [] s' := by
        simp only [ensures_bind, ensures_pure]
        refine (advance_reads hs hne).of fun _ s1 h1 => ?_
        refine (expectMark_reads h1.sound).of fun _ s2 h2 => ?_
        exact (stringLiteral_reads h2.sound).of fun _ s3 h3 => h3.after (h1.trans h2)
      simp only [ensures_bind, ensures_current]
      split
      case h_1 heq | h_2 heq => exact hvalue (by simp [heq]) _
      case h_3 => simp only [ensures_bind, ensures_unexpected]
    exact (expectMark_reads h3.sound).of fun _ s4 h4 =>
      (((h1.trans h2).trans h3).trans h4).sublist (List.nil_sublist _)
  · exact .refl hs

theorem moduleSource_reads (hs : s.Sound) :
    moduleSource.Ensures s fun _ s' => Reads s [] s' := by
  simp only [moduleSource, ensures_bind, ensures_ite, ensures_unexpected]
  refine (eatKeyword_reads hs).of fun isFrom s1 h1 => of_check ?_
  refine (stringLiteral_reads h1.sound).of fun _ s2 h2 => ?_
  exact (importAttributes_reads h2.sound).of fun _ s3 h3 => (h1.trans h2).trans h3

theorem exportName_reads (hs : s.Sound) :
    exportName.Ensures s fun _ s' => Reads s [] s' := by
  simp only [exportName, ensures_bind, ensures_current]
  split
  case h_1 heq =>
    simp only [ensures_bind, ensures_pure]
    exact advance_reads hs (by simp [heq])
  case h_2 heq =>
    simp only [ensures_bind, ensures_ite, ensures_fail, ensures_pure]
    exact of_check (advance_reads hs (by simp [heq]))
  case h_3 => exact ensures_unexpected.2 trivial

theorem name_moves (hs : s.Sound) :
    (name ctx).Ensures s fun _ s' => Reads s [] s' :=
  (name_reads hs).of fun _ _ h => h.1.sublist (List.nil_sublist _)

theorem namespaceImport_reads (hs : s.Sound) :
    (namespaceImport ctx).Ensures s fun _ s' => Reads s [] s' := by
  simp only [namespaceImport, ensures_bind, ensures_ite, ensures_unexpected, ensures_pure]
  refine (expectMark_reads hs).of fun _ s1 h1 => ?_
  refine (eatKeyword_reads h1.sound).of fun isAs s2 h2 => of_check ?_
  exact (name_moves h2.sound).of fun _ s3 h3 => h3.after (h1.trans h2)

theorem namedImports_reads (hs : s.Sound) :
    (namedImports ctx).Ensures s fun _ s' => Reads s [] s' := by
  simp only [namedImports, ensures_bind]
  refine (expectMark_reads hs).of fun _ s1 h1 => ?_
  refine (separated_moves ?item h1.sound).of fun r s2 h2 => ?_
  case item =>
    intro s hs
    simp only [ensures_bind, ensures_current, ensures_ite, ensures_fail, ensures_pure]
    refine (exportName_reads hs).of fun _ s1 h1 => ?_
    refine (eatKeyword_reads h1.sound).of fun isRenamed s2 h2 => ?_
    split
    · exact (name_moves h2.sound).of fun _ s3 h3 => (h1.trans h2).trans h3
    · split
      · trivial
      · exact h1.trans h2
  exact (expectMark_reads h2.sound).of fun _ s3 h3 =>
    ((h1.trans h2).trans h3).sublist (List.nil_sublist _)

theorem atSourcePhase_ensures :
    (atSourcePhase ctx).Ensures s fun isSource s' =>
      s' = s ∧ (isSource = true → isKeyword s.lexeme.token "source" = true) := by
  simp only [atSourcePhase, ensures_bind, ensures_atKeyword, ensures_peek, ensures_liftM,
    ensures_ite, ensures_pure]
  split
  · next hword => simp [hword]
  · simp

theorem defaultImport_reads (hs : s.Sound) :
    (defaultImport ctx).Ensures s fun _ s' => Reads s [] s' := by
  simp only [defaultImport, ensures_bind, ensures_atMark, ensures_ite, ensures_pure]
  refine atSourcePhase_ensures.of fun isSource s1 h1 => ?_
  obtain ⟨rfl, hword⟩ := h1
  split
  · next hsource =>
    refine (advance_keyword hs (hword hsource)).of fun _ s2 h2 => ?_
    exact (name_moves h2.sound).of fun _ s3 h3 => h2.trans h3
  · refine (name_moves hs).of fun _ s2 h2 => ?_
    refine (eatMark_reads h2.sound).of fun hasMore s3 h3 => ?_
    have h23 := h2.trans h3
    split
    · split
      · exact (namespaceImport_reads h23.sound).of fun _ s4 h4 => h23.trans h4
      · exact (namedImports_reads h23.sound).of fun _ s4 h4 => h23.trans h4
    · exact h23

theorem importClause_reads (hs : s.Sound) :
    (importClause ctx).Ensures s fun _ s' => Reads s [] s' := by
  simp only [importClause, ensures_bind, ensures_atMark, ensures_atKeyword, ensures_peek,
    ensures_ite]
  split
  · exact namespaceImport_reads hs
  split
  · exact namedImports_reads hs
  split
  · next hword =>
    intro l _
    split
    · refine (advance_keyword hs hword).of fun _ s1 h1 => ?_
      exact (namespaceImport_reads h1.sound).of fun _ s2 h2 => h1.trans h2
    · exact defaultImport_reads hs
  · exact defaultImport_reads hs

theorem importDeclaration_reads (hs : s.Sound) :
    (importDeclaration ctx).Ensures s fun st s' => ReadsStatement s st s' := by
  simp only [importDeclaration, ensures_bind, ensures_position, ensures_current, ensures_ite,
    ensures_pure]
  refine (expectKeyword_reads hs).of fun _ s1 h1 => ?_
  have hend {s2 : State} (h2 : Reads s1 [] s2) : endStatement.Ensures s2 fun _ s3 =>
      ReadsStatement s (.moduleItem s.lexeme.start) s3 :=
    (endStatement_reads h2.sound).of fun _ s3 h3 => ⟨(h2.trans h3).after h1, trivial⟩
  have hsource (isBare : Bool) : if isBare
      then stringLiteral.Ensures s1 fun _ s2 => importAttributes.Ensures s2 fun _ s3 =>
        endStatement.Ensures s3 fun _ s4 => ReadsStatement s (.moduleItem s.lexeme.start) s4
      else (importClause ctx).Ensures s1 fun _ s2 => moduleSource.Ensures s2 fun _ s3 =>
        endStatement.Ensures s3 fun _ s4 => ReadsStatement s (.moduleItem s.lexeme.start) s4 := by
    split
    · refine (stringLiteral_reads h1.sound).of fun _ s2 h2 => ?_
      exact (importAttributes_reads h2.sound).of fun _ s3 h3 => hend (h2.trans h3)
    · refine (importClause_reads h1.sound).of fun _ s2 h2 => ?_
      exact (moduleSource_reads h2.sound).of fun _ s3 h3 => hend (h2.trans h3)
  exact hsource _

theorem namedExports_reads (hs : s.Sound) :
    namedExports.Ensures s fun _ s' => Reads s [] s' := by
  simp only [namedExports, ensures_bind, ensures_position, ensures_spanFrom, ensures_atKeyword,
    ensures_ite, ensures_pure]
  refine (expectMark_reads hs).of fun _ s1 h1 => ?_
  refine (separated_moves ?item h1.sound).of fun r s2 h2 => ?_
  case item =>
    intro s hs
    simp only [ensures_bind, ensures_current, ensures_ite, ensures_pure]
    refine (exportName_reads hs).of fun _ s1 h1 => ?_
    refine (eatKeyword_reads h1.sound).of fun isRenamed s2 h2 => ?_
    split
    · exact (exportName_reads h2.sound).of fun _ s3 h3 => (h1.trans h2).trans h3
    · exact h1.trans h2
  refine (addExports_reads h2.sound).of fun _ s3 h3 => ?_
  refine (expectMark_reads h3.sound).of fun _ s4 h4 => ?_
  have h14 : Reads s [] s4 := (((h1.trans h2).trans h3).trans h4).sublist (List.nil_sublist _)
  split
  · exact (moduleSource_reads h14.sound).of fun _ s5 h5 => h14.trans h5
  · refine ensures_forIn (Reads s []) h14 fun item s5 h5 => ?_
    simp only [ensures_ite, ensures_bind, ensures_fail, ensures_pure]
    exact of_check h5

theorem decoratedClass_reads (hg : g.Sound) (hs : s.Sound) :
    (decoratedClass g ctx).Ensures s fun _ s' => Reads s [] s' := by
  simp only [decoratedClass, ensures_bind, ensures_position, ensures_atKeyword, ensures_ite,
    ensures_unexpected, ensures_pure]
  refine (decorators_reads hg hs).of fun ds s1 h1 => of_check ?_
  refine (classDefinition_reads hg h1.sound).of fun d s2 h2 => ?_
  obtain ⟨h2, -⟩ := h2
  exact (h1.trans h2).sublist (List.nil_sublist _)

theorem atFunction_ensures : atFunction.Ensures s fun _ s' => s' = s := by
  simp only [atFunction, ensures_bind, ensures_atKeyword, ensures_peek, ensures_ite, ensures_pure,
    implies_true, ite_self]

theorem exportedFunction_reads (hg : g.Sound) {naming : Naming} (hs : s.Sound) :
    (exportedFunction g ctx naming).Ensures s fun _ s' => Reads s [] s' := by
  simp only [exportedFunction, ensures_bind, ensures_pure]
  refine (eatKeyword_reads hs).of fun isAsync s1 h1 => ?_
  refine (function_reads hg h1.sound).of fun c s2 h2 => ?_
  obtain ⟨h2, -⟩ := h2
  exact (h1.trans h2).sublist (List.nil_sublist _)

theorem eatVariableKeyword_reads (hs : s.Sound) :
    eatVariableKeyword.Ensures s fun _ s' => Reads s [] s' := by
  simp only [eatVariableKeyword, ensures_bind, ensures_ite, ensures_pure]
  refine (eatKeyword_reads hs).of fun isVar s1 h1 => ?_
  split
  · exact h1
  refine (eatKeyword_reads h1.sound).of fun isLet s2 h2 => ?_
  split
  · exact h1.trans h2
  refine (eatKeyword_reads h2.sound).of fun isConst s3 h3 => ?_
  split <;> exact (h1.trans h2).trans h3

theorem defaultValue_reads (hg : g.Sound) (hs : s.Sound) :
    (defaultValue g ctx).Ensures s fun _ s' => Reads s [] s' := by
  simp only [defaultValue, ensures_bind, ensures_atMark, ensures_atKeyword, ensures_ite,
    ensures_value, ensures_pure]
  split
  · exact decoratedClass_reads hg hs
  refine atFunction_ensures.of fun isFunction s1 h1 => ?_
  rw [h1]
  split
  · exact exportedFunction_reads hg hs
  · refine (hg.assignment _ hs).of fun value s2 h2 _ => ?_
    exact (endStatement_reads h2.sound).of fun _ s3 h3 => h3.after h2.toReads

theorem exportedVariables_reads (hg : g.Sound) (hs : s.Sound) :
    (exportedVariables g ctx).Ensures s fun _ s' => Reads s [] s' := by
  simp only [exportedVariables, ensures_bind]
  refine (eatVariableKeyword_reads hs).of fun kind s1 h1 => ?_
  split
  · simp only [ensures_bind, ensures_pure]
    refine (declaration_reads hg h1.sound).of fun d s2 h2 => ?_
    exact (endStatement_reads h2.sound).of fun _ s3 h3 => h3.after (h1.trans h2)
  · exact ensures_unexpected.2 trivial

theorem exportedNames_reads (hg : g.Sound) (hs : s.Sound) :
    (exportedNames g ctx).Ensures s fun _ s' => Reads s [] s' := by
  simp only [exportedNames, ensures_bind, ensures_atMark, ensures_atKeyword, ensures_ite,
    ensures_pure]
  split
  · exact decoratedClass_reads hg hs
  refine atFunction_ensures.of fun isFunction s1 h1 => ?_
  rw [h1]
  split
  · exact exportedFunction_reads hg hs
  · exact exportedVariables_reads hg hs

theorem exportDeclaration_reads (hg : g.Sound) {isDecorated : Bool} (hs : s.Sound) :
    (exportDeclaration g ctx isDecorated).Ensures s fun st s' => ReadsStatement s st s' := by
  simp only [exportDeclaration, ensures_bind, ensures_position, ensures_spanFrom, ensures_ite,
    ensures_atKeyword, ensures_atMark, ensures_unexpected, ensures_pure]
  refine (expectKeyword_reads hs).of fun _ s1 h1 => ?_
  refine (eatKeyword_reads h1.sound).of fun isDefault s2 h2 => ?_
  have hdone {s3 : State} (h3 : Reads s2 [] s3) :
      ReadsStatement s (.moduleItem s.lexeme.start) s3 :=
    ⟨h3.after (h1.trans h2), trivial⟩
  have hexports {s3 : State} (h3 : Reads s2 [] s3) {names : List String} {span : Span} :
      (addExports names span).Ensures s3 fun _ s4 =>
        ReadsStatement s (.moduleItem s.lexeme.start) s4 :=
    (addExports_reads h3.sound).of fun _ s4 h4 => hdone (h3.trans h4)
  have hend {s3 : State} (h3 : Reads s2 [] s3) : endStatement.Ensures s3 fun _ s4 =>
      ReadsStatement s (.moduleItem s.lexeme.start) s4 :=
    (endStatement_reads h3.sound).of fun _ s4 h4 => hdone (h3.trans h4)
  have hsource {s3 : State} (h3 : Reads s2 [] s3) : moduleSource.Ensures s3 fun _ s4 =>
      endStatement.Ensures s4 fun _ s5 => ReadsStatement s (.moduleItem s.lexeme.start) s5 :=
    (moduleSource_reads h3.sound).of fun _ s4 h4 => hend (h3.trans h4)
  have hnames {s3 : State} (h3 : Reads s2 [] s3) :
      (exportedNames g ctx).Ensures s3 fun names s4 =>
        (addExports names ⟨s.lexeme.start, s4.lastStop⟩).Ensures s4 fun _ s5 =>
          ReadsStatement s (.moduleItem s.lexeme.start) s5 :=
    (exportedNames_reads hg h3.sound).of fun names s4 h4 => hexports (h3.trans h4)
  split
  · have hvalue : (defaultValue g ctx).Ensures s2 fun _ s3 =>
        (addExports ["default"] ⟨s.lexeme.start, s3.lastStop⟩).Ensures s3 fun _ s4 =>
          ReadsStatement s (.moduleItem s.lexeme.start) s4 :=
      (defaultValue_reads hg h2.sound).of fun _ s3 h3 => hexports h3
    split
    · exact of_check hvalue
    · exact hvalue
  split
  · exact of_check (hnames (.refl h2.sound))
  refine (eatMark_reads h2.sound).of fun isStar s3 h3 => ?_
  split
  · refine (eatKeyword_reads h3.sound).of fun isAs s4 h4 => ?_
    have h34 := h3.trans h4
    split
    · refine (exportName_reads h34.sound).of fun name s5 h5 => ?_
      refine (addExports_reads h5.sound).of fun _ s6 h6 => ?_
      exact hsource ((h34.trans h5).trans h6)
    · exact hsource h34
  split
  · refine (namedExports_reads h3.sound).of fun _ s4 h4 => ?_
    exact hend (h3.trans h4)
  · exact hnames h3

/-! ## Statements -/

theorem expression_reads (hg : g.Sound) (hs : s.Sound) :
    (expression g ctx).Ensures s fun e s' => Reads s [.expression e] s' :=
  copied_reads (sequence_reads hg hs)

theorem optionalExpression_reads (hg : g.Sound) {isAbsent : Bool} (hs : s.Sound) :
    (optionalExpression g ctx isAbsent).Ensures s fun value s' =>
      Reads s (valueParts value) s' := by
  simp only [optionalExpression, ensures_bind, ensures_ite, ensures_pure]
  split
  · exact .refl hs
  · exact expression_reads hg hs

theorem head_reads (hg : g.Sound) (hs : s.Sound) :
    (head g ctx).Ensures s fun e s' => Reads s [.expression e] s' := by
  simp only [head, ensures_bind, ensures_pure]
  refine (expectMark_reads hs).of fun _ s1 h1 => ?_
  refine (expression_reads hg h1.sound).of fun e s2 h2 => ?_
  exact (expectMark_reads h2.sound).of fun _ s3 h3 => (h2.after h1).before h3

theorem requireListed_ensures {placement : Placement} {start : Nat} :
    (requireListed placement start).Ensures s fun _ s' => s' = s := by
  simp only [requireListed, ensures_bind, ensures_ite, ensures_spanFrom, ensures_fail,
    ensures_pure]
  split <;> trivial

theorem variableStatement_reads (hg : g.Sound) {kind : DeclarationKind} {start : Nat}
    (hs : s.Sound) :
    (variableStatement g ctx kind start).Ensures s fun st s' => ReadsStatement s st s' := by
  simp only [variableStatement, ensures_bind, ensures_pure]
  refine (declaration_reads hg hs).of fun d s1 h1 => ?_
  exact (endStatement_reads h1.sound).of fun _ s2 h2 => ⟨h1.before h2, trivial⟩

theorem listedVariables_reads (hg : g.Sound) {placement : Placement} {kind : DeclarationKind}
    {start : Nat} (hs : s.Sound) :
    (listedVariables g ctx placement kind start).Ensures s fun st s' => ReadsStatement s st s' := by
  simp only [listedVariables, ensures_bind, ensures_pure]
  refine (variableStatement_reads hg hs).of fun st s1 h1 => ?_
  exact requireListed_ensures.of fun _ s2 h2 => by rwa [h2]

theorem functionDeclaration_reads (hg : g.Sound) {placement : Placement} (hs : s.Sound) :
    (functionDeclaration g ctx placement).Ensures s fun st s' => ReadsStatement s st s' := by
  simp only [functionDeclaration, ensures_bind, ensures_position, ensures_ite, ensures_pure]
  refine (eatKeyword_reads hs).of fun isAsync s1 h1 => ?_
  refine (function_reads hg h1.sound).of fun c s2 h2 => ?_
  obtain ⟨h2, hformed, hname⟩ := h2
  have hread : ReadsStatement s (.function s.lexeme.start c) s2 :=
    ⟨(h2.after h1).sublist (List.sublist_cons_self _ _), hname rfl, hformed⟩
  split
  · exact requireListed_ensures.of fun _ s3 h3 => by rwa [h3]
  · exact hread

/-- A class whose decorators are read already. -/
theorem classDeclaration_reads (hg : g.Sound) {placement : Placement} {start : Nat}
    {ds : List Expression} {s1 : State} (h1 : Reads s (ds.map .expression) s1) :
    (classDeclaration g ctx placement start ds).Ensures s1 fun st s' => ReadsStatement s st s' := by
  simp only [classDeclaration, ensures_bind, ensures_pure]
  refine (classDefinition_reads hg h1.sound).of fun d s2 h2 => ?_
  obtain ⟨h2, hstart, hds, hformed⟩ := h2
  refine requireListed_ensures.of fun _ s3 h3 => ?_
  rw [h3]
  obtain ⟨_, _, name, heritage, elements⟩ := d
  subst hstart hds
  refine ⟨?_, rfl, hformed⟩
  have hread := (h1.trans h2).sublist
    (List.Sublist.append_left (List.sublist_cons_self (Part.verbatim s1.here) _) _)
  simpa [Statement.parts, classParts] using hread

theorem decoratedStatement_reads (hg : g.Sound) {placement : Placement} (hs : s.Sound) :
    (decoratedStatement g ctx placement).Ensures s fun st s' => ReadsStatement s st s' := by
  simp only [decoratedStatement, ensures_bind, ensures_position, ensures_atKeyword, ensures_ite,
    ensures_unexpected]
  refine (decorators_reads hg hs).of fun ds s1 h1 => ?_
  split
  · refine (exportDeclaration_reads hg h1.sound).of fun st s2 h2 => ?_
    exact ⟨h2.toReads.after h1, h2.formed⟩
  · exact of_check (classDeclaration_reads hg h1)

theorem readsStatement_label {st : Statement} {start : Nat} {label : String} {s' : State}
    (h : ReadsStatement s st s') : ReadsStatement s (.label start label st) s' := by
  cases st <;> exact ⟨h.toReads, h.formed⟩

/-- An expression that is a statement. -/
theorem readsStatement_expression {e : Expression} {start : Nat} {s' : State}
    (h : Reads s [.expression e] s') : ReadsStatement s (.expression start e) s' :=
  ⟨h, trivial⟩

theorem expressionOrLabel_reads (hg : g.Sound) (hs : s.Sound) :
    (expressionOrLabel g ctx).Ensures s fun st s' => ReadsStatement s st s' := by
  simp only [expressionOrLabel, ensures_bind, ensures_position, ensures_get]
  refine (sequence_reads hg hs).of fun t s1 h1 => ?_
  have hend {s2 : State} (h2 : Holds s t.span s2) : endStatement.Ensures s2 fun _ s3 =>
      ReadsStatement s (.expression s.lexeme.start
        ⟨t.span, (s2.hosts.take (s2.hosts.length - s.hosts.length)).reverse⟩) s3 := by
    have hread := hostsSince_of_holds h2
    exact (endStatement_reads hread.sound).of fun _ s3 h3 =>
      readsStatement_expression (hread.before h3)
  split
  · simp only [ensures_bind, ensures_ite, ensures_value, ensures_hostsSince, ensures_pure]
    refine ((eatMark_reads h1.sound).and eatMark_hosts).of fun isLabel s2 h2 => ?_
    obtain ⟨h2, hosts⟩ := h2
    split
    · refine (hg.statement _ _ h2.sound).of fun st s3 h3 => ?_
      exact readsStatement_label ⟨h3.toReads.after (h1.toReads.before h2), h3.formed⟩
    · exact fun _ => hend (h1.holds.within (.refl hs) rfl h2 hosts)
  · simp only [ensures_bind, ensures_value, ensures_hostsSince, ensures_pure]
    exact fun _ => hend h1.holds

theorem letStatement_reads (hg : g.Sound) {placement : Placement} (hs : s.Sound)
    (hne : s.lexeme.token ≠ .endOfInput) :
    (letStatement g ctx placement).Ensures s fun st s' => ReadsStatement s st s' := by
  simp only [letStatement, ensures_bind, ensures_current, ensures_peek, ensures_ite, ensures_pure]
  intro l _
  split
  · refine (copied_assignment_reads hg hs).of fun e s1 h1 => ?_
    exact (endStatement_reads h1.sound).of fun _ s2 h2 => readsStatement_expression (h1.before h2)
  split
  · exact (expression_reads hg hs).of fun e s1 h1 => readsStatement_expression h1
  split
  · refine (advance_here hs hne).of fun _ s1 h1 => ?_
    refine (endStatement_reads h1.sound).of fun _ s2 h2 => readsStatement_expression ?_
    exact (h1.before h2).expression ⟨trivial, trivial⟩ fun _ => trivial
  · refine (advance_reads hs hne).of fun _ s1 h1 => ?_
    exact (listedVariables_reads hg h1.sound).of fun st s2 h2 => ⟨h2.toReads.after h1, h2.formed⟩

/-! ## Resources -/

theorem nameFollows_ensures {l : Lexeme} :
    (nameFollows ctx l).Ensures s fun _ s' => s' = s := by
  simp only [nameFollows, ensures_bind, ensures_liftM, ensures_pure, implies_true]

/-- The keywords of a resource declaration come next. -/
structure ResourceFollows (s : State) (kind : DeclarationKind) : Prop where
  first : s.lexeme.token ≠ .endOfInput
  second : kind = .awaitedResource →
    ∃ l, Lexeme.scan s.lexeme.stop s.lexeme.rest = .ok l ∧ l.token ≠ .endOfInput

theorem resourceKind?_ensures : (resourceKind? ctx).Ensures s fun answer s' =>
    s' = s ∧ ∀ kind, answer = some kind → ResourceFollows s kind := by
  simp only [resourceKind?, ensures_bind, ensures_current, ensures_peek, ensures_ite, ensures_pure]
  split
  · next hword =>
    refine nameFollows_ensures.of fun follows s1 h1 => ⟨h1, fun kind hkind => ?_⟩
    split at hkind
    · cases hkind
      refine ⟨ne_endOfInput_of_isKeyword hword, fun hawaited => ?_⟩
      cases hawaited
    · cases hkind
  split
  · next hword =>
    intro l hl
    split
    · next husing =>
      have hnext := ne_endOfInput_of_isKeyword (Bool.and_eq_true_iff.1 husing).1
      refine nameFollows_ensures.of fun follows s1 h1 => ⟨h1, fun kind hkind => ?_⟩
      split at hkind
      · cases hkind
        exact ⟨ne_endOfInput_of_isKeyword hword, fun _ => ⟨l, hl, hnext⟩⟩
      · cases hkind
    · exact ⟨trivial, fun _ h => absurd h.symm (Option.some_ne_none _)⟩
  · exact ⟨trivial, fun _ h => absurd h.symm (Option.some_ne_none _)⟩

theorem skipResourceKeywords_reads {kind : DeclarationKind} (hs : s.Sound)
    (hkind : ResourceFollows s kind) :
    (skipResourceKeywords ctx kind).Ensures s fun _ s' => Reads s [] s' := by
  simp only [skipResourceKeywords, ensures_bind, ensures_ite, ensures_unexpected]
  split
  · next hawaited =>
    obtain ⟨l, hl, hnext⟩ := hkind.second (beq_iff_eq.1 hawaited)
    refine of_check (((advance_reads hs hkind.first).and (advance_peeked hl)).of fun _ s1 h1 => ?_)
    obtain ⟨h1, rfl⟩ := h1
    exact (advance_reads h1.sound hnext).of fun _ s2 h2 => h1.trans h2
  · exact advance_reads hs hkind.first

theorem resourceStatement_reads (hg : g.Sound) {placement : Placement} (hs : s.Sound) :
    (resourceStatement g ctx placement).Ensures s fun st s' => ReadsStatement s st s' := by
  simp only [resourceStatement, ensures_bind, ensures_position]
  refine resourceKind?_ensures.of fun answer s1 h1 => ?_
  obtain ⟨rfl, hfollows⟩ := h1
  cases answer with
  | none => exact expressionOrLabel_reads hg hs
  | some kind =>
    refine ensures_bind.2 ((skipResourceKeywords_reads hs (hfollows kind rfl)).of fun _ s2 h2 => ?_)
    exact (listedVariables_reads hg h2.sound).of fun st s3 h3 => ⟨h3.toReads.after h2, h3.formed⟩

/-! ## Loops -/

theorem checkLoopStart_reads {isAwait : Bool} {init : Option LoopStart} (hs : s.Sound) :
    (checkLoopStart isAwait init).Ensures s fun _ s' => Reads s [] s' := by
  simp only [checkLoopStart]
  split
  · simp only [ensures_bind, ensures_ite, ensures_unexpected, ensures_pure]
    refine (ensures_forM (Reads s []) (.refl hs) fun d s1 h1 => ?_).of fun _ s1 h1 => ?_
    · refine requireValue_ensures.of fun _ s2 h2 => ?_
      rwa [h2]
    · split
      · trivial
      · exact h1
  · simp only [ensures_ite, ensures_unexpected, ensures_pure]
    split
    · trivial
    · exact .refl hs

theorem forRest_reads (hg : g.Sound) {start : Nat} {isAwait : Bool} {init : Option LoopStart}
    {s1 : State} (h1 : Reads s (startParts init) s1) :
    (forRest g ctx start isAwait init).Ensures s1 fun st s' => ReadsStatement s st s' := by
  simp only [forRest, ensures_bind, ensures_atMark, ensures_pure]
  refine (checkLoopStart_reads h1.sound).of fun _ s2 h2 => ?_
  refine (expectMark_reads h2.sound).of fun _ s3 h3 => ?_
  have h13 := (h1.before h2).before h3
  refine (optionalExpression_reads hg h13.sound).of fun test s4 h4 => ?_
  refine (expectMark_reads h4.sound).of fun _ s5 h5 => ?_
  have h15 := (h13.trans h4).before h5
  refine (optionalExpression_reads hg h15.sound).of fun update s6 h6 => ?_
  refine (expectMark_reads h6.sound).of fun _ s7 h7 => ?_
  have h17 := (h15.trans h6).before h7
  refine (hg.statement _ _ h17.sound).of fun st s8 h8 => ⟨?_, h8.formed⟩
  simpa [Statement.parts] using h17.trans h8.toReads

theorem forEachRest_reads (hg : g.Sound) {start : Nat} {isAwait : Bool} {target : LoopTarget}
    {s1 : State} (h1 : Reads s (target.parts true) s1) :
    (forEachRest g ctx start isAwait target).Ensures s1 fun st s' => ReadsStatement s st s' := by
  have hbody {e : Expression} {s2 : State}
      (h2 : Reads s (target.parts true ++ [.expression e]) s2) :
      Ensures (expectMark ")") s2 fun _ s3 => (g.statement ctx .alone).Ensures s3 fun st s4 =>
        Reads s (target.parts true ++ .expression e :: st.parts true) s4 ∧
          st.Formed := by
    refine (expectMark_reads h2.sound).of fun _ s3 h3 => ?_
    refine (hg.statement _ _ h3.sound).of fun st s4 h4 => ⟨?_, h4.formed⟩
    simpa using (h2.before h3).trans h4.toReads
  simp only [forEachRest, ensures_bind, ensures_ite, ensures_unexpected, ensures_pure]
  refine (eatKeyword_reads h1.sound).of fun isOf s2 h2 => ?_
  have h12 := h1.before h2
  split
  · refine (copied_assignment_reads hg h2.sound).of fun e s3 h3 => ?_
    refine (hbody (h12.trans h3)).of fun _ s4 h4 => ?_
    exact h4.of fun st s5 h5 => ⟨h5.1, h5.2⟩
  split
  · trivial
  · refine (expectKeyword_reads h2.sound).of fun _ s3 h3 => ?_
    refine (expression_reads hg h3.sound).of fun e s4 h4 => ?_
    refine (hbody ((h12.before h3).trans h4)).of fun _ s5 h5 => ?_
    exact h5.of fun st s6 h6 => ⟨h6.1, h6.2⟩

theorem forDeclaration_reads (hg : g.Sound) {start : Nat} {isAwait : Bool}
    {kind : DeclarationKind} (hs : s.Sound) :
    (forDeclaration g ctx start isAwait kind).Ensures s fun st s' => ReadsStatement s st s' := by
  simp only [forDeclaration, atForEach, ensures_bind, ensures_atKeyword, ensures_ite,
    ensures_unexpected, ensures_pure]
  refine (declaration_reads hg hs).of fun d s1 h1 => ?_
  split
  · split
    · trivial
    · refine forEachRest_reads hg ?_
      rw [LoopTarget.parts, if_neg (by simp)]
      exact h1
  · exact forRest_reads hg h1

theorem isAmbiguousBeforeOf_ensures {isAwait : Bool} :
    (isAmbiguousBeforeOf isAwait).Ensures s fun _ s' => s' = s := by
  simp only [isAmbiguousBeforeOf, ensures_bind, ensures_atKeyword, ensures_peek, ensures_ite,
    ensures_pure, implies_true, ite_self]

theorem forExpression_reads (hg : g.Sound) {start : Nat} {isAwait : Bool} (hs : s.Sound) :
    (forExpression g ctx start isAwait).Ensures s fun st s' => ReadsStatement s st s' := by
  simp only [forExpression, atForEach, ensures_bind, ensures_current, ensures_atKeyword,
    ensures_ite, ensures_get, ensures_fail, ensures_value, ensures_hostsSince, ensures_pure]
  refine isAmbiguousBeforeOf_ensures.of fun isAmbiguous s1 h1 => ?_
  rw [h1]
  refine (sequence_reads hg hs).of fun t s2 h2 => ?_
  split
  · split
    · trivial
    split
    · simp only [ensures_bind, ensures_fail]
    · next hobstacle =>
      have hplace : t.targetObstacle = none := Option.eq_none_iff_forall_not_mem.2 hobstacle
      simp only [ensures_bind, ensures_hostsSince]
      exact forEachRest_reads hg (hostsSince_of_holds (h2.placed hplace))
  · exact fun _ => forRest_reads hg (hostsSince_of_holds h2.holds)

theorem loopResourceKind?_ensures : (loopResourceKind? ctx).Ensures s fun answer s' =>
    s' = s ∧ ∀ kind, answer = some kind → ResourceFollows s kind := by
  simp only [loopResourceKind?, ensures_bind, ensures_atKeyword, ensures_peek, ensures_ite,
    ensures_pure]
  split
  · intro l _
    split
    · exact ⟨trivial, fun _ h => absurd h.symm (Option.some_ne_none _)⟩
    · exact resourceKind?_ensures
  · exact resourceKind?_ensures

theorem eatLoopResource_reads (hs : s.Sound) :
    (eatLoopResource ctx).Ensures s fun _ s' => Reads s [] s' := by
  simp only [eatLoopResource, ensures_bind]
  refine loopResourceKind?_ensures.of fun answer s1 h1 => ?_
  obtain ⟨rfl, hfollows⟩ := h1
  cases answer with
  | none => exact ensures_pure.2 (.refl hs)
  | some kind =>
    simp only [ensures_bind, ensures_pure]
    exact skipResourceKeywords_reads hs (hfollows kind rfl)

theorem eatLoopKeywords_reads (hs : s.Sound) :
    (eatLoopKeywords ctx).Ensures s fun _ s' => Reads s [] s' := by
  simp only [eatLoopKeywords, ensures_bind, ensures_atKeyword, ensures_peek, ensures_ite,
    ensures_pure]
  refine (eatKeyword_reads hs).of fun isVar s1 h1 => ?_
  split
  · exact h1
  refine (eatKeyword_reads h1.sound).of fun isConst s2 h2 => ?_
  have h12 := h1.trans h2
  have hresource : (eatLoopResource ctx).Ensures s2 fun _ s' => Reads s [] s' :=
    (eatLoopResource_reads h12.sound).of fun _ s3 h3 => h12.trans h3
  split
  · exact h12
  split
  · next hword =>
    intro l _
    split
    · exact (advance_keyword h12.sound hword).of fun _ s3 h3 => h12.trans h3
    · exact hresource
  · exact hresource

theorem eatAwait_reads (hs : s.Sound) : (eatAwait ctx).Ensures s fun _ s' => Reads s [] s' := by
  simp only [eatAwait, ensures_bind, ensures_atKeyword, ensures_ite, ensures_unexpected,
    ensures_pure]
  split
  · next hword => exact of_check (advance_keyword hs hword)
  · exact .refl hs

theorem forStatement_reads (hg : g.Sound) (hs : s.Sound) (hne : s.lexeme.token ≠ .endOfInput) :
    (forStatement g ctx).Ensures s fun st s' => ReadsStatement s st s' := by
  simp only [forStatement, ensures_bind, ensures_position, ensures_atMark, ensures_ite]
  refine (advance_reads hs hne).of fun _ s1 h1 => ?_
  refine (eatAwait_reads h1.sound).of fun isAwait s2 h2 => ?_
  refine (expectMark_reads h2.sound).of fun _ s3 h3 => ?_
  have h13 : Reads s [] s3 := (h1.trans h2).before h3
  split
  · exact forRest_reads hg h13
  refine (eatLoopKeywords_reads h13.sound).of fun kind s4 h4 => ?_
  have h14 := h13.trans h4
  split
  · exact (forDeclaration_reads hg h14.sound).of fun st s5 h5 => ⟨h5.toReads.after h14, h5.formed⟩
  · exact (forExpression_reads hg h14.sound).of fun st s5 h5 => ⟨h5.toReads.after h14, h5.formed⟩

theorem whileStatement_reads (hg : g.Sound) (hs : s.Sound) (hne : s.lexeme.token ≠ .endOfInput) :
    (whileStatement g ctx).Ensures s fun st s' => ReadsStatement s st s' := by
  simp only [whileStatement, ensures_bind, ensures_position, ensures_pure]
  refine (advance_reads hs hne).of fun _ s1 h1 => ?_
  refine (head_reads hg h1.sound).of fun e s2 h2 => ?_
  exact (hg.statement _ _ h2.sound).of fun st s3 h3 =>
    ⟨(h2.after h1).trans h3.toReads, h3.formed⟩

theorem withStatement_reads (hg : g.Sound) (hs : s.Sound) (hne : s.lexeme.token ≠ .endOfInput) :
    (withStatement g ctx).Ensures s fun st s' => ReadsStatement s st s' := by
  simp only [withStatement, ensures_bind, ensures_position, ensures_pure]
  refine (advance_reads hs hne).of fun _ s1 h1 => ?_
  refine (head_reads hg h1.sound).of fun e s2 h2 => ?_
  exact (hg.statement _ _ h2.sound).of fun st s3 h3 =>
    ⟨(h2.after h1).trans h3.toReads, h3.formed⟩

theorem doStatement_reads (hg : g.Sound) (hs : s.Sound) (hne : s.lexeme.token ≠ .endOfInput) :
    (doStatement g ctx).Ensures s fun st s' => ReadsStatement s st s' := by
  simp only [doStatement, ensures_bind, ensures_position, ensures_pure]
  refine (advance_reads hs hne).of fun _ s1 h1 => ?_
  refine (hg.statement _ _ h1.sound).of fun st s2 h2 => ?_
  refine (expectKeyword_reads h2.sound).of fun _ s3 h3 => ?_
  refine (head_reads hg h3.sound).of fun e s4 h4 => ?_
  refine (eatMark_reads h4.sound).of fun _ s5 h5 => ⟨?_, h2.formed⟩
  simpa [Statement.parts, Part.span] using
    ((h2.toReads.after h1).trans (h4.after h3)).before h5

/-! ## Choices and jumps -/

theorem elseBranch_reads (hg : g.Sound) (hs : s.Sound) :
    (elseBranch g ctx).Ensures s fun alternate s' =>
      Reads s (alternateParts true alternate) s' ∧ AlternateFormed alternate := by
  simp only [elseBranch, ensures_bind, ensures_ite, ensures_pure]
  refine (eatKeyword_reads hs).of fun isElse s1 h1 => ?_
  split
  · exact (hg.statement _ _ h1.sound).of fun st s2 h2 => ⟨h2.toReads.after h1, h2.formed⟩
  · exact ⟨h1, trivial⟩

theorem ifStatement_reads (hg : g.Sound) (hs : s.Sound) (hne : s.lexeme.token ≠ .endOfInput) :
    (ifStatement g ctx).Ensures s fun st s' => ReadsStatement s st s' := by
  simp only [ifStatement, ensures_bind, ensures_position, ensures_pure]
  refine (advance_reads hs hne).of fun _ s1 h1 => ?_
  refine (head_reads hg h1.sound).of fun e s2 h2 => ?_
  refine (hg.statement _ _ h2.sound).of fun consequent s3 h3 => ?_
  refine (elseBranch_reads hg h3.sound).of fun alternate s4 h4 => ?_
  obtain ⟨h4, hformed⟩ := h4
  refine ⟨?_, h3.formed, hformed⟩
  simpa [Statement.parts, Part.span] using ((h2.after h1).trans h3.toReads).trans h4

theorem caseTest_reads (hg : g.Sound) (hs : s.Sound) :
    (caseTest g ctx).Ensures s fun test s' => Reads s (valueParts test) s' := by
  simp only [caseTest, ensures_bind, ensures_ite, ensures_unexpected, ensures_pure]
  refine (eatKeyword_reads hs).of fun isDefault s1 h1 => ?_
  split
  · exact h1
  refine (eatKeyword_reads h1.sound).of fun isCase s2 h2 => of_check ?_
  exact (expression_reads hg h2.sound).of fun e s3 h3 => h3.after (h1.trans h2)

theorem refuseResource_ensures {start : Nat} {st : Statement} :
    (refuseResource start st).Ensures s fun _ s' => s' = s := by
  simp only [refuseResource]
  split
  · simp only [ensures_bind, ensures_ite, ensures_spanFrom, ensures_fail, ensures_pure]
    split <;> trivial
  · exact ensures_pure.2 rfl

theorem caseBody_reads (hg : g.Sound) (hs : s.Sound) :
    (caseBody g ctx).Ensures s fun body s' =>
      Reads s (listParts true body) s' ∧ ListFormed body := by
  simp only [listParts_eq, listFormed_iff]
  refine ensures_repeatFrom
    (fun (body : List Statement) s' =>
      Reads s (body.reverse.flatMap (Statement.parts true)) s' ∧
        ∀ st ∈ body, st.Formed)
    ⟨.refl hs, by simp⟩ fun body s1 h1 => ?_
  obtain ⟨h1, hformed⟩ := h1
  simp only [ensures_bind, ensures_atKeyword, ensures_atMark, ensures_atEnd, ensures_position,
    ensures_ite, ensures_pure, Sum.elim_inl, Sum.elim_inr]
  split
  · exact ⟨h1, fun st hst => hformed st (List.mem_reverse.1 hst)⟩
  · refine (hg.statement ctx .listed h1.sound).of fun st s2 h2 => ?_
    refine refuseResource_ensures.of fun _ s3 h3 => ?_
    rw [h3]
    refine ⟨?_, List.forall_mem_cons.2 ⟨h2.formed, hformed⟩⟩
    simpa using h1.trans h2.toReads

theorem switchCase_reads (hg : g.Sound) (hs : s.Sound) :
    (switchCase g ctx).Ensures s fun c s' =>
      Reads s (valueParts c.test ++ listParts true c.body) s' ∧
        ListFormed c.body := by
  simp only [switchCase, ensures_bind, ensures_pure]
  refine (caseTest_reads hg hs).of fun test s1 h1 => ?_
  refine (expectMark_reads h1.sound).of fun _ s2 h2 => ?_
  refine (caseBody_reads hg h2.sound).of fun body s3 h3 => ?_
  obtain ⟨h3, hformed⟩ := h3
  refine ⟨?_, hformed⟩
  simpa using (h1.before h2).trans h3

theorem switchStatement_reads (hg : g.Sound) (hs : s.Sound) (hne : s.lexeme.token ≠ .endOfInput) :
    (switchStatement g ctx).Ensures s fun st s' => ReadsStatement s st s' := by
  simp only [switchStatement, ensures_bind, ensures_position, ensures_pure]
  refine (advance_reads hs hne).of fun _ s1 h1 => ?_
  refine (head_reads hg h1.sound).of fun e s2 h2 => ?_
  refine (expectMark_reads h2.sound).of fun _ s3 h3 => ?_
  have h13 := (h2.after h1).before h3
  refine ensures_repeatFrom
    (fun (clauses : List Case) s' =>
      Reads s3 (clauses.reverse.flatMap fun c =>
        valueParts c.test ++ listParts true c.body) s' ∧
        ∀ c ∈ clauses, ListFormed c.body)
    ⟨.refl h3.sound, by simp⟩ fun clauses s4 h4 => ?_
  obtain ⟨h4, hformed⟩ := h4
  simp only [ensures_bind, ensures_atMark, ensures_atEnd, ensures_ite, ensures_pure,
    Sum.elim_inl, Sum.elim_inr]
  split
  · refine (expectMark_reads h4.sound).of fun _ s5 h5 => ⟨?_, ?_⟩
    · rw [Statement.parts, clauseParts_eq]
      exact (h13.trans h4).before h5
    · exact clausesFormed_iff.2 fun c hc => hformed c (List.mem_reverse.1 hc)
  · refine (switchCase_reads hg h4.sound).of fun c s5 h5 => ?_
    obtain ⟨h5, hc⟩ := h5
    refine ⟨?_, List.forall_mem_cons.2 ⟨hc, hformed⟩⟩
    simpa using h4.trans h5

theorem catchParameter_reads (hg : g.Sound) (hs : s.Sound) :
    (catchParameter g ctx).Ensures s fun p s' => Reads s (restParts p) s' := by
  simp only [catchParameter, ensures_bind, ensures_ite, ensures_pure]
  refine (eatMark_reads hs).of fun hasParameter s1 h1 => ?_
  split
  · refine (hg.pattern _ h1.sound).of fun p s2 h2 => ?_
    exact (expectMark_reads h2.sound).of fun _ s3 h3 => (h2.toReads.after h1).before h3
  · exact h1

theorem catchClause_reads (hg : g.Sound) (hs : s.Sound) :
    (catchClause g ctx).Ensures s fun h s' =>
      Reads s (handlerParts true h) s' ∧ HandlerFormed h := by
  simp only [catchClause, ensures_bind, ensures_ite, ensures_pure]
  refine (eatKeyword_reads hs).of fun isCatch s1 h1 => ?_
  split
  · refine (catchParameter_reads hg h1.sound).of fun p s2 h2 => ?_
    refine (bracedStatements_reads hg h2.sound).of fun body s3 h3 => ?_
    obtain ⟨h3, hformed⟩ := h3
    refine ⟨?_, hformed⟩
    simpa [handlerParts] using (h2.after h1).trans h3
  · exact ⟨h1, trivial⟩

theorem finallyClause_reads (hg : g.Sound) (hs : s.Sound) :
    (finallyClause g ctx).Ensures s fun body s' =>
      Reads s (finalizerParts true body) s' ∧ FinalizerFormed body := by
  simp only [finallyClause, ensures_bind, ensures_ite, ensures_pure]
  refine (eatKeyword_reads hs).of fun isFinally s1 h1 => ?_
  split
  · exact (bracedStatements_reads hg h1.sound).of fun body s2 h2 => ⟨h2.1.after h1, h2.2⟩
  · exact ⟨h1, trivial⟩

theorem tryStatement_reads (hg : g.Sound) (hs : s.Sound) (hne : s.lexeme.token ≠ .endOfInput) :
    (tryStatement g ctx).Ensures s fun st s' => ReadsStatement s st s' := by
  simp only [tryStatement, ensures_bind, ensures_position, ensures_ite, ensures_spanFrom,
    ensures_fail, ensures_pure]
  refine (advance_reads hs hne).of fun _ s1 h1 => ?_
  refine (bracedStatements_reads hg h1.sound).of fun body s2 h2 => ?_
  obtain ⟨h2, hbody⟩ := h2
  refine (catchClause_reads hg h2.sound).of fun handler s3 h3 => ?_
  obtain ⟨h3, hhandler⟩ := h3
  refine (finallyClause_reads hg h3.sound).of fun finalizer s4 h4 => ?_
  obtain ⟨h4, hfinalizer⟩ := h4
  split
  · trivial
  · refine ⟨?_, hbody, hhandler, hfinalizer⟩
    simpa [Statement.parts] using ((h2.after h1).trans h3).trans h4

theorem returnStatement_reads (hg : g.Sound) (hs : s.Sound) (hne : s.lexeme.token ≠ .endOfInput) :
    (returnStatement g ctx).Ensures s fun st s' => ReadsStatement s st s' := by
  simp only [returnStatement, atImplicitEnd, ensures_bind, ensures_position, ensures_current,
    ensures_ite, ensures_unexpected, ensures_pure]
  refine of_check ((advance_reads hs hne).of fun _ s1 h1 => ?_)
  refine (optionalExpression_reads hg h1.sound).of fun value s2 h2 => ?_
  exact (endStatement_reads h2.sound).of fun _ s3 h3 => ⟨(h2.after h1).before h3, trivial⟩

theorem throwStatement_reads (hg : g.Sound) (hs : s.Sound) (hne : s.lexeme.token ≠ .endOfInput) :
    (throwStatement g ctx).Ensures s fun st s' => ReadsStatement s st s' := by
  simp only [throwStatement, ensures_bind, ensures_position, ensures_current, ensures_ite,
    ensures_unexpected, ensures_pure]
  refine (advance_reads hs hne).of fun _ s1 h1 => ?_
  split
  · trivial
  · refine (expression_reads hg h1.sound).of fun e s2 h2 => ?_
    exact (endStatement_reads h2.sound).of fun _ s3 h3 => ⟨(h2.after h1).before h3, trivial⟩

theorem jumpStatement_reads {kind : Jump} (hs : s.Sound) (hne : s.lexeme.token ≠ .endOfInput) :
    (jumpStatement ctx kind).Ensures s fun st s' => ReadsStatement s st s' := by
  simp only [jumpStatement, jumpLabel, atImplicitEnd, ensures_bind, ensures_position,
    ensures_current, ensures_ite, ensures_pure]
  refine (advance_reads hs hne).of fun _ s1 h1 => ?_
  have hend {s2 : State} (h2 : Reads s1 [] s2) {label : Option String} :
      endStatement.Ensures s2 fun _ s3 => ReadsStatement s (.jump s.lexeme.start kind label) s3 :=
    (endStatement_reads h2.sound).of fun _ s3 h3 => ⟨(h2.trans h3).after h1, trivial⟩
  split
  · exact hend (.refl h1.sound)
  · exact (name_moves h1.sound).of fun _ s2 h2 => hend h2

/-! ## All statements -/

theorem keywordStatement_reads (hg : g.Sound) {placement : Placement} {word : String}
    (hs : s.Sound) (hne : s.lexeme.token ≠ .endOfInput) :
    (keywordStatement g ctx placement word).Ensures s fun st s' => ReadsStatement s st s' := by
  simp only [keywordStatement, ensures_bind, ensures_position]
  split
  case h_1 => exact ifStatement_reads hg hs hne
  case h_2 => exact doStatement_reads hg hs hne
  case h_3 => exact whileStatement_reads hg hs hne
  case h_4 => exact forStatement_reads hg hs hne
  case h_5 => exact jumpStatement_reads hs hne
  case h_6 => exact jumpStatement_reads hs hne
  case h_7 => exact withStatement_reads hg hs hne
  case h_8 => exact switchStatement_reads hg hs hne
  case h_9 => exact throwStatement_reads hg hs hne
  case h_10 => exact tryStatement_reads hg hs hne
  case h_11 => exact returnStatement_reads hg hs hne
  case h_12 =>
    simp only [ensures_bind, ensures_pure]
    refine (advance_reads hs hne).of fun _ s1 h1 => ?_
    exact (endStatement_reads h1.sound).of fun _ s2 h2 => ⟨h1.trans h2, trivial⟩
  case h_13 =>
    have hnone : Reads s (([] : List Expression).map .expression) s := .refl hs
    exact classDeclaration_reads hg hnone
  case h_14 => exact functionDeclaration_reads hg hs
  case h_15 =>
    refine ensures_bind.2 ((advance_reads hs hne).of fun _ s1 h1 => ?_)
    exact (variableStatement_reads hg h1.sound).of fun st s2 h2 =>
      ⟨h2.toReads.after h1, h2.formed⟩
  case h_16 =>
    refine ensures_bind.2 ((advance_reads hs hne).of fun _ s1 h1 => ?_)
    exact (listedVariables_reads hg h1.sound).of fun st s2 h2 => ⟨h2.toReads.after h1, h2.formed⟩
  case h_17 => exact letStatement_reads hg hs hne
  case h_18 => exact exportDeclaration_reads hg hs
  case h_19 =>
    simp only [ensures_bind, ensures_peek, ensures_ite]
    intro l _
    split
    · exact expressionOrLabel_reads hg hs
    · exact importDeclaration_reads hs
  case h_20 =>
    simp only [ensures_bind, ensures_peek, ensures_ite]
    intro l _
    split
    · exact functionDeclaration_reads hg hs
    · exact expressionOrLabel_reads hg hs
  case h_21 => exact resourceStatement_reads hg hs
  case h_22 => exact resourceStatement_reads hg hs
  case h_23 => exact expressionOrLabel_reads hg hs

theorem statement_reads (hg : g.Sound) {placement : Placement} (hs : s.Sound) :
    (statement g ctx placement).Ensures s fun st s' => ReadsStatement s st s' := by
  simp only [statement, ensures_bind, ensures_current]
  split
  · simp only [ensures_bind, ensures_pure]
    exact (bracedStatements_reads hg hs).of fun body s1 h1 => ⟨h1.1, h1.2⟩
  · next heq =>
    simp only [ensures_bind, ensures_pure]
    exact (advance_reads hs (by simp [heq])).of fun _ s1 h1 => ⟨h1, trivial⟩
  · exact decoratedStatement_reads hg hs
  · next heq => exact keywordStatement_reads hg hs (by simp [heq])
  · exact expressionOrLabel_reads hg hs

end Rebind.Grammar
