import Rebind.Proofs.Nodes
import Rebind.Proofs.Reading.Openings
import Rebind.Proofs.Reading.Snippet

/-!
# Where the nodes of a snippet stand

Every node of a snippet starts at a token of its source, and some of them keep more of the tokens
that they were read from (`Node.Placed`): an expression statement is a single string literal or goes
on past one that comes first, directives are string literals, labels are names, and a word that is
ambiguous before `of` stood in parentheses.  The productions for statements, functions and classes
keep this of what they answer with (`Program.parse_placed`).
-/

namespace Rebind.Snippet

open Rebind.Text (byteSize)
open Rebind.Grammar (isMark)

variable {source : List Char}

/-- The head of the loop at an offset starts with a parenthesis past its own one. -/
def OpensTwice (source : List Char) (start : Nat) : Prop :=
  ∃ word first second : Lexeme, word.IsOf source ∧ word.start = start ∧
    Lexeme.scan word.stop word.rest = .ok first ∧ isMark first.token "(" = true ∧
    Lexeme.scan first.stop first.rest = .ok second ∧ isMark second.token "(" = true

/-- A place to the left of `of` that is spelled as an ambiguous word stands in parentheses. -/
def LoopTarget.Shown (source : List Char) (start : Nat) : LoopTarget → Prop
  | .place value =>
    String.ofList (value.span.slice source) ∈ ambiguousWords → OpensTwice source start
  | .declaration _ => True

/-- What a statement keeps of the tokens it was read from. -/
def Statement.Shown (source : List Char) : Statement → Prop
  | .expression _ value => value.Opens source
  | .labeled _ labels _ => labels ≠ [] ∧ ∀ label ∈ labels,
      ∃ c, label.toList.head? = some c ∧ Unicode.isNameStart c = true
  | .forOf start isAwait target _ _ => isAwait = false → target.Shown source start
  | _ => True

/-- A statement that is only a string literal. -/
def Statement.IsLone (source : List Char) : Statement → Prop
  | .expression _ value => IsLiteralSpan source value.span
  | _ => False

/-- The directives of a body are all that it starts with of string literals. -/
structure Body.Placed (source : List Char) (b : Body) : Prop where
  start_le : b.start ≤ byteSize source
  directives : ∀ span ∈ b.directives, IsLiteralSpan source span
  statements : ∀ s ∈ b.statements, s.Shown source
  first : ∀ s ∈ b.statements.head?, ¬ s.IsLone source

/-- A node starts in the source and keeps what it does of its tokens. -/
def Node.Placed (source : List Char) : Node → Prop
  | .statement s => s.start ≤ byteSize source ∧ s.Shown source
  | .body b => b.Placed source
  | .definition d => d.start ≤ byteSize source
  | .member (.staticBlock start _) => start ≤ byteSize source
  | .member _ | .callable _ => True

/-- All of some nodes are placed. -/
def AllPlaced (source : List Char) (nodes : List Node) : Prop :=
  ∀ node ∈ nodes, node.Placed source

/-- A statement is placed, with all that it holds. -/
def Statement.Placed (source : List Char) (s : Statement) : Prop :=
  AllPlaced source s.nodes

/-- A member of a class is placed, with all that it holds. -/
def Element.Placed (source : List Char) (e : Element) : Prop :=
  AllPlaced source e.nodes

section AllPlaced

variable {node : Node} {xs ys : List Node}

@[simp] theorem allPlaced_nil : AllPlaced source [] :=
  List.forall_mem_nil _

@[simp] theorem allPlaced_cons :
    AllPlaced source (node :: xs) ↔ node.Placed source ∧ AllPlaced source xs :=
  List.forall_mem_cons

@[simp] theorem allPlaced_append :
    AllPlaced source (xs ++ ys) ↔ AllPlaced source xs ∧ AllPlaced source ys :=
  List.forall_mem_append

end AllPlaced

theorem allPlaced_listNodes {body : List Statement} (h : ∀ s ∈ body, s.Placed source) :
    AllPlaced source (listNodes body) := by
  rw [listNodes_eq]
  intro node hnode
  obtain ⟨s, hs, hnode⟩ := List.mem_flatMap.1 hnode
  exact h s hs node hnode

theorem allPlaced_clauseNodes {clauses : List Case}
    (h : ∀ c ∈ clauses, ∀ s ∈ c.body, s.Placed source) :
    AllPlaced source (clauseNodes clauses) := by
  rw [clauseNodes_eq]
  intro node hnode
  obtain ⟨c, hc, hnode⟩ := List.mem_flatMap.1 hnode
  exact allPlaced_listNodes (h c hc) node hnode

theorem allPlaced_elementsNodes {elements : List Element} (h : ∀ e ∈ elements, e.Placed source) :
    AllPlaced source (elementsNodes elements) := by
  rw [elementsNodes_eq]
  intro node hnode
  obtain ⟨e, he, hnode⟩ := List.mem_flatMap.1 hnode
  exact h e he node hnode

/-- An expression statement starts at an offset. -/
def Statement.HeadAt (offset : Nat) : Statement → Prop
  | .expression _ value => value.span.start = offset
  | _ => True

/-- A statement that is read from an offset on. -/
structure Statement.PlacedAt (source : List Char) (offset : Nat) (s : Statement) : Prop where
  placed : s.Placed source
  head : s.HeadAt offset

variable {offset start : Nat} {s : Statement}

/-- The nodes in a statement are placed, and it is itself. -/
theorem Statement.placedAt (hstart : s.start ≤ byteSize source)
    (hinside : AllPlaced source s.inside) (hshown : s.Shown source) (hhead : s.HeadAt offset) :
    s.PlacedAt source offset where
  placed := allPlaced_cons.2 ⟨⟨hstart, hshown⟩, hinside⟩
  head := hhead

theorem Statement.placedAt_expression {value : Expression} (hstart : start ≤ byteSize source)
    (hopens : value.Opens source) (hhead : value.span.start = offset) :
    (Statement.expression start value).PlacedAt source offset :=
  Statement.placedAt hstart allPlaced_nil hopens hhead

theorem Statement.Placed.label {label : String} (h : s.Placed source)
    (hstart : start ≤ byteSize source)
    (hlabel : ∃ c, label.toList.head? = some c ∧ Unicode.isNameStart c = true) :
    (Statement.label start label s).PlacedAt source offset := by
  have hlabeled : (Statement.labeled start [label] s).PlacedAt source offset :=
    Statement.placedAt hstart h ⟨List.cons_ne_nil _ _, List.forall_mem_singleton.2 hlabel⟩ trivial
  cases s with
  | labeled inner labels body =>
    obtain ⟨⟨-, -, hlabels⟩, hbody⟩ := allPlaced_cons.1 h
    exact Statement.placedAt hstart hbody
      ⟨List.cons_ne_nil _ _, List.forall_mem_cons.2 ⟨hlabel, hlabels⟩⟩ trivial
  | _ => exact hlabeled

end Rebind.Snippet

namespace Rebind.Grammar

open Rebind.Text (byteSize)
open Rebind.Snippet
open Rebind.Grammar.Parser

/-- The statements that given productions read are placed. -/
def Productions.Places (source : List Char) (g : Productions) : Prop :=
  ∀ (ctx : Context) (placement : Placement) {s : State}, s.Within source →
    (g.statement ctx placement).Ensures s fun st _ => st.PlacedAt source s.lexeme.start

variable {source : List Char} {g : Productions} {ctx : Context} {s : State} {start offset : Nat}

/-! ## Functions and classes -/

theorem nested_statement (hg : g.Sound) (hp : g.Places source) {placement : Placement}
    (hs : s.Within source) :
    (g.statement ctx placement).Ensures s fun st s' =>
      s'.Within source ∧ st.PlacedAt source s.lexeme.start :=
  ((hg.statement ctx placement hs.sound).and (hp ctx placement hs)).of
    fun _ _ h => ⟨hs.after h.1.toReads, h.2⟩

/-- A statement that starts with another token than a string literal is not one. -/
theorem not_isLone_of_token {st : Statement} (hs : s.Within source)
    (hst : st.HeadAt s.lexeme.start)
    (hother : ∀ value isSound, s.lexeme.token ≠ .string value isSound) : ¬ st.IsLone source := by
  cases st with
  | expression start value =>
    rintro ⟨l, hl, hstring, hspan⟩
    have hstart : s.lexeme.start = l.start := hst.symm.trans (congrArg Text.Span.start hspan).symm
    obtain ⟨⟨text, isSound, htoken⟩, -⟩ := hl.same hstring hs.isOf hstart
    exact hother text isSound htoken
  | _ => exact id

theorem directivesAndStatements_placed (hg : g.Sound) (hp : g.Places source) {isClosed : Bool}
    (hs : s.Within source) :
    (directivesAndStatements g ctx isClosed).Ensures s fun r s' =>
      s'.Within source ∧ (∀ span ∈ r.1, IsLiteralSpan source span) ∧
        (∀ st ∈ r.2, st.Placed source) ∧ ∀ st ∈ r.2.head?, ¬ st.IsLone source := by
  refine ensures_repeatFrom
    (fun (r : List Text.Span × List Statement) s' =>
      s'.Within source ∧ (∀ span ∈ r.1, IsLiteralSpan source span) ∧
        (∀ st ∈ r.2, st.Placed source) ∧ ∀ st ∈ r.2.getLast?, ¬ st.IsLone source)
    ⟨hs, by simp⟩ fun r s1 h1 => ?_
  obtain ⟨directives, statements⟩ := r
  obtain ⟨h1, hdirectives, hstatements, hfirst⟩ := h1
  simp only [ensures_bind, ensures_current, ensures_ite, ensures_pure, Sum.elim_inr]
  split
  · refine ⟨h1, fun span hspan => hdirectives span (List.mem_reverse.1 hspan),
      fun st hst => hstatements st (List.mem_reverse.1 hst), ?_⟩
    rwa [List.head?_reverse]
  refine (nested_statement hg hp h1).of fun st s2 h2 => ?_
  obtain ⟨h2, hst⟩ := h2
  split
  · next start value text isSound htoken =>
    simp only [ensures_ite, ensures_pure, Sum.elim_inl]
    split
    · next hspan =>
      refine ⟨h2, List.forall_mem_cons.2 ⟨⟨s1.lexeme, h1.isOf, ⟨text, isSound, htoken⟩, hspan.symm⟩,
        hdirectives⟩, by simp⟩
    · next hspan =>
      refine ⟨h2, hdirectives, List.forall_mem_singleton.2 hst.placed, ?_⟩
      rintro _ ⟨rfl⟩ ⟨l, hl, hstring, hlspan⟩
      have hstart : s1.lexeme.start = l.start :=
        hst.head.symm.trans (congrArg Text.Span.start hlspan).symm
      have hstop := (hl.same hstring h1.isOf hstart).2
      exact hspan (by rw [← hlspan, Lexeme.span, hstart, hstop])
  · next st statements _ _ _ hother =>
    refine ensures_pure.2 ⟨h2, hdirectives, List.forall_mem_cons.2 ⟨hst.placed, hstatements⟩, ?_⟩
    cases statements with
    | nil =>
      rintro _ ⟨rfl⟩ hlone
      cases st with
      | expression start value =>
        refine not_isLone_of_token h1 hst.head (fun text isSound htoken => ?_) hlone
        exact hother start value text isSound rfl htoken rfl
      | _ => exact hlone
    | cons first statements => simpa using hfirst

theorem bracedStatements_placed (hg : g.Sound) (hp : g.Places source) (hs : s.Within source) :
    (bracedStatements g ctx).Ensures s fun body s' =>
      s'.Within source ∧ AllPlaced source (listNodes body) := by
  simp only [bracedStatements, ensures_bind, ensures_pure]
  refine (expectMark_reads hs.sound).of fun _ s1 h1 => ?_
  refine ensures_repeatFrom
    (fun (body : List Statement) s' => s'.Within source ∧ ∀ st ∈ body, st.Placed source)
    ⟨hs.after h1, by simp⟩ fun body s2 h2 => ?_
  obtain ⟨h2, hbody⟩ := h2
  simp only [ensures_bind, ensures_atMark, ensures_atEnd, ensures_ite, ensures_pure, Sum.elim_inl,
    Sum.elim_inr]
  split
  · refine (expectMark_reads h2.sound).of fun _ s3 h3 => ⟨h2.after h3, ?_⟩
    exact allPlaced_listNodes fun st hst => hbody st (List.mem_reverse.1 hst)
  · refine (nested_statement hg hp h2).of fun st s3 h3 => ?_
    exact ⟨h3.1, List.forall_mem_cons.2 ⟨h3.2.placed, hbody⟩⟩

theorem functionBody_placed (hg : g.Sound) (hp : g.Places source) (hs : s.Within source) :
    (functionBody g ctx).Ensures s fun body _ => AllPlaced source (bodyNodes body) := by
  simp only [functionBody, ensures_bind, ensures_position, ensures_pure]
  refine (expectMark_reads hs.sound).of fun _ s1 h1 => ?_
  refine (directivesAndStatements_placed hg hp (hs.after h1)).of fun r s2 h2 => ?_
  obtain ⟨h2, hdirectives, hstatements, hfirst⟩ := h2
  refine .of_forall fun _ _ => ?_
  have hshown (st : Statement) (hst : st ∈ r.2) : st.Shown source :=
    (allPlaced_cons.1 (hstatements st hst)).1.2
  exact allPlaced_cons.2
    ⟨⟨hs.start_le, hdirectives, hshown, hfirst⟩, allPlaced_listNodes hstatements⟩

theorem callable_placed (hg : g.Sound) (hp : g.Places source) {isAsync isGenerator : Bool}
    {name : Option String} (hs : s.Within source) :
    (callable g isAsync isGenerator name).Ensures s fun c _ =>
      AllPlaced source (callableNodes c) := by
  simp only [callable, ensures_bind, ensures_pure]
  refine (expectMark_reads hs.sound).of fun _ s1 h1 => ?_
  have hitem {s : State} (hs : s.Sound) :
      (parameter g (.inFunction isAsync isGenerator)).Ensures s fun p s' =>
        Reads s (oneParameterParts p) s' ∧ True :=
    (parameter_reads hg hs).of fun _ _ h => ⟨h, trivial⟩
  refine (separated_reads hitem h1.sound).of fun parts s2 h2 => ?_
  have hs2 := (hs.after h1).after h2.1
  refine (splitParameters_ensures parts.1).of fun r s3 h3 => ?_
  rw [h3.1]
  refine (expectMark_reads hs2.sound).of fun _ s4 h4 => ?_
  refine (functionBody_placed hg hp (hs2.after h4)).of fun body s5 h5 => ?_
  exact allPlaced_cons.2 ⟨trivial, h5⟩

theorem method_placed (hg : g.Sound) (hp : g.Places source) {kind : MethodKind}
    {isAsync isGenerator : Bool} (hs : s.Within source) :
    (method g kind isAsync isGenerator).Ensures s fun c _ =>
      AllPlaced source (callableNodes c) := by
  simp only [method, ensures_bind, ensures_position, ensures_ite, ensures_spanFrom, ensures_fail,
    ensures_pure]
  exact (callable_placed hg hp hs).of fun c s1 h1 => of_check h1

theorem function_placed (hg : g.Sound) (hp : g.Places source) {isAsync : Bool} {naming : Naming}
    (hs : s.Within source) :
    (function g ctx isAsync naming).Ensures s fun c _ => AllPlaced source (callableNodes c) := by
  simp only [function, ensures_bind]
  refine (expectKeyword_reads hs.sound).of fun _ s1 h1 => ?_
  refine (eatMark_reads h1.sound).of fun isGenerator s2 h2 => ?_
  have hs2 := (hs.after h1).after h2
  cases naming with
  | required =>
    simp only [ensures_bind, ensures_pure]
    exact (name_reads hs2.sound).of fun r s3 h3 => callable_placed hg hp (hs2.after h3.1)
  | optional | inner =>
    simp only [ensures_bind, ensures_atMark, ensures_ite, ensures_pure]
    split
    · exact callable_placed hg hp hs2
    · exact (name_reads hs2.sound).of fun r s3 h3 => callable_placed hg hp (hs2.after h3.1)

theorem elementRest_placed (hg : g.Sound) (hp : g.Places source) {ds : List Expression}
    {isStatic : Bool} {modifiers : ElementModifiers} (hs : s.Within source) :
    (elementRest g ctx ds isStatic modifiers).Ensures s fun e _ => e.Placed source := by
  simp only [elementRest, ensures_bind, ensures_position, ensures_spanFrom, ensures_atMark,
    ensures_ite, ensures_pure]
  refine (key_reads hg hs.sound).of fun name s1 h1 => ?_
  split
  · refine checkMethodName_ensures.of fun _ s2 h2 => ?_
    rw [h2]
    split
    · exact (method_placed hg hp (hs.after h1)).of fun c s3 h3 => allPlaced_cons.2 ⟨trivial, h3⟩
    · exact ensures_unexpected.2 trivial
  · refine checkFieldName_ensures.of fun _ s2 h2 => ?_
    rw [h2]
    refine (fieldRest_reads hg h1.sound).of fun e s3 h3 => ?_
    obtain ⟨value, rfl, -⟩ := h3
    exact allPlaced_cons.2 ⟨trivial, allPlaced_nil⟩

theorem classElement_placed (hg : g.Sound) (hp : g.Places source) (hs : s.Within source) :
    (classElement g ctx).Ensures s fun e _ => e.Placed source := by
  simp only [classElement, ensures_bind, ensures_position, ensures_atMark, ensures_ite,
    ensures_pure]
  refine (decorators_reads hg hs.sound).of fun ds s1 h1 => ?_
  refine (eatModifier_reads h1.sound).of fun isStatic s2 h2 => ?_
  have hs2 := (hs.after h1).after h2
  split
  · refine (bracedStatements_placed hg hp hs2).of fun body s3 h3 => ?_
    exact allPlaced_cons.2 ⟨hs.start_le, h3.2⟩
  · refine (elementModifiers_reads hs2.sound).of fun modifiers s3 h3 => ?_
    exact elementRest_placed hg hp (hs2.after h3)

theorem classBody_placed (hg : g.Sound) (hp : g.Places source) (hs : s.Within source) :
    (classBody g ctx).Ensures s fun elements _ => AllPlaced source (elementsNodes elements) := by
  simp only [classBody, ensures_bind, ensures_pure]
  refine (expectMark_reads hs.sound).of fun _ s1 h1 => ?_
  refine ensures_repeatFrom
    (fun (elements : List Element) s' => s'.Within source ∧ ∀ e ∈ elements, e.Placed source)
    ⟨hs.after h1, by simp⟩ fun elements s2 h2 => ?_
  obtain ⟨h2, helements⟩ := h2
  simp only [ensures_bind, ensures_eatMark, ensures_atMark, ensures_atEnd, ensures_ite,
    ensures_pure, ↓reduceIte, Bool.false_eq_true, Sum.elim_inl, Sum.elim_inr]
  split
  · exact (advance_within h2).of fun _ s3 h3 => ⟨h3, helements⟩
  split
  · refine .of_forall fun _ _ => allPlaced_elementsNodes fun e he => ?_
    exact helements e (List.mem_reverse.1 he)
  · refine ((classElement_reads hg h2.sound).and (classElement_placed hg hp h2)).of
      fun e s3 h3 => ?_
    exact ⟨h2.after h3.1.1, List.forall_mem_cons.2 ⟨h3.2, helements⟩⟩

theorem classDefinition_placed (hg : g.Sound) (hp : g.Places source)
    (hstart : start ≤ byteSize source) {ds : List Expression} (hs : s.Within source) :
    (classDefinition g ctx start ds).Ensures s fun d _ => AllPlaced source (classNodes d) := by
  simp only [classDefinition, ensures_bind, ensures_pure]
  refine (expectKeyword_reads hs.sound).of fun _ s1 h1 => ?_
  refine (className_reads h1.sound).of fun name s2 h2 => ?_
  refine (classHeritage_reads hg h2.sound).of fun value s3 h3 => ?_
  refine (classBody_placed hg hp (((hs.after h1).after h2).after h3)).of fun elements s4 h4 => ?_
  exact allPlaced_cons.2 ⟨hstart, h4⟩

/-! ## Statements -/

theorem importDeclaration_placed (hs : s.Within source) :
    (importDeclaration ctx).Ensures s fun st _ => st.PlacedAt source offset := by
  have hend {s' : State} : endStatement.Ensures s' fun _ _ =>
      (Statement.moduleItem s.lexeme.start).PlacedAt source offset :=
    .of_forall fun _ _ => Statement.placedAt hs.start_le allPlaced_nil trivial trivial
  have hsource (isBare : Bool) {s' : State} : if isBare
      then stringLiteral.Ensures s' fun _ s2 => importAttributes.Ensures s2 fun _ s3 =>
        endStatement.Ensures s3 fun _ _ =>
          (Statement.moduleItem s.lexeme.start).PlacedAt source offset
      else (importClause ctx).Ensures s' fun _ s2 => moduleSource.Ensures s2 fun _ s3 =>
        endStatement.Ensures s3 fun _ _ =>
          (Statement.moduleItem s.lexeme.start).PlacedAt source offset := by
    split <;> exact .of_forall fun _ _ => .of_forall fun _ _ => hend
  simp only [importDeclaration, ensures_bind, ensures_position, ensures_current, ensures_ite,
    ensures_pure]
  exact .of_forall fun _ _ => hsource _

theorem exportDeclaration_placed {isDecorated : Bool} (hs : s.Within source) :
    (exportDeclaration g ctx isDecorated).Ensures s fun st _ => st.PlacedAt source offset := by
  have hend {α : Type} {p : Parser α} {s' : State} : p.Ensures s' fun _ _ =>
      (Statement.moduleItem s.lexeme.start).PlacedAt source offset :=
    .of_forall fun _ _ => Statement.placedAt hs.start_le allPlaced_nil trivial trivial
  have hnames {s' : State} : (exportedNames g ctx).Ensures s' fun names s'' =>
      (addExports names ⟨s.lexeme.start, s''.lastStop⟩).Ensures s'' fun _ _ =>
        (Statement.moduleItem s.lexeme.start).PlacedAt source offset :=
    .of_forall fun _ _ => hend
  simp only [exportDeclaration, ensures_bind, ensures_position, ensures_spanFrom, ensures_ite,
    ensures_atKeyword, ensures_atMark, ensures_unexpected, ensures_pure]
  refine .of_forall fun _ _ => .of_forall fun isDefault s2 => ?_
  split
  · split
    · exact of_check (.of_forall fun _ _ => hend)
    · exact .of_forall fun _ _ => hend
  split
  · exact of_check hnames
  refine .of_forall fun isStar s3 => ?_
  split
  · refine .of_forall fun isAs s4 => ?_
    split
    · exact .of_forall fun _ _ => .of_forall fun _ _ => .of_forall fun _ _ => hend
    · exact .of_forall fun _ _ => hend
  split
  · exact .of_forall fun _ _ => hend
  · exact hnames

theorem variableStatement_placed {kind : DeclarationKind} (hstart : start ≤ byteSize source) :
    (variableStatement g ctx kind start).Ensures s fun st _ => st.PlacedAt source offset := by
  simp only [variableStatement, ensures_bind, ensures_pure]
  refine .of_forall fun d _ => .of_forall fun _ _ => ?_
  exact Statement.placedAt hstart allPlaced_nil trivial trivial

theorem listedVariables_placed {placement : Placement} {kind : DeclarationKind}
    (hstart : start ≤ byteSize source) :
    (listedVariables g ctx placement kind start).Ensures s fun st _ =>
      st.PlacedAt source offset := by
  simp only [listedVariables, ensures_bind, ensures_pure]
  exact (variableStatement_placed hstart).of fun st s1 h1 => .of_forall fun _ _ => h1

theorem functionDeclaration_placed (hg : g.Sound) (hp : g.Places source) {placement : Placement}
    (hs : s.Within source) :
    (functionDeclaration g ctx placement).Ensures s fun st _ => st.PlacedAt source offset := by
  simp only [functionDeclaration, ensures_bind, ensures_position, ensures_ite, ensures_pure]
  refine (eatKeyword_reads hs.sound).of fun isAsync s1 h1 => ?_
  refine (function_placed hg hp (hs.after h1)).of fun c s2 h2 => ?_
  have hc : (Statement.function s.lexeme.start c).PlacedAt source offset :=
    Statement.placedAt hs.start_le h2 trivial trivial
  split
  · exact .of_forall fun _ _ => hc
  · exact hc

theorem classDeclaration_placed (hg : g.Sound) (hp : g.Places source) {placement : Placement}
    (hstart : start ≤ byteSize source) {ds : List Expression} (hs : s.Within source) :
    (classDeclaration g ctx placement start ds).Ensures s fun st _ =>
      st.PlacedAt source offset := by
  simp only [classDeclaration, ensures_bind, ensures_pure]
  refine (classDefinition_placed hg hp hstart hs).of fun d s1 h1 => ?_
  exact .of_forall fun _ _ => Statement.placedAt hstart h1 trivial trivial

theorem decoratedStatement_placed (hg : g.Sound) (hp : g.Places source) {placement : Placement}
    (hs : s.Within source) :
    (decoratedStatement g ctx placement).Ensures s fun st _ => st.PlacedAt source offset := by
  simp only [decoratedStatement, ensures_bind, ensures_position, ensures_atKeyword, ensures_ite,
    ensures_unexpected]
  refine (decorators_reads hg hs.sound).of fun ds s1 h1 => ?_
  split
  · exact exportDeclaration_placed (hs.after h1)
  · exact of_check (classDeclaration_placed hg hp hs.start_le (hs.after h1))

/-- An expression that a term has read is a statement, whatever comes next. -/
theorem placedAt_of_readsTerm {t : Term} {s' s'' : State} (h : ReadsTerm s t s')
    (hs : s.Within source) (hhosts : s''.hosts = s'.hosts) :
    (Statement.expression s.lexeme.start
      ⟨t.span, (s''.hosts.take (s''.hosts.length - s.hosts.length)).reverse⟩).PlacedAt source
        s.lexeme.start := by
  obtain ⟨hosts, heq, -⟩ := h.hosts
  rw [hhosts, heq, List.length_append, Nat.add_sub_cancel, List.take_left, List.reverse_reverse]
  exact Statement.placedAt_expression hs.start_le (h.opens hs heq) (by rw [h.whole])

theorem expressionOrLabel_placed (hg : g.Sound) (hp : g.Places source) (hs : s.Within source) :
    (expressionOrLabel g ctx).Ensures s fun st _ => st.PlacedAt source s.lexeme.start := by
  simp only [expressionOrLabel, ensures_bind, ensures_position, ensures_get]
  refine (sequence_reads hg hs.sound).of fun t s1 h1 => ?_
  split
  · next label hlabel =>
    simp only [ensures_bind, ensures_ite, ensures_value, ensures_hostsSince, ensures_pure]
    refine ((eatMark_reads h1.sound).and eatMark_hosts).of fun isLabel s2 h2 => ?_
    split
    · refine (hp _ _ ((hs.after h1.toReads).after h2.1)).of fun st s3 h3 => ?_
      exact h3.placed.label hs.start_le (h1.name_starts hs hlabel)
    · exact fun _ => .of_forall fun _ _ => placedAt_of_readsTerm h1 hs h2.2
  · simp only [ensures_bind, ensures_value, ensures_hostsSince, ensures_pure]
    exact fun _ => .of_forall fun _ _ => placedAt_of_readsTerm h1 hs rfl

theorem letStatement_placed (hg : g.Sound) {placement : Placement} (hs : s.Within source)
    (htoken : s.lexeme.token = .word "let" false) :
    (letStatement g ctx placement).Ensures s fun st _ => st.PlacedAt source s.lexeme.start := by
  have hexpression {e : Expression} (he : e.Opens source ∧ e.span.start = s.lexeme.start) :
      (Statement.expression s.lexeme.start e).PlacedAt source s.lexeme.start :=
    Statement.placedAt_expression hs.start_le he.1 he.2
  simp only [letStatement, ensures_bind, ensures_current, ensures_peek, ensures_ite, ensures_pure]
  intro l _
  split
  · exact (copied_opens hs (hg.assignment _ hs.sound)).of fun e s1 h1 =>
      .of_forall fun _ _ => hexpression h1
  split
  · exact (copied_opens hs (sequence_reads hg hs.sound)).of fun e s1 h1 => hexpression h1
  split
  · refine .of_forall fun _ _ => .of_forall fun _ _ => hexpression ⟨?_, rfl⟩
    refine ⟨s.lexeme, hs.isOf, rfl, ?_⟩
    rintro ⟨value, isSound, hstring⟩
    cases htoken.symm.trans hstring
  · exact .of_forall fun _ _ => listedVariables_placed hs.start_le

theorem resourceStatement_placed (hg : g.Sound) (hp : g.Places source) {placement : Placement}
    (hs : s.Within source) :
    (resourceStatement g ctx placement).Ensures s fun st _ =>
      st.PlacedAt source s.lexeme.start := by
  simp only [resourceStatement, ensures_bind, ensures_position]
  refine resourceKind?_ensures.of fun answer s1 h1 => ?_
  obtain ⟨rfl, -⟩ := h1
  cases answer with
  | none => exact expressionOrLabel_placed hg hp hs
  | some kind =>
    exact ensures_bind.2 (.of_forall fun _ _ => listedVariables_placed hs.start_le)

/-! ### Loops -/

theorem forRest_placed (hg : g.Sound) (hp : g.Places source) (hstart : start ≤ byteSize source)
    {isAwait : Bool} {init : Option LoopStart} (hs : s.Within source) :
    (forRest g ctx start isAwait init).Ensures s fun st _ => st.PlacedAt source offset := by
  simp only [forRest, ensures_bind, ensures_atMark, ensures_pure]
  refine (checkLoopStart_reads hs.sound).of fun _ s1 h1 => ?_
  refine (expectMark_reads h1.sound).of fun _ s2 h2 => ?_
  refine (optionalExpression_reads hg h2.sound).of fun test s3 h3 => ?_
  refine (expectMark_reads h3.sound).of fun _ s4 h4 => ?_
  have hs4 := (((hs.after h1).after h2).after h3).after h4
  refine (optionalExpression_reads hg hs4.sound).of fun update s5 h5 => ?_
  refine (expectMark_reads h5.sound).of fun _ s6 h6 => ?_
  refine (hp _ _ ((hs4.after h5).after h6)).of fun st s7 h7 => ?_
  exact Statement.placedAt hstart h7.placed trivial trivial

theorem forEachRest_placed (hg : g.Sound) (hp : g.Places source) (hstart : start ≤ byteSize source)
    {isAwait : Bool} {target : LoopTarget} (hs : s.Within source)
    (htarget : isKeyword s.lexeme.token "of" = true → isAwait = false →
      target.Shown source start) :
    (forEachRest g ctx start isAwait target).Ensures s fun st _ =>
      st.PlacedAt source offset := by
  simp only [forEachRest, ensures_bind, ensures_ite, ensures_unexpected, ensures_pure]
  have heat : (eatKeyword "of").Ensures s fun isOf s' =>
      s'.Within source ∧ (isOf = true → isKeyword s.lexeme.token "of" = true) := by
    refine ((eatKeyword_reads hs.sound).and ?_).of fun _ s1 h1 => ⟨hs.after h1.1, h1.2⟩
    rw [ensures_eatKeyword]
    split
    · next hof => exact .of_forall fun _ _ _ => hof
    · simp
  refine heat.of fun isOf s1 h1 => ?_
  obtain ⟨hs1, hof⟩ := h1
  split
  · next hisOf =>
    refine (copied_assignment_reads hg hs1.sound).of fun e s2 h2 => ?_
    refine (expectMark_reads h2.sound).of fun _ s3 h3 => ?_
    refine (hp _ _ ((hs1.after h2).after h3)).of fun st s4 h4 => ?_
    exact Statement.placedAt hstart h4.placed (htarget (hof hisOf)) trivial
  split
  · trivial
  · refine (expectKeyword_reads hs1.sound).of fun _ s2 h2 => ?_
    refine (expression_reads hg h2.sound).of fun e s3 h3 => ?_
    refine (expectMark_reads h3.sound).of fun _ s4 h4 => ?_
    refine (hp _ _ (((hs1.after h2).after h3).after h4)).of fun st s5 h5 => ?_
    exact Statement.placedAt hstart h5.placed trivial trivial

theorem forDeclaration_placed (hg : g.Sound) (hp : g.Places source)
    (hstart : start ≤ byteSize source) {isAwait : Bool} {kind : DeclarationKind}
    (hs : s.Within source) :
    (forDeclaration g ctx start isAwait kind).Ensures s fun st _ =>
      st.PlacedAt source offset := by
  simp only [forDeclaration, atForEach, ensures_bind, ensures_atKeyword, ensures_ite,
    ensures_unexpected, ensures_pure]
  refine (declaration_reads hg hs.sound).of fun d s1 h1 => ?_
  split
  · split
    · trivial
    · exact forEachRest_placed hg hp hstart (hs.after h1) fun _ _ => trivial
  · exact forRest_placed hg hp hstart (hs.after h1)

/-- Neither word that is ambiguous comes next before `of`, unless the loop awaits. -/
theorem isAmbiguousBeforeOf_answers {isAwait : Bool} :
    (isAmbiguousBeforeOf isAwait).Ensures s fun answer s' => s' = s ∧
      (answer = false → isAwait = false → ∀ word ∈ ambiguousWords,
        isKeyword s.lexeme.token word = true → ∀ l, s.Next l → isKeyword l.token "of" = false) := by
  simp only [isAmbiguousBeforeOf, ensures_bind, ensures_atKeyword, ensures_peek, ensures_ite,
    ensures_pure]
  split
  · exact ⟨trivial, by simp⟩
  next hlet =>
  split
  · next hasync =>
    refine fun next hnext => ⟨trivial, fun hanswer hawait word _ _ l hl => ?_⟩
    obtain rfl : l = next := Except.ok.inj (hl.symm.trans hnext)
    simpa [hawait] using hanswer
  · next hasync =>
    refine ⟨trivial, fun _ _ word hword hkeyword => ?_⟩
    obtain rfl | rfl : word = "async" ∨ word = "let" := by simpa [ambiguousWords] using hword
    · exact absurd hkeyword hasync
    · exact absurd hkeyword hlet

theorem forExpression_placed (hg : g.Sound) (hp : g.Places source)
    (hstart : start ≤ byteSize source) {isAwait : Bool} (hs : s.Within source)
    (hopens : isAwait = false → isMark s.lexeme.token "(" = true → OpensTwice source start) :
    (forExpression g ctx start isAwait).Ensures s fun st _ => st.PlacedAt source offset := by
  simp only [forExpression, atForEach, ensures_bind, ensures_current, ensures_atKeyword,
    ensures_ite, ensures_get, ensures_fail, ensures_value, ensures_hostsSince, ensures_pure]
  refine isAmbiguousBeforeOf_answers.of fun isAmbiguous s1 h1 => ?_
  obtain ⟨rfl, hambiguous⟩ := h1
  refine (sequence_reads hg hs.sound).of fun t s2 h2 => ?_
  have hs2 := hs.after h2.toReads
  split
  · split
    · trivial
    next hcheck =>
    split
    · simp only [ensures_bind, ensures_fail]
    · simp only [ensures_bind, ensures_hostsSince]
      refine forEachRest_placed hg hp hstart hs2 fun hof hawait hword => ?_
      obtain hplace | hparenthesis := h2.place_eq
      · rw [hplace] at hword
        obtain ⟨hkeyword, l, hl, hbefore⟩ := h2.ambiguous hs hword rfl
        have hanswer : isAmbiguous = false := by simpa [hof] using hcheck
        have hlexeme : s2.lexeme = l := hbefore.eq_of_isFixed (by rw [beq_iff_eq.1 hof]; rfl)
        have hother := hambiguous hanswer hawait _ hword hkeyword l hl
        rw [← hlexeme, hof] at hother
        cases hother
      · exact hopens hawait hparenthesis
  · exact fun _ => forRest_placed hg hp hstart hs2

theorem eatAwait_stays : (eatAwait ctx).Ensures s fun isAwait s' => isAwait = false → s' = s := by
  simp only [eatAwait, ensures_bind, ensures_atKeyword, ensures_ite, ensures_unexpected,
    ensures_pure]
  split
  · exact of_check (.of_forall fun _ _ => by simp)
  · exact fun _ => trivial

theorem eatLoopKeywords_stays :
    (eatLoopKeywords ctx).Ensures s fun kind s' => kind = none → s' = s := by
  have hresource : (eatLoopResource ctx).Ensures s fun kind s' => kind = none → s' = s := by
    simp only [eatLoopResource, ensures_bind]
    refine loopResourceKind?_ensures.of fun answer s1 h1 => ?_
    obtain ⟨rfl, -⟩ := h1
    cases answer with
    | none => exact ensures_pure.2 fun _ => rfl
    | some kind =>
      simp only [ensures_bind, ensures_pure]
      exact .of_forall fun _ _ => by simp
  simp only [eatLoopKeywords, ensures_bind, ensures_eatKeyword, ensures_atKeyword, ensures_peek,
    ensures_ite, ensures_pure, ↓reduceIte, Bool.false_eq_true]
  split
  · exact .of_forall fun _ _ => by simp
  split
  · exact .of_forall fun _ _ => by simp
  split
  · intro l _
    split
    · exact .of_forall fun _ _ => by simp
    · exact hresource
  · exact hresource

theorem forStatement_placed (hg : g.Sound) (hp : g.Places source) (hs : s.Within source) :
    (forStatement g ctx).Ensures s fun st _ => st.PlacedAt source offset := by
  simp only [forStatement, ensures_bind, ensures_position, ensures_atMark, ensures_ite]
  refine ((advance_within hs).and advance_scans).of fun _ s1 h1 => ?_
  obtain ⟨hs1, hfirst⟩ := h1
  refine ((eatAwait_reads hs1.sound).and eatAwait_stays).of fun isAwait s2 h2 => ?_
  obtain ⟨h2, hawait⟩ := h2
  refine ((expectMark_reads h2.sound).and (expectMark_at.and expectMark_scans)).of fun _ s3 h3 => ?_
  obtain ⟨h3, hmark, hsecond⟩ := h3
  have hs3 := (hs1.after h2).after h3
  split
  · exact forRest_placed hg hp hs.start_le hs3
  refine ((eatLoopKeywords_reads hs3.sound).and eatLoopKeywords_stays).of fun kind s4 h4 => ?_
  obtain ⟨h4, hkeywords⟩ := h4
  split
  · exact forDeclaration_placed hg hp hs.start_le (hs3.after h4)
  · refine forExpression_placed hg hp hs.start_le (hs3.after h4) fun hisAwait hparenthesis => ?_
    rw [hkeywords rfl] at hparenthesis
    rw [hawait hisAwait] at hmark hsecond
    exact ⟨s.lexeme, s1.lexeme, s3.lexeme, hs.isOf, rfl, hfirst, hmark, hsecond, hparenthesis⟩

theorem whileStatement_placed (hg : g.Sound) (hp : g.Places source) (hs : s.Within source) :
    (whileStatement g ctx).Ensures s fun st _ => st.PlacedAt source offset := by
  simp only [whileStatement, ensures_bind, ensures_position, ensures_pure]
  refine (advance_within hs).of fun _ s1 hs1 => ?_
  refine (head_reads hg hs1.sound).of fun e s2 h2 => ?_
  refine (hp _ _ (hs1.after h2)).of fun st s3 h3 => ?_
  exact Statement.placedAt hs.start_le h3.placed trivial trivial

theorem withStatement_placed (hg : g.Sound) (hp : g.Places source) (hs : s.Within source) :
    (withStatement g ctx).Ensures s fun st _ => st.PlacedAt source offset := by
  simp only [withStatement, ensures_bind, ensures_position, ensures_pure]
  refine (advance_within hs).of fun _ s1 hs1 => ?_
  refine (head_reads hg hs1.sound).of fun e s2 h2 => ?_
  refine (hp _ _ (hs1.after h2)).of fun st s3 h3 => ?_
  exact Statement.placedAt hs.start_le h3.placed trivial trivial

theorem doStatement_placed (hp : g.Places source) (hs : s.Within source) :
    (doStatement g ctx).Ensures s fun st _ => st.PlacedAt source offset := by
  simp only [doStatement, ensures_bind, ensures_position, ensures_pure]
  refine (advance_within hs).of fun _ s1 hs1 => ?_
  refine (hp _ _ hs1).of fun st s2 h2 => ?_
  refine .of_forall fun _ _ => .of_forall fun _ _ => .of_forall fun _ _ => ?_
  exact Statement.placedAt hs.start_le h2.placed trivial trivial

/-! ### Choices and jumps -/

theorem elseBranch_placed (hp : g.Places source) (hs : s.Within source) :
    (elseBranch g ctx).Ensures s fun alternate _ =>
      AllPlaced source (alternateNodes alternate) := by
  simp only [elseBranch, ensures_bind, ensures_ite, ensures_pure]
  refine (eatKeyword_reads hs.sound).of fun isElse s1 h1 => ?_
  split
  · exact (hp _ _ (hs.after h1)).of fun st s2 h2 => h2.placed
  · exact allPlaced_nil

theorem ifStatement_placed (hg : g.Sound) (hp : g.Places source) (hs : s.Within source) :
    (ifStatement g ctx).Ensures s fun st _ => st.PlacedAt source offset := by
  simp only [ifStatement, ensures_bind, ensures_position, ensures_pure]
  refine (advance_within hs).of fun _ s1 hs1 => ?_
  refine (head_reads hg hs1.sound).of fun e s2 h2 => ?_
  refine (nested_statement hg hp (hs1.after h2)).of fun consequent s3 h3 => ?_
  refine (elseBranch_placed hp h3.1).of fun alternate s4 h4 => ?_
  exact Statement.placedAt hs.start_le (allPlaced_append.2 ⟨h3.2.placed, h4⟩) trivial trivial

theorem caseBody_placed (hg : g.Sound) (hp : g.Places source) (hs : s.Within source) :
    (caseBody g ctx).Ensures s fun body _ => ∀ st ∈ body, st.Placed source := by
  refine ensures_repeatFrom
    (fun (body : List Statement) s' => s'.Within source ∧ ∀ st ∈ body, st.Placed source)
    ⟨hs, by simp⟩ fun body s1 h1 => ?_
  obtain ⟨h1, hbody⟩ := h1
  simp only [ensures_bind, ensures_atKeyword, ensures_atMark, ensures_atEnd, ensures_position,
    ensures_ite, ensures_pure, Sum.elim_inl, Sum.elim_inr]
  split
  · exact fun st hst => hbody st (List.mem_reverse.1 hst)
  · refine (nested_statement hg hp h1).of fun st s2 h2 => ?_
    refine refuseResource_ensures.of fun _ s3 h3 => ?_
    rw [h3]
    exact ⟨h2.1, List.forall_mem_cons.2 ⟨h2.2.placed, hbody⟩⟩

theorem switchCase_placed (hg : g.Sound) (hp : g.Places source) (hs : s.Within source) :
    (switchCase g ctx).Ensures s fun c _ => ∀ st ∈ c.body, st.Placed source := by
  simp only [switchCase, ensures_bind, ensures_pure]
  refine (caseTest_reads hg hs.sound).of fun test s1 h1 => ?_
  refine (expectMark_reads h1.sound).of fun _ s2 h2 => ?_
  exact caseBody_placed hg hp ((hs.after h1).after h2)

theorem switchStatement_placed (hg : g.Sound) (hp : g.Places source) (hs : s.Within source) :
    (switchStatement g ctx).Ensures s fun st _ => st.PlacedAt source offset := by
  simp only [switchStatement, ensures_bind, ensures_position, ensures_pure]
  refine (advance_within hs).of fun _ s1 hs1 => ?_
  refine (head_reads hg hs1.sound).of fun e s2 h2 => ?_
  refine (expectMark_reads h2.sound).of fun _ s3 h3 => ?_
  refine ensures_repeatFrom
    (fun (clauses : List Case) s' =>
      s'.Within source ∧ ∀ c ∈ clauses, ∀ st ∈ c.body, st.Placed source)
    ⟨(hs1.after h2).after h3, by simp⟩ fun clauses s4 h4 => ?_
  obtain ⟨h4, hclauses⟩ := h4
  simp only [ensures_bind, ensures_atMark, ensures_atEnd, ensures_ite, ensures_pure,
    Sum.elim_inl, Sum.elim_inr]
  split
  · have hall := allPlaced_clauseNodes fun c hc => hclauses c (List.mem_reverse.1 hc)
    exact .of_forall fun _ _ => Statement.placedAt hs.start_le hall trivial trivial
  · refine ((switchCase_reads hg h4.sound).and (switchCase_placed hg hp h4)).of fun c s5 h5 => ?_
    exact ⟨h4.after h5.1.1, List.forall_mem_cons.2 ⟨h5.2, hclauses⟩⟩

theorem catchClause_placed (hg : g.Sound) (hp : g.Places source) (hs : s.Within source) :
    (catchClause g ctx).Ensures s fun handler _ => AllPlaced source (handlerNodes handler) := by
  simp only [catchClause, ensures_bind, ensures_ite, ensures_pure]
  refine (eatKeyword_reads hs.sound).of fun isCatch s1 h1 => ?_
  split
  · refine (catchParameter_reads hg h1.sound).of fun p s2 h2 => ?_
    exact (bracedStatements_placed hg hp ((hs.after h1).after h2)).of fun body s3 h3 => h3.2
  · exact allPlaced_nil

theorem finallyClause_placed (hg : g.Sound) (hp : g.Places source) (hs : s.Within source) :
    (finallyClause g ctx).Ensures s fun body _ => AllPlaced source (finalizerNodes body) := by
  simp only [finallyClause, ensures_bind, ensures_ite, ensures_pure]
  refine (eatKeyword_reads hs.sound).of fun isFinally s1 h1 => ?_
  split
  · exact (bracedStatements_placed hg hp (hs.after h1)).of fun body s2 h2 => h2.2
  · exact allPlaced_nil

theorem tryStatement_placed (hg : g.Sound) (hp : g.Places source) (hs : s.Within source) :
    (tryStatement g ctx).Ensures s fun st _ => st.PlacedAt source offset := by
  simp only [tryStatement, ensures_bind, ensures_position, ensures_ite, ensures_spanFrom,
    ensures_fail, ensures_pure]
  refine (advance_within hs).of fun _ s1 hs1 => ?_
  refine (bracedStatements_placed hg hp hs1).of fun body s2 h2 => ?_
  refine ((catchClause_reads hg h2.1.sound).and (catchClause_placed hg hp h2.1)).of
    fun handler s3 h3 => ?_
  refine (finallyClause_placed hg hp (h2.1.after h3.1.1)).of fun finalizer s4 h4 => ?_
  split
  · trivial
  · exact Statement.placedAt hs.start_le
      (allPlaced_append.2 ⟨allPlaced_append.2 ⟨h2.2, h3.2⟩, h4⟩) trivial trivial

theorem returnStatement_placed (hs : s.Within source) :
    (returnStatement g ctx).Ensures s fun st _ => st.PlacedAt source offset := by
  simp only [returnStatement, atImplicitEnd, ensures_bind, ensures_position, ensures_current,
    ensures_ite, ensures_unexpected, ensures_pure]
  refine of_check (.of_forall fun _ _ => .of_forall fun _ _ => .of_forall fun _ _ => ?_)
  exact Statement.placedAt hs.start_le allPlaced_nil trivial trivial

theorem throwStatement_placed (hs : s.Within source) :
    (throwStatement g ctx).Ensures s fun st _ => st.PlacedAt source offset := by
  simp only [throwStatement, ensures_bind, ensures_position, ensures_current, ensures_ite,
    ensures_unexpected, ensures_pure]
  refine .of_forall fun _ s1 => ?_
  split
  · trivial
  · refine .of_forall fun _ _ => .of_forall fun _ _ => ?_
    exact Statement.placedAt hs.start_le allPlaced_nil trivial trivial

theorem jumpStatement_placed {kind : Jump} (hs : s.Within source) :
    (jumpStatement ctx kind).Ensures s fun st _ => st.PlacedAt source offset := by
  simp only [jumpStatement, ensures_bind, ensures_position, ensures_pure]
  refine .of_forall fun _ _ => .of_forall fun _ _ => .of_forall fun _ _ => ?_
  exact Statement.placedAt hs.start_le allPlaced_nil trivial trivial

/-! ### All statements -/

theorem keywordStatement_placed (hg : g.Sound) (hp : g.Places source) {placement : Placement}
    {word : String} (hs : s.Within source) (htoken : s.lexeme.token = .word word false) :
    (keywordStatement g ctx placement word).Ensures s fun st _ =>
      st.PlacedAt source s.lexeme.start := by
  simp only [keywordStatement, ensures_bind, ensures_position]
  split
  case h_1 => exact ifStatement_placed hg hp hs
  case h_2 => exact doStatement_placed hp hs
  case h_3 => exact whileStatement_placed hg hp hs
  case h_4 => exact forStatement_placed hg hp hs
  case h_5 => exact jumpStatement_placed hs
  case h_6 => exact jumpStatement_placed hs
  case h_7 => exact withStatement_placed hg hp hs
  case h_8 => exact switchStatement_placed hg hp hs
  case h_9 => exact throwStatement_placed hs
  case h_10 => exact tryStatement_placed hg hp hs
  case h_11 => exact returnStatement_placed hs
  case h_12 =>
    simp only [ensures_bind, ensures_pure]
    refine .of_forall fun _ _ => .of_forall fun _ _ => ?_
    exact Statement.placedAt hs.start_le allPlaced_nil trivial trivial
  case h_13 => exact classDeclaration_placed hg hp hs.start_le hs
  case h_14 => exact functionDeclaration_placed hg hp hs
  case h_15 => exact ensures_bind.2 (.of_forall fun _ _ => variableStatement_placed hs.start_le)
  case h_16 => exact ensures_bind.2 (.of_forall fun _ _ => listedVariables_placed hs.start_le)
  case h_17 => exact letStatement_placed hg hs htoken
  case h_18 => exact exportDeclaration_placed hs
  case h_19 =>
    simp only [ensures_bind, ensures_peek, ensures_ite]
    intro l _
    split
    · exact expressionOrLabel_placed hg hp hs
    · exact importDeclaration_placed hs
  case h_20 =>
    simp only [ensures_bind, ensures_peek, ensures_ite]
    intro l _
    split
    · exact functionDeclaration_placed hg hp hs
    · exact expressionOrLabel_placed hg hp hs
  case h_21 => exact resourceStatement_placed hg hp hs
  case h_22 => exact resourceStatement_placed hg hp hs
  case h_23 => exact expressionOrLabel_placed hg hp hs

theorem statement_placed (hg : g.Sound) (hp : g.Places source) {placement : Placement}
    (hs : s.Within source) :
    (statement g ctx placement).Ensures s fun st _ => st.PlacedAt source s.lexeme.start := by
  simp only [statement, ensures_bind, ensures_current]
  split
  · simp only [ensures_bind, ensures_pure]
    refine (bracedStatements_placed hg hp hs).of fun body s1 h1 => ?_
    exact Statement.placedAt hs.start_le h1.2 trivial trivial
  · simp only [ensures_bind, ensures_pure]
    exact .of_forall fun _ _ => Statement.placedAt hs.start_le allPlaced_nil trivial trivial
  · exact decoratedStatement_placed hg hp hs
  · next htoken => exact keywordStatement_placed hg hp hs htoken
  · exact expressionOrLabel_placed hg hp hs

theorem Productions.places_upTo (n : Nat) : (Productions.upTo n).Places source := by
  induction n with
  | zero => exact fun _ _ _ _ => ensures_unexpected.2 trivial
  | succ n ih => exact fun _ _ _ hs => statement_placed (sound_upTo n) ih hs

end Rebind.Grammar

namespace Rebind.Snippet

open Rebind.Grammar

/-- The nodes of a snippet are placed in its source. -/
theorem Program.parse_placed {source : List Char} {p : Program} (hp : parse source = .ok p) :
    AllPlaced source p.nodes := by
  obtain ⟨-, hp⟩ := parse_eq_ok.1 hp
  obtain ⟨lexeme, hlexeme, hp⟩ := exists_ok_of_bind hp
  obtain ⟨⟨⟨directives, statements⟩, s'⟩, hread, hp⟩ := exists_ok_of_bind hp
  cases hp
  obtain ⟨hhere, hstands⟩ := Lexeme.first_stands hlexeme
  have hs : (State.mk lexeme 0 (Text.byteSize source) [] []).Within source :=
    ⟨⟨hstands, Nat.zero_le _⟩, rfl, hhere, Lexeme.first_scanned hlexeme⟩
  obtain ⟨-, -, hstatements, -⟩ := directivesAndStatements_placed (Productions.sound_upTo _)
    (Productions.places_upTo _) hs _ _ hread
  exact allPlaced_listNodes hstatements

end Rebind.Snippet
