import Rebind.Code
import Rebind.Proofs.Printer

/-!
# The bookkeeping of a printer

`Code.statement` and the functions beside it take the depth as an argument and give a template.
`Statement.commands` is the same walk as commands for a printer, in which no depth is passed on.
What is written before, between and after the parts of a statement has a name that both walks use.

Both are the same, the commands are balanced (`emission_statement` and the theorems beside it), and
so a printer comes out of everything it writes with the depth and level it went in with
(`emission_restores_bookkeeping`).
-/

namespace Rebind

open Rebind.Layout
open Rebind.Snippet

/-! ## Commands for the parts of a snippet -/

open Command Code

mutual

/-- The walk through a statement. -/
def Snippet.Statement.commands (mode : ScopeMode) (role : Role) : Statement → List Command
  | .block start body =>
    if role = .inBraces then listCommands mode.nested body
    else within start (braced (listCommands mode.nested body) ++ written [.newline])
  | .conditional start test consequent alternate =>
    within start (written (headed "if" test) ++
      braced (consequent.commands mode.nested .inBraces) ++ elseCommands mode alternate ++
      written (if role = .afterElse then [] else [.newline]))
  | .whileLoop start test body =>
    within start (written (headed "while" test) ++
      braced (body.commands mode.nested .inBraces) ++ written [.newline])
  | .doLoop start body test =>
    within start (written (Template.fixed "do ") ++
      braced (body.commands mode.nested .inBraces) ++
      written (doTail test))
  | .forLoop start init test update body =>
    let loop := Statement.forLoop start init test update body
    within start (written (registrationUnless role mode loop ++
        forHead mode init test update) ++
      braced (body.commands mode.nested .inBraces) ++ written [.newline])
  | .forIn start target object body =>
    let loop := Statement.forIn start target object body
    within start (written (registrationUnless role mode loop ++
        forInHead mode target object) ++
      braced (body.commands mode.nested .inBraces) ++ written [.newline])
  | .forOf start isAwait target values body =>
    let loop := Statement.forOf start isAwait target values body
    within start (written (registrationUnless role mode loop ++
        forOfHead mode isAwait target values) ++
      braced (body.commands mode.nested .inBraces) ++ written [.newline])
  | .choice start value clauses =>
    within start (written (headed "switch" value) ++
      braced (clauseCommands mode.nested clauses) ++ written [.newline])
  | .attempt start body handler finalizer =>
    within start (written (Template.fixed "try ") ++ braced (listCommands mode.nested body) ++
      handlerCommands mode.nested handler ++ finalizerCommands mode.nested finalizer ++
      written [.newline])
  | .withObject start object body =>
    within start (written (headed "with" object) ++
      braced (body.commands mode.nested .inBraces) ++ written [.newline])
  | .labeled start labels body =>
    if role = .afterLabels then
      written (labelsBefore labels) ++ body.commands mode.nested .afterLabels
    else
      within start (written (registration mode.nested (unlabeled body) ++ labelsBefore labels) ++
        body.commands mode.nested .afterLabels)
  | .returnValue start value =>
    within start (written (returnLine value))
  | .throwValue start value =>
    within start (written (throwLine value))
  | .jump start kind label =>
    within start (written (jumpLine kind label))
  | .expression start value =>
    within start (written (expressionLine value))
  | .idle start => within start []
  | .declaration start d =>
    within start (written
      (registrationUnless role mode (.declaration start d) ++
        variableStatement mode d))
  | .function start callable =>
    within start (match callable.name with
      | none => [.refuse (namelessFunction start)]
      | some name =>
        if mode.redirectsVar then
          written (functionTarget name ++ functionHead callable false) ++
            callableCommands callable ++ written Template.endStatement
        else
          written (functionHead callable true) ++ callableCommands callable ++ written [.newline])
  | .classDeclaration start definition =>
    within start (
      if mode.redirectsLexical then match definition.name with
        | none => [.refuse (namelessClass definition.start)]
        | some name =>
          written (classTarget name) ++ classCommands definition ++ written Template.endStatement
      else classCommands definition ++ written [.newline])
  | .moduleItem start =>
    within start (if mode = .topLevel then []
      else [.refuse (nestedModuleItem start)])

def listCommands (mode : ScopeMode) : List Statement → List Command
  | [] => []
  | s :: rest => s.commands mode .listed ++ listCommands mode rest

def elseCommands (mode : ScopeMode) : Option Statement → List Command
  | none => []
  | some s =>
    if s matches .conditional _ _ _ _ then
      written (Template.fixed " else ") ++ s.commands mode .afterElse
    else written (Template.fixed " else ") ++ braced (s.commands mode.nested .inBraces)

def clauseCommands (mode : ScopeMode) : List Case → List Command
  | [] => []
  | ⟨test, body⟩ :: rest =>
    written (caseLabel test ++ [Step.newline]) ++
      (indented (listCommands mode body) ++ clauseCommands mode rest)

def handlerCommands (mode : ScopeMode) : Option Handler → List Command
  | none => []
  | some ⟨parameter, body⟩ =>
    written (catchHead parameter) ++ braced (listCommands mode body)

def finalizerCommands (mode : ScopeMode) : Option (List Statement) → List Command
  | none => []
  | some body => written (Template.fixed " finally ") ++ braced (listCommands mode body)

def callableCommands : Callable → List Command
  | ⟨_, _, _, _, _, body⟩ => bodyCommands body

def bodyCommands : Body → List Command
  | ⟨start, directives, body⟩ =>
    within start
      (braced (written (directives.flatMap directive) ++ listCommands .functionBody body))

def classCommands : ClassDefinition → List Command
  | ⟨start, decorators, name, heritage, members⟩ =>
    within start (written (classHead ⟨start, decorators, name, heritage, []⟩) ++
      braced (memberCommands members))

def memberCommands : List Element → List Command
  | [] => []
  | e :: rest => e.commands ++ memberCommands rest

def Snippet.Element.commands : Element → List Command
  | .staticBlock start body =>
    within start (written (Template.fixed "static ") ++
      braced (listCommands .functionBody body) ++ written [.newline])
  | .method values isStatic kind name callable =>
    written (methodHead values isStatic kind name callable) ++ callableCommands callable ++
      written [.newline]
  | .field values isStatic isAccessor name value =>
    written (field values isStatic isAccessor name value)

end

open Template (Flat)

/-! ## Every part of a snippet -/

theorem flat_unless (c : Prop) [Decidable c] {t : Template} (ht : Flat t) :
    Flat (if c then [] else t) := by
  split
  · exact Template.flat_nil
  · exact ht

/-- The registration before a statement, unless it stands before the labels, and what follows it. -/
theorem flat_registered (mode : ScopeMode) (role : Role) (s : Statement) {t : Template}
    (ht : Flat t) : Flat (registrationUnless role mode s ++ t) :=
  Template.flat_append.2 ⟨Template.flat_registrationUnless _ _ _, ht⟩

/-- A head, a body between braces and the end of the line, one deeper. -/
private theorem emission_headed {commands : List Command} {x : Nat → Result} {start : Nat}
    {front back : Template} (hfront : Flat front) (hback : Flat back)
    (h : Emission commands x) :
    Emission (within start (written front ++ braced commands ++ written back))
      fun depth => Code.enter depth start >>= fun _ => x (depth + 1) >>= fun t =>
        pure (front ++ Template.braced t ++ back) :=
  (((Emission.written hfront).append h.braced).append (.written hback)).within.of_eq
    fun depth => by simp

mutual

theorem emission_statement (s : Statement) (mode : ScopeMode) (role : Role) :
    Emission (s.commands mode role) fun depth => statement mode depth role s := by
  cases s with
  | block start body =>
    have hbody := emission_statements body mode.nested
    by_cases hrole : role = .inBraces
    · simp only [Statement.commands, statement, if_pos hrole]
      exact hbody.of_eq fun depth => by simp
    · simp only [Statement.commands, statement, if_neg hrole]
      exact (hbody.braced.append (.written Template.flat_newline)).within.of_eq fun depth => by simp
  | conditional start test consequent alternate =>
    have hconsequent := emission_statement consequent mode.nested .inBraces
    have harm := emission_elseArm alternate mode
    have hend : Flat (if role = .afterElse then [] else [Step.newline]) :=
      flat_unless _ Template.flat_newline
    rw [Statement.commands]
    refine ((((Emission.written (Template.flat_write _)).append hconsequent.braced).append
      harm).append (.written hend)).within.of_eq fun depth => ?_
    simp [statement, headed]
  | whileLoop start test body | withObject start test body =>
    rw [Statement.commands]
    refine (emission_headed (Template.flat_write _) Template.flat_newline
      (emission_statement body mode.nested .inBraces)).of_eq fun depth => ?_
    rw [statement]
    rfl
  | doLoop start body test =>
    rw [Statement.commands]
    refine (emission_headed (Template.flat_fixed _) (by simp)
      (emission_statement body mode.nested .inBraces)).of_eq fun depth => ?_
    simp [statement]
  | forLoop start init test update body | forIn start target object body
  | forOf start isAwait target values body =>
    rw [Statement.commands]
    refine (emission_headed (flat_registered _ _ _ (by simp)) Template.flat_newline
      (emission_statement body mode.nested .inBraces)).of_eq fun depth => ?_
    simp [statement]
  | choice start value clauses =>
    rw [Statement.commands]
    refine (emission_headed (Template.flat_write _) Template.flat_newline
      (emission_cases clauses mode.nested)).of_eq fun depth => ?_
    rw [statement]
    rfl
  | attempt start body handler finalizer =>
    rw [Statement.commands]
    refine (((((Emission.written (Template.flat_fixed _)).append
      (emission_statements body mode.nested).braced).append
      (emission_handlerArm handler mode.nested)).append
      (emission_finalizerArm finalizer mode.nested)).append
      (.written Template.flat_newline)).within.of_eq fun depth => ?_
    simp [statement]
  | labeled start labels body =>
    have hbody := emission_statement body mode.nested .afterLabels
    by_cases hrole : role = .afterLabels
    · simp only [Statement.commands, statement, if_pos hrole]
      exact ((Emission.written (Template.flat_write _)).append hbody).of_eq fun depth => by
        simp [labelsBefore]
    · simp only [Statement.commands, statement, if_neg hrole]
      have hfront : Flat (registration mode.nested (unlabeled body) ++ labelsBefore labels) :=
        Template.flat_append.2 ⟨Template.flat_registration _ _, Template.flat_write _⟩
      exact ((Emission.written hfront).append hbody).within.of_eq fun depth => by rfl
  | returnValue | throwValue | expression =>
    simp only [Statement.commands, statement]
    exact (Emission.written (Template.flat_append.2
      ⟨Template.flat_write _, Template.flat_endStatement⟩)).within.of_eq fun depth => rfl
  | jump start kind label =>
    simp only [Statement.commands, statement]
    exact (Emission.written (Template.flat_append.2
      ⟨Template.flat_fixed _, Template.flat_endStatement⟩)).within.of_eq fun depth => rfl
  | idle start =>
    rw [Statement.commands]
    refine (Emission.written Template.flat_nil).within.of_eq fun depth => ?_
    rw [statement]
  | declaration start d =>
    rw [Statement.commands]
    refine (Emission.written (flat_registered _ _ _
      (Template.flat_variableStatement mode d))).within.of_eq fun depth => ?_
    rw [statement]
  | function start callable =>
    have hbody := emission_callableBody callable
    rw [Statement.commands]
    cases hname : callable.name with
    | none =>
      refine (Emission.refuse _).within.of_eq fun depth => ?_
      simp [statement, hname]
    | some name =>
      dsimp only
      split
      · next hvar =>
        refine (((Emission.written (Template.flat_append.2
          ⟨Template.flat_functionTarget _, Template.flat_write _⟩)).append hbody).append
          (.written Template.flat_endStatement)).within.of_eq fun depth => ?_
        simp [statement, hname, hvar, functionHead]
      · next hvar =>
        refine (((Emission.written (Template.flat_write _)).append hbody).append
          (.written Template.flat_newline)).within.of_eq fun depth => ?_
        simp [statement, hname, hvar, functionHead]
  | classDeclaration start definition =>
    have hclass := emission_classDefinition definition
    rw [Statement.commands]
    split
    · next hlexical =>
      cases hname : definition.name with
      | none =>
        refine (Emission.refuse _).within.of_eq fun depth => ?_
        simp [statement, hname, hlexical]
      | some name =>
        refine (((Emission.written (Template.flat_classTarget _)).append hclass).append
          (.written Template.flat_endStatement)).within.of_eq fun depth => ?_
        simp [statement, hname, hlexical]
    · next hlexical =>
      refine (hclass.append (.written Template.flat_newline)).within.of_eq fun depth => ?_
      simp [statement, hlexical]
  | moduleItem start =>
    rw [Statement.commands]
    split
    · next hmode =>
      refine (Emission.written Template.flat_nil).within.of_eq fun depth => ?_
      simp [statement, hmode]
    · next hmode =>
      refine (Emission.refuse _).within.of_eq fun depth => ?_
      simp [statement, hmode]

theorem emission_statements (body : List Statement) (mode : ScopeMode) :
    Emission (listCommands mode body) fun depth => statements mode depth body := by
  cases body with
  | nil =>
    rw [listCommands]
    exact .written Template.flat_nil
  | cons s rest =>
    rw [listCommands]
    exact ((emission_statement s mode .listed).append (emission_statements rest mode)).of_eq
      fun depth => by rw [statements]

theorem emission_elseArm (alternate : Option Statement) (mode : ScopeMode) :
    Emission (elseCommands mode alternate) fun depth => elseArm mode depth alternate := by
  cases alternate with
  | none =>
    rw [elseCommands]
    exact .written Template.flat_nil
  | some s =>
    have hbody := emission_statement s mode.nested .inBraces
    cases s with
    | conditional start test consequent more =>
      rw [elseCommands]
      refine ((Emission.written (Template.flat_fixed _)).append
        (emission_statement _ mode .afterElse)).of_eq fun depth => ?_
      simp [elseArm]
    | _ =>
      simp only [elseCommands, elseArm, Bool.false_eq_true, ↓reduceIte]
      exact ((Emission.written (Template.flat_fixed _)).append hbody.braced).of_eq
        fun depth => by simp

theorem emission_cases (clauses : List Case) (mode : ScopeMode) :
    Emission (clauseCommands mode clauses) fun depth => cases mode depth clauses := by
  cases clauses with
  | nil =>
    rw [clauseCommands]
    exact .written Template.flat_nil
  | cons clause rest =>
    obtain ⟨test, body⟩ := clause
    simp only [clauseCommands]
    refine ((Emission.written (Template.flat_append.2
      ⟨Template.flat_caseLabel _, Template.flat_newline⟩)).append
      ((emission_statements body mode).indented.append (emission_cases rest mode))).of_eq
      fun depth => ?_
    simp [Code.cases]

theorem emission_handlerArm (handler : Option Handler) (mode : ScopeMode) :
    Emission (handlerCommands mode handler) fun depth => handlerArm mode depth handler := by
  cases handler with
  | none =>
    rw [handlerCommands]
    exact .written Template.flat_nil
  | some h =>
    obtain ⟨parameter, body⟩ := h
    simp only [handlerCommands]
    refine ((Emission.written (Template.flat_catchHead _)).append
      (emission_statements body mode).braced).of_eq fun depth => ?_
    simp [handlerArm]

theorem emission_finalizerArm (finalizer : Option (List Statement)) (mode : ScopeMode) :
    Emission (finalizerCommands mode finalizer) fun depth => finalizerArm mode depth finalizer := by
  cases finalizer with
  | none =>
    rw [finalizerCommands]
    exact .written Template.flat_nil
  | some body =>
    rw [finalizerCommands]
    refine ((Emission.written (Template.flat_fixed _)).append
      (emission_statements body mode).braced).of_eq fun depth => ?_
    simp [finalizerArm]

theorem emission_callableBody (callable : Callable) :
    Emission (callableCommands callable) fun depth => callableBody depth callable := by
  obtain ⟨_, _, _, _, _, body⟩ := callable
  rw [callableCommands]
  exact emission_functionBody body

theorem emission_functionBody (body : Body) :
    Emission (bodyCommands body) fun depth => functionBody depth body := by
  obtain ⟨start, directives, inner⟩ := body
  rw [bodyCommands]
  refine ((Emission.written (Template.flat_directives _)).append
    (emission_statements inner .functionBody)).braced.within.of_eq fun depth => ?_
  simp [functionBody]

theorem emission_classDefinition (definition : ClassDefinition) :
    Emission (classCommands definition) fun depth => classDefinition depth definition := by
  obtain ⟨start, decorators, name, heritage, members⟩ := definition
  rw [classCommands]
  refine ((Emission.written (Template.flat_write _)).append
    (emission_elements members).braced).within.of_eq fun depth => ?_
  simp [classDefinition, classHead]

theorem emission_elements (members : List Element) :
    Emission (memberCommands members) fun depth => elements depth members := by
  cases members with
  | nil =>
    rw [memberCommands]
    exact .written Template.flat_nil
  | cons e rest =>
    rw [memberCommands]
    exact ((emission_element e).append (emission_elements rest)).of_eq fun depth => by
      rw [elements]

theorem emission_element (e : Element) :
    Emission e.commands fun depth => element depth e := by
  cases e with
  | staticBlock start body =>
    rw [Element.commands]
    refine (emission_headed (Template.flat_fixed _) Template.flat_newline
      (emission_statements body .functionBody)).of_eq fun depth => ?_
    rw [element]
  | method values isStatic kind name callable =>
    rw [Element.commands]
    refine (((Emission.written (Template.flat_write _)).append
      (emission_callableBody callable)).append (.written Template.flat_newline)).of_eq
      fun depth => ?_
    simp [element, methodHead]
  | field values isStatic isAccessor name value =>
    rw [Element.commands]
    refine (Emission.written (Template.flat_append.2
      ⟨Template.flat_write _, Template.flat_endStatement⟩)).of_eq fun depth => ?_
    rw [element]
    rfl

end

/-! ## Constructs -/

/-- What a printer emits as a whole. -/
inductive Construct where
  | statement (role : Role) (s : Statement)
  | list (body : List Statement)
  /-- A list between braces. -/
  | block (body : List Statement)
  | function (callable : Callable) (isNamed : Bool)
  | classDefinition (definition : ClassDefinition)

namespace Construct

/-- The template of a construct at a depth. -/
def template (mode : ScopeMode) (depth : Nat) : Construct → Result
  | .statement role s => Code.statement mode depth role s
  | .list body => statements mode depth body
  | .block body => return Template.braced (← statements mode depth body)
  | .function callable isNamed =>
    return functionHead callable isNamed ++ (← callableBody depth callable)
  | .classDefinition definition => Code.classDefinition depth definition

/-- Writes the template of a construct at the depth of the printer. -/
def emit (filling : Filling) (source : List Char) (mode : ScopeMode) (p : Printer)
    (c : Construct) : Except RebindError Printer :=
  return p.write filling source (← c.template mode p.depth)

/-- The walk through a construct. -/
def commands (mode : ScopeMode) : Construct → List Command
  | .statement role s => s.commands mode role
  | .list body => listCommands mode body
  | .block body => braced (listCommands mode body)
  | .function callable isNamed =>
    written (functionHead callable isNamed) ++ callableCommands callable
  | .classDefinition definition => classCommands definition

theorem emission (mode : ScopeMode) (c : Construct) :
    Emission (c.commands mode) fun depth => c.template mode depth := by
  cases c with
  | statement role s => exact emission_statement s mode role
  | list body => exact emission_statements body mode
  | block body => exact (emission_statements body mode).braced
  | function callable isNamed =>
    exact ((Emission.written (Template.flat_write _)).append
      (emission_callableBody callable)).of_eq fun depth => by simp [template, functionHead]
  | classDefinition definition => exact emission_classDefinition definition

end Construct

/-- Two printers that differ at most in what they have written and registered so far. -/
structure Printer.Alike (p q : Printer) : Prop where
  depth : p.depth = q.depth
  level : p.layout.level = q.layout.level
  atLineStart : p.layout.atLineStart = q.layout.atLineStart

/-- **Emission is local and restores its bookkeeping.**  A construct is emitted as the printer
obeys the commands for it.  At each of them the depth is within the limit, unless the printer was
deeper to begin with, and no level is taken back that was there before.  If the construct is
emitted, the depth and the level are what they were, and what was written and registered is only
added to.  From two printers that are alike the same is appended and registered, or both refuse
with the same error. -/
theorem emission_restores_bookkeeping (filling : Filling) (source : List Char) (mode : ScopeMode)
    (c : Construct) (p : Printer) :
    c.emit filling source mode p = p.run filling source (c.commands mode) ∧
    p.Along filling source (fun q command => q.depth ≤ max p.depth depthLimit ∧
      (command = .step .dedent → p.layout.level < q.layout.level)) (c.commands mode) ∧
    (∀ p', c.emit filling source mode p = .ok p' →
      p'.depth = p.depth ∧ p'.layout.level = p.layout.level ∧
      (∃ out, p'.layout.text = p.layout.text ++ out) ∧ p'.bindings.Extends p.bindings) ∧
    ∀ q, p.Alike q →
      (∃ e, c.emit filling source mode p = .error e ∧ c.emit filling source mode q = .error e) ∨
      ∃ p' q' out entries,
        c.emit filling source mode p = .ok p' ∧ c.emit filling source mode q = .ok q' ∧
        p'.layout.text = p.layout.text ++ out ∧ q'.layout.text = q.layout.text ++ out ∧
        p'.bindings = p.bindings.enterAll entries ∧ q'.bindings = q.bindings.enterAll entries ∧
        p'.Alike q' := by
  have hemission := c.emission mode
  have hrun : c.emit filling source mode p = p.run filling source (c.commands mode) :=
    (hemission.run_eq filling source p).symm
  refine ⟨hrun, ?_, fun p' hp' => ?_, fun q hpq => ?_⟩
  · exact hemission.balanced.along.mono fun q c hq => ⟨hq.depth_le, hq.dedent⟩
  · obtain ⟨hdepth, hlevel⟩ := hemission.balanced.restores (hrun.symm.trans hp')
    obtain ⟨t, -, ht⟩ := bind_eq_ok.1 hp'
    cases ht
    refine ⟨hdepth, hlevel, ?_, ?_⟩
    · rw [Printer.write_layout]
      exact t.layOut_text filling source p.layout
    · rw [Printer.write_bindings]
      exact Bindings.extends_enterAll _ _
  · unfold Construct.emit
    rw [← hpq.depth]
    cases c.template mode p.depth with
    | error e => exact Or.inl ⟨e, rfl, rfl⟩
    | ok t =>
      obtain ⟨⟨hlevel, hline⟩, out, hp, hq⟩ :=
        Template.layOut_alike ⟨hpq.level, hpq.atLineStart⟩ filling source t
      have hdepth : (p.write filling source t).depth = (q.write filling source t).depth := by
        rw [Printer.write_depth, Printer.write_depth, hpq.depth]
      simp only [← Printer.write_layout] at hlevel hline hp hq
      exact Or.inr ⟨p.write filling source t, q.write filling source t, out, t.registrations,
        rfl, rfl, hp, hq, Printer.write_bindings t, Printer.write_bindings t,
        hdepth, hlevel, hline⟩

/-- At the greatest depth at which there is room for it, a choice gives back the depth. -/
theorem deepest_choice_restores_depth :
    let source := "switch (a) \x7b case b: var c \x7d".toList
    let p : Printer := { layout := { text := "x\n", level := 1 }, depth := 254 }
    let written := "x\n    switch (a) \x7b\n        case b:\n" ++
      "            __module__.global(\"c\");\n            c = void 0;\n    \x7d\n"
    ∃ body p', (parse source).map (·.statements) = .ok body ∧
      (Construct.list body).emit ({} : Options).filling source .topLevelBlock p = .ok p' ∧
      p'.layout.text = written ∧ p'.bindings.global = ["c"] ∧
      p'.depth = 254 ∧ p'.layout.level = 1 := by
  intro source p written
  have hview : (do
      let body := (← (parse source).toOption).statements
      let p' ← ((Construct.list body).emit ({} : Options).filling source .topLevelBlock p).toOption
      return (p'.layout.text, p'.bindings.global)) = some (written, ["c"]) := by
    decide +kernel
  obtain ⟨program, hprogram, hview⟩ := Option.bind_eq_some_iff.1 hview
  obtain ⟨p', hp', hview⟩ := Option.bind_eq_some_iff.1 hview
  obtain ⟨htext, hglobal⟩ := Prod.mk.inj (Option.some.inj hview)
  have hp' := Code.eq_ok_of_toOption hp'
  obtain ⟨-, -, hrestored, -⟩ := emission_restores_bookkeeping ({} : Options).filling source
    .topLevelBlock (.list program.statements) p
  obtain ⟨hdepth, hlevel, -⟩ := hrestored p' hp'
  refine ⟨program.statements, p', ?_, hp', htext, hglobal, hdepth, hlevel⟩
  rw [Code.eq_ok_of_toOption hprogram]
  rfl

end Rebind
