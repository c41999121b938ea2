import Rebind.Proofs.Hoisting
import Rebind.Proofs.Layout
import Rebind.Proofs.Reading.Snippet

/-!
# The code keeps every part of a snippet

The template of a snippet is made of *chunks*: steps that take nothing from the source, and the code
of parts.  Its parts are those that the grammar lists, each once and in order
(`Code.factored_program`), and so no expression is lost, doubled or moved.  Laying out the
template adds nothing but blanks and line ends between the chunks (`written_layOut`).
-/

namespace Rebind

open Rebind.Snippet

/-! ## Chunks -/

/-- The code of a part: the source with the host forms in it replaced.  What stands before a default
value is copied without the blanks at its start. -/
def Snippet.Part.code : Part → Fragment
  | .expression value => Code.expression value
  | .default patternStop value =>
    Code.trimmed (Code.copied patternStop value.span.stop value.hosts)
  | .verbatim span => [Piece.copy span]

/-- Whether a step takes nothing from the source. -/
@[simp] def Step.isGenerated : Step → Bool
  | .write (.copy _) | .write (.copyTrimmed _) => false
  | _ => true

/-- Steps that take nothing from the source. -/
def Template.Generated (t : Template) : Prop :=
  ∀ step ∈ t, step.isGenerated = true

namespace Template

@[simp] theorem generated_nil : Generated [] := nofun

@[simp] theorem generated_cons {step : Step} {t : Template} :
    Generated (step :: t) ↔ step.isGenerated = true ∧ t.Generated :=
  List.forall_mem_cons

@[simp] theorem generated_append {t u : Template} :
    Generated (t ++ u) ↔ t.Generated ∧ u.Generated :=
  List.forall_mem_append

@[simp] theorem generated_fixed {text : String} : Generated (fixed text) := by
  simp [fixed]

@[simp] theorem generated_endStatement : Generated endStatement := by
  simp [endStatement]

end Template

/-- A step that takes nothing from the source, or all that is written for a part. -/
inductive Chunk where
  | generated (step : Step)
  | part (kept : Part)

namespace Chunk

def template : Chunk → Template
  | .generated step => [step]
  | .part kept => Template.write kept.code

def part? : Chunk → Option Part
  | .generated _ => none
  | .part kept => some kept

end Chunk

/-- A template is made of chunks, and the parts among them are the given ones in order. -/
structure Factors (parts : List Part) (chunks : List Chunk) (t : Template) : Prop where
  template_eq : chunks.flatMap Chunk.template = t
  parts_eq : chunks.filterMap Chunk.part? = parts
  generated : ∀ step, Chunk.generated step ∈ chunks → step.isGenerated = true

/-- The given parts are in a template, each once and in order, and nothing else of the source is. -/
def Factored (parts : List Part) (t : Template) : Prop :=
  ∃ chunks, Factors parts chunks t

namespace Factored

variable {xs ys : List Part} {t u : Template} {x y : Fragment}

theorem append (ht : Factored xs t) (hu : Factored ys u) : Factored (xs ++ ys) (t ++ u) := by
  obtain ⟨front, hfront⟩ := ht
  obtain ⟨back, hback⟩ := hu
  refine ⟨front ++ back, ?_, ?_, fun step hstep => ?_⟩
  · rw [List.flatMap_append, hfront.template_eq, hback.template_eq]
  · rw [List.filterMap_append, hfront.parts_eq, hback.parts_eq]
  · rcases List.mem_append.1 hstep with h | h
    · exact hfront.generated step h
    · exact hback.generated step h

theorem of_part (part : Part) : Factored [part] (Template.write part.code) :=
  ⟨[.part part], by simp [Chunk.template], rfl, by simp⟩

theorem of_generated (h : t.Generated) : Factored [] t := by
  refine ⟨t.map .generated, ?_, ?_, fun step hstep => ?_⟩
  · simp [List.flatMap_map, Chunk.template]
  · simp [List.filterMap_map, Function.comp_def, Chunk.part?]
  · obtain ⟨_, hmem, heq⟩ := List.mem_map.1 hstep
    cases heq
    exact h step hmem

theorem nil : Factored [] [] :=
  of_generated Template.generated_nil

theorem append_generated (ht : Factored xs t) (hu : u.Generated) : Factored xs (t ++ u) := by
  simpa using ht.append (of_generated hu)

theorem generated_append (ht : t.Generated) (hu : Factored xs u) : Factored xs (t ++ u) :=
  (of_generated ht).append hu

theorem write_append (hx : Factored xs (Template.write x)) (hy : Factored ys (Template.write y)) :
    Factored (xs ++ ys) (Template.write (x ++ y)) :=
  Template.write_append x y ▸ hx.append hy

theorem write_append_generated (h : Factored xs (Template.write x))
    (hy : (Template.write y).Generated) : Factored xs (Template.write (x ++ y)) :=
  Template.write_append x y ▸ h.append_generated hy

theorem text_append (text : String) (h : Factored xs (Template.write x)) :
    Factored xs (Template.write ([Piece.text text] ++ x)) := by
  have htext : Template.Generated [Step.write (.text text)] := by simp
  exact generated_append htext h

theorem append_text (h : Factored xs (Template.write x)) (text : String) :
    Factored xs (Template.write (x ++ [Piece.text text])) := by
  rw [Template.write_append]
  exact h.append_generated (by simp [Template.write])

theorem expression (value : Expression) :
    Factored [.expression value] (Template.write (Code.expression value)) :=
  of_part (.expression value)

theorem braced (h : Factored xs t) : Factored xs (Template.braced t) :=
  (generated_append (by simp) h).append_generated (by simp)

theorem endStatement (h : Factored xs t) : Factored xs (t ++ Template.endStatement) :=
  h.append_generated Template.generated_endStatement

theorem fixed_append (text : String) (h : Factored xs t) : Factored xs (Template.fixed text ++ t) :=
  generated_append Template.generated_fixed h

theorem newline (h : Factored xs t) : Factored xs (t ++ [Step.newline]) :=
  h.append_generated (by simp)

end Factored

/-! ## Fragments -/

/-- A fragment is put together from texts and from the code of the given parts, each once and in
order. -/
inductive Composed : List Part → Fragment → Prop where
  | nil : Composed [] []
  | text (text : String) : Composed [] [Piece.text text]
  | part (part : Part) : Composed [part] part.code
  | append {xs ys : List Part} {x y : Fragment} (hx : Composed xs x) (hy : Composed ys y) :
    Composed (xs ++ ys) (x ++ y)

namespace Composed

variable {xs ys : List Part} {x y : Fragment}

theorem expression (value : Expression) : Composed [.expression value] (Code.expression value) :=
  .part (.expression value)

theorem text_append (text : String) (h : Composed xs x) : Composed xs ([Piece.text text] ++ x) :=
  (Composed.text text).append h

theorem append_text (h : Composed xs x) (text : String) : Composed xs (x ++ [Piece.text text]) := by
  simpa using h.append (.text text)

theorem factored (h : Composed xs x) : Factored xs (Template.write x) := by
  induction h with
  | nil => exact .nil
  | text text => exact .of_generated (by simp [Template.write])
  | part part => exact .of_part part
  | append _ _ hx hy => exact hx.write_append hy

end Composed

/-- Fragments that are put together from the given parts, each fragment from its own. -/
inductive ComposedEach : List Part → List Fragment → Prop where
  | nil : ComposedEach [] []
  | cons {xs ys : List Part} {x : Fragment} {fragments : List Fragment} (hx : Composed xs x)
      (hrest : ComposedEach ys fragments) : ComposedEach (xs ++ ys) (x :: fragments)

namespace ComposedEach

variable {xs ys : List Part} {fragments more : List Fragment}

theorem map {α : Type} {items : List α} {parts : α → List Part} {code : α → Fragment}
    (h : ∀ item ∈ items, Composed (parts item) (code item)) :
    ComposedEach (items.flatMap parts) (items.map code) := by
  induction items with
  | nil => exact .nil
  | cons item items ih =>
    obtain ⟨hitem, hitems⟩ := List.forall_mem_cons.1 h
    exact .cons hitem (ih hitems)

theorem append (h : ComposedEach xs fragments) (hmore : ComposedEach ys more) :
    ComposedEach (xs ++ ys) (fragments ++ more) := by
  induction h with
  | nil => exact hmore
  | cons hx _ ih =>
    rw [List.append_assoc]
    exact .cons hx ih

theorem joined (h : ComposedEach xs fragments) (separator : String) :
    Composed xs (Code.joined separator fragments) := by
  induction h with
  | nil => exact .nil
  | cons hx hrest ih =>
    cases hrest with
    | nil => simpa [Code.joined] using hx
    | cons => simpa [Code.joined] using hx.append (ih.text_append separator)

end ComposedEach

namespace Code

/-! ## Patterns and declarations -/

theorem composed_key (name : Key) : Composed name.parts (key name) := by
  cases name with
  | plain span => exact .part (.verbatim span)
  | computed value => exact ((Composed.expression value).text_append "[").append_text "]"

theorem composed_withRest (isEmpty : Bool) {xs : List Part} {rest : Fragment}
    (h : Composed xs rest) : Composed xs (withRest isEmpty rest) := by
  have hrest := h.text_append "..."
  cases isEmpty with
  | true => exact hrest
  | false => exact hrest.text_append ", "

mutual

/-- The code of a pattern has its parts, each once and in order. -/
theorem composed_pattern (p : Pattern) : Composed p.parts (pattern p) := by
  cases p with
  | name text span => exact .text text
  | array span elements rest =>
    have helements := (composed_patternElements elements).joined ", "
    cases rest with
    | none =>
      simp only [Pattern.parts, restParts, List.append_nil, pattern]
      refine .append_text ?_ "]"
      split
      · exact (helements.text_append "[").append_text ","
      · exact (List.append_nil _).symm ▸ helements.text_append "["
    | some rest =>
      simp only [Pattern.parts, restParts, pattern]
      exact ((helements.text_append "[").append
        (composed_withRest _ (composed_pattern rest))).append_text "]"
  | object span properties rest =>
    have hproperties := (composed_patternProperties properties).joined ", "
    cases rest with
    | none =>
      simp only [Pattern.parts, restParts, List.append_nil, pattern]
      exact (hproperties.text_append _).append_text _
    | some rest =>
      simp only [Pattern.parts, restParts, pattern]
      exact ((hproperties.text_append _).append
        (composed_withRest _ (composed_pattern rest))).append_text _
  | withDefault target value =>
    exact ((composed_pattern target).append_text " = ").append (.expression value)

theorem composed_patternElements (elements : List (Option Pattern)) :
    ComposedEach (elementParts elements) (patternElements elements) := by
  match elements with
  | [] => exact .nil
  | none :: elements => exact .cons .nil (composed_patternElements elements)
  | some element :: elements =>
    exact .cons (composed_pattern element) (composed_patternElements elements)

theorem composed_patternProperties (properties : List (Key × Pattern)) :
    ComposedEach (propertyParts properties) (patternProperties properties) := by
  match properties with
  | [] => exact .nil
  | (name, value) :: properties =>
    exact .cons (((composed_key name).append_text ": ").append (composed_pattern value))
      (composed_patternProperties properties)

end

theorem composed_parameter (p : Parameter) : Composed p.parts (parameter p) := by
  obtain ⟨target, value⟩ := p
  cases value with
  | none => simpa [Parameter.parts, parameter] using composed_pattern target
  | some value =>
    exact ((composed_pattern target).append_text " ").append
      (.part (.default target.span.stop value))

theorem composed_parameters (callable : Callable) :
    Composed (callable.parameters.flatMap Parameter.parts ++ restParts callable.rest)
      (parameters callable) := by
  have hparameters : ComposedEach (callable.parameters.flatMap Parameter.parts)
      (callable.parameters.map parameter) := .map fun p _ => composed_parameter p
  have hrest : ComposedEach (callable.rest.toList.flatMap Pattern.parts)
      (callable.rest.toList.map fun rest => .text "..." :: pattern rest) :=
    .map fun rest _ => (composed_pattern rest).text_append "..."
  have hparts : callable.rest.toList.flatMap Pattern.parts = restParts callable.rest := by
    cases callable.rest <;> simp [restParts]
  exact hparts ▸ (hparameters.append hrest).joined ", "

theorem composed_declaration (d : Declaration) : Composed d.parts (declaration d) := by
  refine .text_append _ ((ComposedEach.map fun declarator _ => ?_).joined ", ")
  obtain ⟨target, value⟩ := declarator
  cases value with
  | none => simpa [Declarator.parts, valueParts] using composed_pattern target
  | some value =>
    exact (composed_pattern target).append ((Composed.expression value).text_append " = ")

/-- A value, or the word that stands for one. -/
theorem composed_valueOrVoid (value : Option Expression) :
    Composed (valueParts value) (valueOrVoid value) := by
  cases value with
  | none => exact .text "void 0"
  | some value => exact .expression value

theorem composed_assignments (d : Declaration) : Composed d.parts (assignments d) := by
  refine (ComposedEach.map fun declarator _ => ?_).joined ", "
  obtain ⟨target, value⟩ := declarator
  have hassignment : Composed (Declarator.parts ⟨target, value⟩)
      (pattern target ++ [Piece.text " = "] ++ valueOrVoid value) :=
    ((composed_pattern target).append_text " = ").append (composed_valueOrVoid value)
  cases target with
  | object => exact (hassignment.text_append "(").append_text ")"
  | _ => exact hassignment

/-! ## Heads -/

theorem factored_optionalValue (value : Option Expression) :
    Factored (valueParts value) (Template.write (optionalValue value)) := by
  cases value with
  | none => exact .nil
  | some value => exact (Factored.expression value).text_append " "

theorem factored_headed (word : String) (value : Expression) :
    Factored [.expression value] (headed word value) :=
  ((Factored.expression value).text_append _).append_text _

theorem factored_doTail (test : Expression) : Factored [.expression test] (doTail test) :=
  (((Factored.expression test).text_append " while (").append_text ")").endStatement

theorem factored_loopStart (mode : ScopeMode) (init : Option LoopStart) :
    Factored (startParts init) (Template.write ((init.map (loopStart mode)).getD [])) := by
  match init with
  | none => exact .nil
  | some (.expression value) => exact .expression value
  | some (.declaration d) =>
    simp only [Option.map_some, Option.getD_some, loopStart]
    split
    · exact (composed_assignments d).factored
    · exact (composed_declaration d).factored

theorem factored_forHead (mode : ScopeMode) (init : Option LoopStart)
    (test update : Option Expression) :
    Factored (startParts init ++ valueParts test ++ valueParts update)
      (forHead mode init test update) := by
  have htest := ((factored_optionalValue test).text_append ";").append_text ";"
  have htail := (htest.write_append (factored_optionalValue update)).append_text ") "
  rw [List.append_assoc]
  exact ((factored_loopStart mode init).text_append "for (").append htail

/-- Variables that a loop over keys or values makes properties keep their first pattern only. -/
theorem factored_assignedTarget (isOf : Bool) (d : Declaration) :
    Factored ((d.declarators.take 1).flatMap (·.target.parts))
      (Template.write (assignedTarget isOf d)) := by
  cases hd : d.declarators with
  | nil =>
    rw [assignedTarget, hd]
    exact .nil
  | cons first _ =>
    rw [assignedTarget_cons isOf hd, List.take_succ_cons, List.take_zero, List.flatMap_singleton]
    split
    · next hasync =>
      obtain ⟨span, htarget⟩ := pattern_eq_text.1 hasync.2
      rw [htarget]
      exact .of_generated (by simp [Template.write])
    · exact (composed_pattern first.target).factored

theorem factored_loopTarget {mode : ScopeMode} {inFunction : Bool}
    (hmode : inFunction = !mode.redirectsVar) (isOf : Bool) (target : LoopTarget) :
    Factored (target.parts inFunction) (Template.write (loopTarget mode isOf target)) := by
  cases target with
  | place value => exact .expression value
  | declaration d =>
    have hredirects : redirects mode d = true ↔ d.kind = .variable ∧ !inFunction := by
      simp [redirects, hmode]
    simp only [LoopTarget.parts, loopTarget]
    split
    · next h =>
      rw [if_pos (hredirects.2 h)]
      exact factored_assignedTarget isOf d
    · next h =>
      rw [if_neg (mt hredirects.1 h)]
      exact (composed_declaration d).factored

theorem factored_targetTail (word : String) (value : Expression) :
    Factored [.expression value] (targetTail word value) :=
  ((Factored.expression value).text_append word).append_text ") "

theorem factored_forInHead {mode : ScopeMode} {inFunction : Bool}
    (hmode : inFunction = !mode.redirectsVar) (target : LoopTarget) (object : Expression) :
    Factored (target.parts inFunction ++ [.expression object]) (forInHead mode target object) :=
  ((factored_loopTarget hmode false target).text_append "for (").append
    (factored_targetTail " in " object)

theorem factored_forOfHead {mode : ScopeMode} {inFunction : Bool}
    (hmode : inFunction = !mode.redirectsVar) (isAwait : Bool) (target : LoopTarget)
    (values : Expression) :
    Factored (target.parts inFunction ++ [.expression values])
      (forOfHead mode isAwait target values) :=
  ((factored_loopTarget hmode true target).text_append _).append
    (factored_targetTail " of " values)

/-- A word that is written on a condition. -/
theorem generated_word (c : Prop) [Decidable c] (word : String) :
    (Template.write (if c then [Piece.text word] else [])).Generated := by
  split <;> simp [Template.write]

theorem factored_functionHead (callable : Callable) (isNamed : Bool) :
    Factored (callable.parameters.flatMap Parameter.parts ++ restParts callable.rest)
      (functionHead callable isNamed) := by
  refine .append_text ?_ ") "
  rw [Template.write_append]
  refine .generated_append ?_ (composed_parameters callable).factored
  simp only [Template.write_append, Template.generated_append, generated_word]
  cases callable.name <;> cases isNamed <;> simp [Template.write]

theorem factored_decorators (values : List Expression) :
    Factored (values.map .expression) (Template.write (decorators values)) := by
  induction values with
  | nil => exact .nil
  | cons value values ih =>
    exact (((Factored.expression value).text_append "@").append_text " ").write_append ih

theorem factored_methodHead (values : List Expression) (isStatic : Bool) (kind : MethodKind)
    (name : Key) (callable : Callable) :
    Factored (values.map .expression ++ name.parts ++
        (callable.parameters.flatMap Parameter.parts ++ restParts callable.rest))
      (methodHead values isStatic kind name callable) := by
  have hwords := (((factored_decorators values).write_append_generated
    (generated_word (isStatic = true) "static ")).write_append_generated
    (generated_word (callable.isAsync = true) "async ")).write_append_generated
    (generated_word (callable.isGenerator = true) "*")
  have hname (word : String) :=
    ((hwords.append_text word).write_append (composed_key name).factored).append_text "("
  exact ((hname _).write_append (composed_parameters callable).factored).append_text ") "

theorem factored_field (values : List Expression) (isStatic isAccessor : Bool) (name : Key)
    (value : Option Expression) :
    Factored (values.map .expression ++ name.parts ++ valueParts value)
      (field values isStatic isAccessor name value) := by
  have hwords := ((factored_decorators values).write_append_generated
    (generated_word (isStatic = true) "static ")).write_append_generated
    (generated_word (isAccessor = true) "accessor ")
  have hname := (hwords.write_append (composed_key name).factored).append_text " = "
  exact (hname.write_append (composed_valueOrVoid value).factored).endStatement

theorem factored_classHead (definition : ClassDefinition) :
    Factored (definition.decorators.map .expression ++ valueParts definition.heritage)
      (classHead definition) := by
  obtain ⟨start, values, name, heritage, members⟩ := definition
  have hclass := (factored_decorators values).append_text "class "
  refine (hclass.write_append_generated ?_).write_append ?_
  · cases name <;> simp [Template.write]
  · cases heritage with
    | none => exact .nil
    | some value => exact ((Factored.expression value).text_append "extends ").append_text " "

/-! ## Statements -/

theorem factored_caseLabel (test : Option Expression) :
    Factored (valueParts test) (caseLabel test) := by
  cases test with
  | none => exact .of_generated Template.generated_fixed
  | some test => exact ((Factored.expression test).text_append "case ").append_text ":"

theorem generated_registration (sink : Sink) (names : List String) :
    (Template.registration sink names).Generated := by
  unfold Template.registration
  split
  · exact Template.generated_nil
  · simp

theorem generated_registrationUnless (role : Role) (mode : ScopeMode) (s : Statement) :
    (registrationUnless role mode s).Generated := by
  unfold registrationUnless
  split
  · exact Template.generated_nil
  · exact generated_registration _ _

theorem generated_labelsBefore (labels : List String) : (labelsBefore labels).Generated := by
  intro step hstep
  simp only [labelsBefore, Template.write, List.map_map, List.mem_map] at hstep
  obtain ⟨label, -, rfl⟩ := hstep
  rfl

theorem factored_directives (spans : List Text.Span) :
    Factored (spans.map .verbatim) (spans.flatMap directive) := by
  induction spans with
  | nil => exact .nil
  | cons span spans ih => exact (Factored.of_part (.verbatim span)).endStatement.append ih

theorem factored_variableStatement (mode : ScopeMode) (d : Declaration) :
    Factored d.parts (variableStatement mode d) := by
  unfold variableStatement
  split
  · refine .endStatement (.generated_append ?_ (composed_assignments d).factored)
    rw [Template.generated_append]
    refine ⟨generated_registration _ _, ?_⟩
    split <;> simp
  · split
    · exact (composed_assignments d).factored.endStatement
    · exact (composed_declaration d).factored.endStatement

theorem redirectsVar_nested (mode : ScopeMode) : mode.nested.redirectsVar = mode.redirectsVar := by
  cases mode <;> rfl

theorem callableParts_eq (callable : Callable) :
    callableParts callable = callable.parameters.flatMap Parameter.parts ++
      restParts callable.rest ++ bodyParts callable.body := by
  cases callable
  rfl

mutual

/-- A statement that has a template has all its parts there. -/
theorem factored_statement (s : Statement) {mode : ScopeMode} {depth : Nat} {role : Role}
    {inFunction : Bool} {t : Template} (h : statement mode depth role s = .ok t)
    (hmode : inFunction = !mode.redirectsVar) : Factored (s.parts inFunction) t := by
  have hnested : inFunction = !mode.nested.redirectsVar := by rw [redirectsVar_nested, hmode]
  cases s with
  | block start body =>
    rw [statement_block_ok] at h
    split at h
    · exact factored_statements body h hnested
    · obtain ⟨-, inner, hinner, rfl⟩ := h
      exact (factored_statements body hinner hnested).braced.newline
  | conditional start test consequent alternate =>
    obtain ⟨-, inner, hinner, arm, harm, rfl⟩ := statement_conditional_ok.1 h
    have hbody := (factored_headed "if" test).append
      (factored_statement consequent hinner hnested).braced
    have hall := hbody.append (factored_elseArm alternate harm hmode)
    refine .append_generated (by simpa [Statement.parts] using hall) ?_
    split <;> simp
  | whileLoop start test body =>
    obtain ⟨-, inner, hinner, rfl⟩ := statement_whileLoop_ok.1 h
    exact ((factored_headed "while" test).append
      (factored_statement body hinner hnested).braced).newline
  | doLoop start body test =>
    obtain ⟨-, inner, hinner, rfl⟩ := statement_doLoop_ok.1 h
    have hbody := (factored_statement body hinner hnested).braced
    exact (hbody.fixed_append "do ").append (factored_doTail test)
  | forLoop start init test update body =>
    obtain ⟨-, inner, hinner, rfl⟩ := statement_forLoop_ok.1 h
    have hhead := factored_forHead mode init test update
    exact ((Factored.generated_append (generated_registrationUnless _ _ _) hhead).append
      (factored_statement body hinner hnested).braced).newline
  | forIn start target object body =>
    obtain ⟨-, inner, hinner, rfl⟩ := statement_forIn_ok.1 h
    have hhead := factored_forInHead hmode target object
    rw [Statement.parts, List.append_cons]
    exact ((Factored.generated_append (generated_registrationUnless _ _ _) hhead).append
      (factored_statement body hinner hnested).braced).newline
  | forOf start isAwait target values body =>
    obtain ⟨-, inner, hinner, rfl⟩ := statement_forOf_ok.1 h
    have hhead := factored_forOfHead hmode isAwait target values
    rw [Statement.parts, List.append_cons]
    exact ((Factored.generated_append (generated_registrationUnless _ _ _) hhead).append
      (factored_statement body hinner hnested).braced).newline
  | choice start value clauses =>
    obtain ⟨-, inner, hinner, rfl⟩ := statement_choice_ok.1 h
    exact ((factored_headed "switch" value).append
      (factored_cases clauses hinner hnested).braced).newline
  | attempt start body handler finalizer =>
    obtain ⟨-, inner, hinner, caught, hcaught, final, hfinal, rfl⟩ := statement_attempt_ok.1 h
    have hbody := (factored_statements body hinner hnested).braced.fixed_append "try "
    exact ((hbody.append (factored_handlerArm handler hcaught hnested)).append
      (factored_finalizerArm finalizer hfinal hnested)).newline
  | withObject start object body =>
    obtain ⟨-, inner, hinner, rfl⟩ := statement_withObject_ok.1 h
    exact ((factored_headed "with" object).append
      (factored_statement body hinner hnested).braced).newline
  | labeled start labels body =>
    rw [statement_labeled_ok] at h
    split at h
    · obtain ⟨inner, hinner, rfl⟩ := h
      exact .generated_append (generated_labelsBefore labels)
        (factored_statement body hinner hnested)
    · obtain ⟨-, inner, hinner, rfl⟩ := h
      refine .generated_append ?_ (factored_statement body hinner hnested)
      exact Template.generated_append.2 ⟨generated_registration _ _, generated_labelsBefore labels⟩
  | returnValue start value =>
    obtain ⟨-, rfl⟩ := statement_returnValue_ok.1 h
    exact ((factored_optionalValue value).text_append "return").endStatement
  | throwValue start value =>
    obtain ⟨-, rfl⟩ := statement_throwValue_ok.1 h
    exact ((Factored.expression value).text_append "throw ").endStatement
  | jump start kind label =>
    obtain ⟨-, rfl⟩ := statement_jump_ok.1 h
    exact .of_generated (by simp [jumpLine])
  | expression start value =>
    obtain ⟨-, rfl⟩ := statement_expression_ok.1 h
    exact (Factored.expression value).endStatement
  | idle start =>
    obtain ⟨-, rfl⟩ := statement_idle_ok.1 h
    exact .nil
  | declaration start d =>
    obtain ⟨-, rfl⟩ := statement_declaration_ok.1 h
    exact .generated_append (generated_registrationUnless _ _ _) (factored_variableStatement mode d)
  | function start callable =>
    obtain ⟨-, name, -, body, hbody, rfl⟩ := statement_function_ok.1 h
    have hinner := factored_callableBody callable hbody
    rw [Statement.parts, callableParts_eq]
    split
    · refine .endStatement (.append (.generated_append ?_ ?_) hinner)
      · simp [functionTarget]
      · exact factored_functionHead callable false
    · exact ((factored_functionHead callable true).append hinner).newline
  | classDeclaration start definition =>
    obtain ⟨-, hclass⟩ := statement_classDeclaration_ok.1 h
    split at hclass
    · obtain ⟨name, -, inner, hinner, rfl⟩ := hclass
      refine .endStatement (.generated_append ?_ (factored_classDefinition definition hinner))
      exact Template.generated_append.2
        ⟨generated_registration _ _, Template.generated_fixed⟩
    · obtain ⟨inner, hinner, rfl⟩ := hclass
      exact (factored_classDefinition definition hinner).newline
  | moduleItem start =>
    obtain ⟨-, -, rfl⟩ := statement_moduleItem_ok.1 h
    exact .nil

theorem factored_statements (body : List Statement) {mode : ScopeMode} {depth : Nat}
    {inFunction : Bool} {t : Template} (h : statements mode depth body = .ok t)
    (hmode : inFunction = !mode.redirectsVar) : Factored (listParts inFunction body) t := by
  cases body with
  | nil =>
    cases h
    exact .nil
  | cons s rest =>
    obtain ⟨first, hfirst, others, hothers, rfl⟩ := statements_cons_ok.1 h
    exact (factored_statement s hfirst hmode).append (factored_statements rest hothers hmode)

theorem factored_elseArm (alternate : Option Statement) {mode : ScopeMode} {depth : Nat}
    {inFunction : Bool} {t : Template} (h : elseArm mode depth alternate = .ok t)
    (hmode : inFunction = !mode.redirectsVar) :
    Factored (alternateParts inFunction alternate) t := by
  cases alternate with
  | none =>
    rw [elseArm, ok_eq_ok] at h
    exact h ▸ .nil
  | some s =>
    have hnested : inFunction = !mode.nested.redirectsVar := by rw [redirectsVar_nested, hmode]
    cases s with
    | conditional =>
      obtain ⟨inner, hinner, rfl⟩ := elseArm_conditional_ok.1 h
      exact (factored_statement _ hinner hmode).fixed_append _
    | _ =>
      obtain ⟨inner, hinner, rfl⟩ := (elseArm_body_ok (by simp)).1 h
      exact (factored_statement _ hinner hnested).braced.fixed_append _

theorem factored_cases (clauses : List Case) {mode : ScopeMode} {depth : Nat}
    {inFunction : Bool} {t : Template} (h : cases mode depth clauses = .ok t)
    (hmode : inFunction = !mode.redirectsVar) : Factored (clauseParts inFunction clauses) t := by
  cases clauses with
  | nil =>
    rw [cases, ok_eq_ok] at h
    exact h ▸ .nil
  | cons clause rest =>
    obtain ⟨test, body⟩ := clause
    obtain ⟨inner, hinner, others, hothers, rfl⟩ := cases_cons_ok.1 h
    have hlabel := (factored_caseLabel test).append_generated
      (show Template.Generated [Step.newline, .indent] by simp)
    have hclause := (hlabel.append (factored_statements body hinner hmode)).append_generated
      (show Template.Generated [Step.dedent] by simp)
    exact hclause.append (factored_cases rest hothers hmode)

theorem factored_handlerArm (handler : Option Handler) {mode : ScopeMode} {depth : Nat}
    {inFunction : Bool} {t : Template} (h : handlerArm mode depth handler = .ok t)
    (hmode : inFunction = !mode.redirectsVar) : Factored (handlerParts inFunction handler) t := by
  cases handler with
  | none =>
    rw [handlerArm, ok_eq_ok] at h
    exact h ▸ .nil
  | some handler =>
    obtain ⟨parameter, body⟩ := handler
    obtain ⟨inner, hinner, rfl⟩ := handlerArm_some_ok.1 h
    refine .append (.text_append " catch " ?_) (factored_statements body hinner hmode).braced
    cases parameter with
    | none => exact .nil
    | some p => exact ((composed_pattern p).factored.text_append "(").append_text ") "

theorem factored_finalizerArm (finalizer : Option (List Statement)) {mode : ScopeMode}
    {depth : Nat} {inFunction : Bool} {t : Template} (h : finalizerArm mode depth finalizer = .ok t)
    (hmode : inFunction = !mode.redirectsVar) :
    Factored (finalizerParts inFunction finalizer) t := by
  cases finalizer with
  | none =>
    rw [finalizerArm, ok_eq_ok] at h
    exact h ▸ .nil
  | some body =>
    obtain ⟨inner, hinner, rfl⟩ := finalizerArm_some_ok.1 h
    exact (factored_statements body hinner hmode).braced.fixed_append _

theorem factored_callableBody (callable : Callable) {depth : Nat} {t : Template}
    (h : callableBody depth callable = .ok t) : Factored (bodyParts callable.body) t := by
  obtain ⟨isAsync, isGenerator, name, parameters, rest, body⟩ := callable
  exact factored_functionBody body h

theorem factored_functionBody (body : Body) {depth : Nat} {t : Template}
    (h : functionBody depth body = .ok t) : Factored (bodyParts body) t := by
  obtain ⟨start, directives, body⟩ := body
  obtain ⟨-, inner, hinner, rfl⟩ := functionBody_ok.1 h
  exact ((factored_directives directives).append (factored_statements body hinner rfl)).braced

theorem factored_classDefinition (definition : ClassDefinition) {depth : Nat} {t : Template}
    (h : classDefinition depth definition = .ok t) : Factored (classParts definition) t := by
  obtain ⟨start, decorators, name, heritage, members⟩ := definition
  obtain ⟨-, inner, hinner, rfl⟩ := classDefinition_ok.1 h
  exact (factored_classHead ⟨start, decorators, name, heritage, members⟩).append
    (factored_elements members hinner).braced

theorem factored_elements (members : List Element) {depth : Nat} {t : Template}
    (h : elements depth members = .ok t) : Factored (elementsParts members) t := by
  cases members with
  | nil =>
    rw [elements, ok_eq_ok] at h
    exact h ▸ .nil
  | cons e rest =>
    obtain ⟨first, hfirst, others, hothers, rfl⟩ := elements_cons_ok.1 h
    exact (factored_element e hfirst).append (factored_elements rest hothers)

theorem factored_element (e : Element) {depth : Nat} {t : Template}
    (h : element depth e = .ok t) : Factored e.parts t := by
  cases e with
  | staticBlock start body =>
    obtain ⟨-, inner, hinner, rfl⟩ := element_staticBlock_ok.1 h
    exact ((factored_statements body hinner rfl).braced.fixed_append _).newline
  | method values isStatic kind name callable =>
    obtain ⟨body, hbody, rfl⟩ := element_method_ok.1 h
    have hmethod := (factored_methodHead values isStatic kind name callable).append
      (factored_callableBody callable hbody)
    rw [Element.parts, callableParts_eq]
    simpa only [List.append_assoc] using hmethod.newline
  | field values isStatic isAccessor name value =>
    obtain rfl := element_field_ok.1 h
    exact factored_field values isStatic isAccessor name value

end

/-! ## Snippets -/

theorem factored_returned {xs : List Part} {value : Fragment}
    (h : Factored xs (Template.write value)) : Factored xs (returned value) :=
  (h.text_append "return ").endStatement

theorem factored_directivesOnly (directives : List Text.Span) :
    Factored (directives.map .verbatim) (directivesOnly directives) := by
  rcases List.eq_nil_or_concat directives with rfl | ⟨front, last, rfl⟩
  · exact .nil
  · have hlast : Factored [.verbatim last] (returned [Piece.copy last]) :=
      factored_returned (.of_part (.verbatim last))
    simpa [directivesOnly] using (factored_directives front).append hlast

theorem factored_template {own : OwnStatement} {t : Template} (h : own.template = .ok t) :
    Factored (own.statement.parts false) t := by
  obtain ⟨s, isLast⟩ := own
  have hstatement (h : statement .topLevel 0 .listed s = .ok t) : Factored (s.parts false) t :=
    factored_statement s h rfl
  cases s with
  | expression start value =>
    cases isLast with
    | true =>
      obtain rfl := ok_eq_ok.1 h
      exact factored_returned (.expression value)
    | false => exact hstatement h
  | _ => exact hstatement h

theorem factored_ownTemplates {own : List OwnStatement} {t : Template}
    (h : ownTemplates own = .ok t) : Factored (own.flatMap (·.statement.parts false)) t := by
  induction own generalizing t with
  | nil =>
    obtain rfl := pure_eq_ok.1 h
    exact .nil
  | cons s own ih =>
    rw [← List.singleton_append, ownTemplates_append, ownTemplates_singleton] at h
    simp only [bind_eq_ok, pure_eq_ok] at h
    obtain ⟨first, hfirst, rest, hrest, rfl⟩ := h
    exact (factored_template hfirst).append (ih hrest)

/-- The template of a snippet whose statements keep their order has all parts of the snippet. -/
theorem factored_program {p : Program} {t : Template} (h : program false p = .ok t) :
    Factored p.parts t := by
  by_cases hempty : p.statements = []
  · have hparts : p.parts = p.directives.map .verbatim := by
      simp [Program.parts, hempty, listParts]
    simp only [program, hempty, List.getLast?_nil] at h
    obtain rfl := ok_eq_ok.1 h
    rw [hparts]
    exact factored_directivesOnly p.directives
  · simp only [program_eq false hempty, bind_eq_ok, pure_eq_ok] at h
    obtain ⟨own, hown, rfl⟩ := h
    have hstatements : (ownWritten false p).flatMap (·.statement.parts false) =
        listParts false p.statements := by
      rw [listParts_eq, ← map_statement_ownStatements p.statements, List.flatMap_map]
      rfl
    rw [Program.parts, ← hstatements]
    exact (factored_directives p.directives).append (factored_ownTemplates hown)

end Code

/-! ## Laid-out code -/

/-- The text of a part in the code. -/
def Snippet.Part.text (filling : Filling) (source : List Char) (part : Part) : String :=
  String.join (part.code.map (Piece.fill filling source))

/-- A text is that of chunks one after the other.  Nothing stands between them but the blanks at the
start of lines; steps that are no pieces of text write line ends or nothing. -/
inductive Written (filling : Filling) (source : List Char) : List Chunk → String → Prop where
  | nil : Written filling source [] ""
  | part {chunks : List Chunk} {rest : String} (kept : Part) (blanks : Nat)
      (hrest : Written filling source chunks rest) :
    Written filling source (.part kept :: chunks)
      ("".pushn ' ' blanks ++ kept.text filling source ++ rest)
  | piece {chunks : List Chunk} {rest : String} (piece : Piece) (blanks : Nat)
      (hrest : Written filling source chunks rest) :
    Written filling source (.generated (.write piece) :: chunks)
      ("".pushn ' ' blanks ++ piece.fill filling source ++ rest)
  | lineEnd {chunks : List Chunk} {rest : String} {step : Step}
      (hstep : step = .newline ∨ step = .freshLine) (hrest : Written filling source chunks rest) :
    Written filling source (.generated step :: chunks) ("\n" ++ rest)
  | nothing {chunks : List Chunk} {rest : String} {step : Step}
      (hstep : step ≠ .newline ∧ ∀ piece, step ≠ .write piece)
      (hrest : Written filling source chunks rest) :
    Written filling source (.generated step :: chunks) rest

/-- A chunk writes its text before whatever is written after it. -/
theorem written_chunk (filling : Filling) (source : List Char) (chunk : Chunk)
    (state : Layout.State) :
    ∃ text, (Template.layOut filling source state chunk.template).text = state.text ++ text ∧
      ∀ {chunks rest}, Written filling source chunks rest →
        Written filling source (chunk :: chunks) (text ++ rest) := by
  cases chunk with
  | part kept =>
    obtain ⟨blanks, htext⟩ :=
      state.run_write filling.indentWidth (kept.text filling source)
    refine ⟨_, ?_, .part kept blanks⟩
    rw [← htext, Chunk.template, Template.layOut_write]
    rfl
  | generated step =>
    have hnothing (hstep : step ≠ .newline ∧ ∀ piece, step ≠ .write piece) {chunks rest}
        (hrest : Written filling source chunks rest) :
        Written filling source (.generated step :: chunks) ("" ++ rest) := by
      simpa using hrest.nothing hstep
    cases step with
    | write piece =>
      obtain ⟨blanks, htext⟩ := state.run_write filling.indentWidth (piece.fill filling source)
      exact ⟨_, htext, .piece piece blanks⟩
    | newline => exact ⟨"\n", rfl, .lineEnd (.inl rfl)⟩
    | freshLine =>
      have hrun : Template.layOut filling source state [Step.freshLine] =
          if state.atLineStart then state
          else { state with text := state.text ++ "\n", atLineStart := true } := rfl
      rw [Chunk.template, hrun]
      split
      · exact ⟨"", String.append_empty.symm, hnothing ⟨nofun, nofun⟩⟩
      · exact ⟨"\n", rfl, .lineEnd (.inr rfl)⟩
    | indent | dedent | enter =>
      exact ⟨"", String.append_empty.symm, hnothing ⟨nofun, nofun⟩⟩

/-- Laying out a template writes its chunks one after the other. -/
theorem written_layOut (filling : Filling) (source : List Char) (chunks : List Chunk)
    (state : Layout.State) :
    ∃ text, (Template.layOut filling source state (chunks.flatMap Chunk.template)).text =
        state.text ++ text ∧ Written filling source chunks text := by
  induction chunks generalizing state with
  | nil => exact ⟨"", by simp, .nil⟩
  | cons chunk chunks ih =>
    obtain ⟨first, hfirst, hwritten⟩ := written_chunk filling source chunk state
    obtain ⟨rest, hrest, hrests⟩ := ih (Template.layOut filling source state chunk.template)
    refine ⟨first ++ rest, ?_, hwritten hrests⟩
    rw [List.flatMap_cons, Template.layOut_append, hrest, hfirst, String.append_assoc]

/-- **Every part of a snippet is in its code once and in order.**  The code of a snippet whose
statements keep their order is made of chunks: texts that take nothing from the source, and the
rewritten texts of the parts that the grammar lists, each exactly once.  In the code the parts have
the order that they have in the source, where no two of them overlap. -/
theorem parts_are_kept_in_order (options : Options) (hhoist : options.hoistFunctions = false)
    {source : String} {out : Output} (h : rebind options source = .ok out) :
    ∃ p t chunks, parse source.toList = .ok p ∧ Code.program false p = .ok t ∧
      Factors p.parts chunks t ∧ Written options.filling source.toList chunks out.code ∧
      (∀ span ∈ p.parts.map Part.span, span.start < span.stop) ∧
      (p.parts.map Part.span).Pairwise fun a b => a.stop ≤ b.start := by
  obtain ⟨t, ht, hout⟩ := Code.bind_eq_ok.1 h
  obtain ⟨p, hp, hprogram⟩ := Code.bind_eq_ok.1 ht
  obtain rfl := Code.pure_eq_ok.1 hout
  rw [hhoist] at hprogram
  obtain ⟨chunks, hchunks⟩ := Code.factored_program hprogram
  have hwritten : Written options.filling source.toList chunks
      (t.code options.filling source.toList) := by
    obtain ⟨text, htext, hwritten⟩ := written_layOut options.filling source.toList chunks {}
    rw [hchunks.template_eq, String.empty_append] at htext
    rwa [Template.code_eq_layOut, htext]
  obtain ⟨stop, hordered⟩ := Program.parse_ordered (parse_eq_ok.1 hp)
  -- What is left out of the head of a loop is read in its place too.
  have hparts : Ordered 0 stop (p.parts.map Part.span) :=
    hordered.sublist (((List.Sublist.refl _).append (listParts_sublist p.statements)).map _)
  exact ⟨p, t, chunks, hp, hprogram, hchunks, hwritten,
    fun span hspan => (hparts.between_of_mem span hspan).2.1, hparts.pairwise⟩

/-- The body of a loop stands before its test, and a computed name before the default value of what
it names. -/
theorem loop_and_pattern_keep_their_order :
    let source := "do a(); while (b)\nvar \x7b [c]: d = e \x7d = f"
    ∃ p chunks, parse source.toList = .ok p ∧
      p.parts.map Part.span = [⟨3, 6⟩, ⟨15, 16⟩, ⟨25, 26⟩, ⟨33, 34⟩, ⟨39, 40⟩] ∧
      chunks.filterMap Chunk.part? = p.parts ∧
      Written (Options.filling { hoistFunctions := false }) source.toList chunks
        ("do \x7b\n    a();\n\x7d while (b);\n__module__.global(\"d\");\n" ++
          "(\x7b[c]: d = e\x7d = f);\n") := by
  intro source
  have hout : rebind { hoistFunctions := false } source = .ok {
      code := "do \x7b\n    a();\n\x7d while (b);\n__module__.global(\"d\");\n" ++
        "(\x7b[c]: d = e\x7d = f);\n"
      bindings := { global := ["d"] } } := Code.eq_ok_of_toOption (by decide +kernel)
  have hspans : (parse source.toList).toOption.map (·.parts.map Part.span) =
      some [⟨3, 6⟩, ⟨15, 16⟩, ⟨25, 26⟩, ⟨33, 34⟩, ⟨39, 40⟩] := by decide +kernel
  obtain ⟨p, t, chunks, hp, -, hchunks, hwritten, -⟩ :=
    parts_are_kept_in_order { hoistFunctions := false } rfl hout
  rw [hp] at hspans
  exact ⟨p, chunks, hp, Option.some.inj hspans, hchunks.parts_eq, hwritten⟩

end Rebind
