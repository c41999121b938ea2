import Rebind.Code.Program

/-!
# When a part of a snippet has a template

`Code.statement` and the functions beside it either refuse a part or give its template.  For each
form of a part one lemma here says when it has a template and which one, in terms of the templates
of the parts inside.  Everything about templates is derived from these lemmas.
-/

namespace Rebind.Code

open Rebind.Snippet

/-! ## Chains that succeed -/

theorem bind_eq_ok {α β : Type} {x : Except RebindError α} {f : α → Except RebindError β} {b : β} :
    x >>= f = .ok b ↔ ∃ a, x = .ok a ∧ f a = .ok b := by
  cases x with
  | error e =>
    constructor
    · intro h
      cases h
    · rintro ⟨a, h, -⟩
      cases h
  | ok a =>
    constructor
    · intro h
      exact ⟨a, rfl, h⟩
    · rintro ⟨_, h, hf⟩
      cases h
      exact hf

theorem pure_eq_ok {α : Type} {a b : α} : (pure a : Except RebindError α) = .ok b ↔ b = a := by
  constructor
  · intro h
    cases h
    rfl
  · intro h
    rw [h]
    rfl

theorem ok_eq_ok {α : Type} {a b : α} : (.ok a : Except RebindError α) = .ok b ↔ b = a :=
  pure_eq_ok

theorem throw_eq_ok {α : Type} {e : RebindError} {a : α} :
    (throw e : Except RebindError α) = .ok a ↔ False := by
  constructor
  · intro h
    cases h
  · exact False.elim

theorem eq_ok_of_toOption {ε α : Type} {x : Except ε α} {a : α}
    (h : x.toOption = some a) : x = .ok a := by
  cases x with
  | error e => cases h
  | ok b =>
    cases h
    rfl

variable {mode : ScopeMode} {depth start : Nat} {role : Role} {t : Template}

theorem enter_eq_ok {u : Unit} : enter depth start = .ok u ↔ depth < depthLimit := by
  unfold enter
  split <;> simp_all

-- The equations of the emitters are put together here, once for all lemmas below.
attribute [local simp] statement statements elseArm cases handlerArm finalizerArm functionBody
  classDefinition elements element

/-! ## Statements with bodies -/

section Bodies

variable {value : Expression} {body : Statement}

theorem statement_block_ok {body : List Statement} :
    statement mode depth role (.block start body) = .ok t ↔
      if role = .inBraces then statements mode.nested depth body = .ok t
      else depth < depthLimit ∧
        ∃ inner, statements mode.nested (depth + 1) body = .ok inner ∧
          t = Template.braced inner ++ [Step.newline] := by
  rw [statement]
  split
  · rfl
  · simp only [bind_eq_ok, pure_eq_ok, enter_eq_ok, exists_const]

theorem statement_conditional_ok {alternate : Option Statement} :
    statement mode depth role (.conditional start value body alternate) = .ok t ↔
      depth < depthLimit ∧
      ∃ inner, statement mode.nested (depth + 1) .inBraces body = .ok inner ∧
      ∃ arm, elseArm mode (depth + 1) alternate = .ok arm ∧
        t = headed "if" value ++ Template.braced inner ++ arm ++
          (if role = .afterElse then [] else [Step.newline]) := by
  simp only [statement, bind_eq_ok, pure_eq_ok, enter_eq_ok, exists_const]

theorem statement_whileLoop_ok :
    statement mode depth role (.whileLoop start value body) = .ok t ↔
      depth < depthLimit ∧
      ∃ inner, statement mode.nested (depth + 1) .inBraces body = .ok inner ∧
        t = headed "while" value ++ Template.braced inner ++ [Step.newline] := by
  simp only [statement, bind_eq_ok, pure_eq_ok, enter_eq_ok, exists_const]

theorem statement_doLoop_ok :
    statement mode depth role (.doLoop start body value) = .ok t ↔
      depth < depthLimit ∧
      ∃ inner, statement mode.nested (depth + 1) .inBraces body = .ok inner ∧
        t = Template.fixed "do " ++ Template.braced inner ++ doTail value := by
  simp only [statement, bind_eq_ok, pure_eq_ok, enter_eq_ok, exists_const]

theorem statement_withObject_ok :
    statement mode depth role (.withObject start value body) = .ok t ↔
      depth < depthLimit ∧
      ∃ inner, statement mode.nested (depth + 1) .inBraces body = .ok inner ∧
        t = headed "with" value ++ Template.braced inner ++ [Step.newline] := by
  simp only [statement, bind_eq_ok, pure_eq_ok, enter_eq_ok, exists_const]

theorem statement_forLoop_ok {init : Option LoopStart} {test update : Option Expression} :
    statement mode depth role (.forLoop start init test update body) = .ok t ↔
      depth < depthLimit ∧
      ∃ inner, statement mode.nested (depth + 1) .inBraces body = .ok inner ∧
        t = registrationUnless role mode (.forLoop start init test update body) ++
          forHead mode init test update ++ Template.braced inner ++ [Step.newline] := by
  simp only [statement, bind_eq_ok, pure_eq_ok, enter_eq_ok, exists_const]

theorem statement_forIn_ok {target : LoopTarget} :
    statement mode depth role (.forIn start target value body) = .ok t ↔
      depth < depthLimit ∧
      ∃ inner, statement mode.nested (depth + 1) .inBraces body = .ok inner ∧
        t = registrationUnless role mode (.forIn start target value body) ++
          forInHead mode target value ++ Template.braced inner ++ [Step.newline] := by
  simp only [statement, bind_eq_ok, pure_eq_ok, enter_eq_ok, exists_const]

theorem statement_forOf_ok {isAwait : Bool} {target : LoopTarget} :
    statement mode depth role (.forOf start isAwait target value body) = .ok t ↔
      depth < depthLimit ∧
      ∃ inner, statement mode.nested (depth + 1) .inBraces body = .ok inner ∧
        t = registrationUnless role mode (.forOf start isAwait target value body) ++
          forOfHead mode isAwait target value ++ Template.braced inner ++ [Step.newline] := by
  simp only [statement, bind_eq_ok, pure_eq_ok, enter_eq_ok, exists_const]

theorem statement_choice_ok {clauses : List Case} :
    statement mode depth role (.choice start value clauses) = .ok t ↔
      depth < depthLimit ∧
      ∃ inner, cases mode.nested (depth + 1) clauses = .ok inner ∧
        t = headed "switch" value ++ Template.braced inner ++ [Step.newline] := by
  simp only [statement, bind_eq_ok, pure_eq_ok, enter_eq_ok, exists_const]

theorem statement_attempt_ok {body : List Statement} {handler : Option Handler}
    {finalizer : Option (List Statement)} :
    statement mode depth role (.attempt start body handler finalizer) = .ok t ↔
      depth < depthLimit ∧
      ∃ inner, statements mode.nested (depth + 1) body = .ok inner ∧
      ∃ caught, handlerArm mode.nested (depth + 1) handler = .ok caught ∧
      ∃ final, finalizerArm mode.nested (depth + 1) finalizer = .ok final ∧
        t = Template.fixed "try " ++ Template.braced inner ++ caught ++ final ++
          [Step.newline] := by
  simp only [statement, bind_eq_ok, pure_eq_ok, enter_eq_ok, exists_const]

theorem statement_labeled_ok {labels : List String} :
    statement mode depth role (.labeled start labels body) = .ok t ↔
      if role = .afterLabels then
        ∃ inner, statement mode.nested depth .afterLabels body = .ok inner ∧
          t = labelsBefore labels ++ inner
      else
        depth < depthLimit ∧
        ∃ inner, statement mode.nested (depth + 1) .afterLabels body = .ok inner ∧
          t = registration mode.nested (unlabeled body) ++
            labelsBefore labels ++ inner := by
  rw [statement]
  split
  · simp only [bind_eq_ok, pure_eq_ok]
  · simp only [bind_eq_ok, pure_eq_ok, enter_eq_ok, exists_const]

end Bodies

/-! ## Statements of one line -/

theorem statement_returnValue_ok {value : Option Expression} :
    statement mode depth role (.returnValue start value) = .ok t ↔
      depth < depthLimit ∧ t = returnLine value := by
  simp only [statement, bind_eq_ok, pure_eq_ok, enter_eq_ok, exists_const]

theorem statement_throwValue_ok {value : Expression} :
    statement mode depth role (.throwValue start value) = .ok t ↔
      depth < depthLimit ∧ t = throwLine value := by
  simp only [statement, bind_eq_ok, pure_eq_ok, enter_eq_ok, exists_const]

theorem statement_jump_ok {kind : Jump} {label : Option String} :
    statement mode depth role (.jump start kind label) = .ok t ↔
      depth < depthLimit ∧ t = jumpLine kind label := by
  simp only [statement, bind_eq_ok, pure_eq_ok, enter_eq_ok, exists_const]

theorem statement_expression_ok {value : Expression} :
    statement mode depth role (.expression start value) = .ok t ↔
      depth < depthLimit ∧ t = expressionLine value := by
  simp only [statement, bind_eq_ok, pure_eq_ok, enter_eq_ok, exists_const]

theorem statement_idle_ok :
    statement mode depth role (.idle start) = .ok t ↔ depth < depthLimit ∧ t = [] := by
  simp only [statement, bind_eq_ok, pure_eq_ok, enter_eq_ok, exists_const]

theorem statement_declaration_ok {d : Declaration} :
    statement mode depth role (.declaration start d) = .ok t ↔
      depth < depthLimit ∧
        t = registrationUnless role mode (.declaration start d) ++
          variableStatement mode d := by
  simp only [statement, bind_eq_ok, pure_eq_ok, enter_eq_ok, exists_const]

theorem statement_function_ok {callable : Callable} :
    statement mode depth role (.function start callable) = .ok t ↔
      depth < depthLimit ∧
      ∃ name, callable.name = some name ∧
      ∃ body, callableBody (depth + 1) callable = .ok body ∧
        t = if mode.redirectsVar then
            functionTarget name ++ functionHead callable false ++ body ++ Template.endStatement
          else functionHead callable true ++ body ++ [Step.newline] := by
  simp only [statement, bind_eq_ok, enter_eq_ok, exists_const]
  refine and_congr_right fun _ => ?_
  cases callable.name with
  | none => simp [throw_eq_ok]
  | some name =>
    simp only [Option.some.injEq, exists_eq_left', bind_eq_ok]
    refine exists_congr fun body => and_congr_right fun _ => ?_
    split <;> exact pure_eq_ok

theorem statement_classDeclaration_ok {definition : ClassDefinition} :
    statement mode depth role (.classDeclaration start definition) = .ok t ↔
      depth < depthLimit ∧
      if mode.redirectsLexical then
        ∃ name, definition.name = some name ∧
        ∃ inner, classDefinition (depth + 1) definition = .ok inner ∧
          t = classTarget name ++ inner ++ Template.endStatement
      else
        ∃ inner, classDefinition (depth + 1) definition = .ok inner ∧
          t = inner ++ [Step.newline] := by
  simp only [statement, bind_eq_ok, enter_eq_ok, exists_const]
  refine and_congr_right fun _ => ?_
  split
  · cases definition.name with
    | none => simp [throw_eq_ok]
    | some name => simp only [Option.some.injEq, exists_eq_left', bind_eq_ok, pure_eq_ok]
  · simp only [bind_eq_ok, pure_eq_ok]

theorem statement_moduleItem_ok :
    statement mode depth role (.moduleItem start) = .ok t ↔
      depth < depthLimit ∧ mode = .topLevel ∧ t = [] := by
  simp only [statement, bind_eq_ok, enter_eq_ok, exists_const]
  refine and_congr_right fun _ => ?_
  split <;> simp_all [pure_eq_ok, throw_eq_ok]

/-! ## Parts of statements -/

theorem statements_cons_ok {s : Statement} {rest : List Statement} :
    statements mode depth (s :: rest) = .ok t ↔
      ∃ first, statement mode depth .listed s = .ok first ∧
      ∃ others, statements mode depth rest = .ok others ∧ t = first ++ others := by
  simp only [statements, bind_eq_ok, pure_eq_ok]

theorem elseArm_conditional_ok {test : Expression} {body : Statement}
    {alternate : Option Statement} :
    elseArm mode depth (some (.conditional start test body alternate)) = .ok t ↔
      ∃ inner,
        statement mode depth .afterElse (.conditional start test body alternate) = .ok inner ∧
          t = Template.fixed " else " ++ inner := by
  simp only [elseArm, ↓reduceIte, bind_eq_ok, pure_eq_ok]

theorem elseArm_body_ok {s : Statement}
    (hs : ∀ start test body alternate, s ≠ .conditional start test body alternate) :
    elseArm mode depth (some s) = .ok t ↔
      ∃ inner, statement mode.nested depth .inBraces s = .ok inner ∧
        t = Template.fixed " else " ++ Template.braced inner := by
  cases s with
  | conditional => exact absurd rfl (hs _ _ _ _)
  | _ => simp only [elseArm, Bool.false_eq_true, ↓reduceIte, bind_eq_ok, pure_eq_ok]

theorem cases_cons_ok {test : Option Expression} {body : List Statement} {rest : List Case} :
    cases mode depth (⟨test, body⟩ :: rest) = .ok t ↔
      ∃ inner, statements mode depth body = .ok inner ∧
      ∃ others, cases mode depth rest = .ok others ∧
        t = caseLabel test ++ [Step.newline, .indent] ++ inner ++ [Step.dedent] ++ others := by
  simp only [cases, bind_eq_ok, pure_eq_ok]

theorem handlerArm_some_ok {parameter : Option Pattern} {body : List Statement} :
    handlerArm mode depth (some ⟨parameter, body⟩) = .ok t ↔
      ∃ inner, statements mode depth body = .ok inner ∧
        t = catchHead parameter ++ Template.braced inner := by
  simp only [handlerArm, bind_eq_ok, pure_eq_ok]

theorem finalizerArm_some_ok {body : List Statement} :
    finalizerArm mode depth (some body) = .ok t ↔
      ∃ inner, statements mode depth body = .ok inner ∧
        t = Template.fixed " finally " ++ Template.braced inner := by
  simp only [finalizerArm, bind_eq_ok, pure_eq_ok]

/-! ## Functions and classes -/

theorem functionBody_ok {body : Body} :
    functionBody depth body = .ok t ↔
      depth < depthLimit ∧
      ∃ inner, statements .functionBody (depth + 1) body.statements = .ok inner ∧
        t = Template.braced (body.directives.flatMap directive ++ inner) := by
  cases body
  simp only [functionBody, bind_eq_ok, pure_eq_ok, enter_eq_ok, exists_const]

theorem callableBody_eq (callable : Callable) :
    callableBody depth callable = functionBody depth callable.body := by
  cases callable
  rfl

theorem classDefinition_ok {definition : ClassDefinition} :
    classDefinition depth definition = .ok t ↔
      depth < depthLimit ∧
      ∃ inner, elements (depth + 1) definition.elements = .ok inner ∧
        t = classHead definition ++ Template.braced inner := by
  cases definition
  simp only [classDefinition, bind_eq_ok, pure_eq_ok, enter_eq_ok, exists_const]
  rfl

theorem elements_cons_ok {e : Element} {rest : List Element} :
    elements depth (e :: rest) = .ok t ↔
      ∃ first, element depth e = .ok first ∧
      ∃ others, elements depth rest = .ok others ∧ t = first ++ others := by
  simp only [elements, bind_eq_ok, pure_eq_ok]

theorem element_staticBlock_ok {body : List Statement} :
    element depth (.staticBlock start body) = .ok t ↔
      depth < depthLimit ∧
      ∃ inner, statements .functionBody (depth + 1) body = .ok inner ∧
        t = Template.fixed "static " ++ Template.braced inner ++ [Step.newline] := by
  simp only [element, bind_eq_ok, pure_eq_ok, enter_eq_ok, exists_const]

theorem element_method_ok {values : List Expression} {isStatic : Bool} {kind : MethodKind}
    {name : Key} {callable : Callable} :
    element depth (.method values isStatic kind name callable) = .ok t ↔
      ∃ body, callableBody depth callable = .ok body ∧
        t = methodHead values isStatic kind name callable ++ body ++ [Step.newline] := by
  simp only [element, bind_eq_ok, pure_eq_ok]

theorem element_field_ok {values : List Expression} {isStatic isAccessor : Bool} {name : Key}
    {value : Option Expression} :
    element depth (.field values isStatic isAccessor name value) = .ok t ↔
      t = field values isStatic isAccessor name value := by
  simp only [element, ok_eq_ok]

end Rebind.Code
