import Rebind.Proofs.Hoisting
import Rebind.Proofs.KnownNames
import Rebind.Proofs.Reading.Snippet

/-!
# Which snippets are refused

`Statement.visits` lists, in the order in which the code is written, what is entered on the way
through a statement: statements, classes, static blocks and the bodies of functions, each with the
number of others around it.  Braces of a body and labels after the first do not count, and nothing
is entered inside expressions or inside import and export declarations.

A snippet that can be read is refused for the first visit that goes too deep or meets an obstacle,
and for nothing else (`refused_at_first_obstacle`).
-/

namespace Rebind

open Rebind.Snippet

/-! ## Visits -/

/-- What keeps a part from having code at any depth. -/
inductive Obstacle where
  /-- An import or export declaration that is no statement of the snippet itself. -/
  | moduleDeclaration
  /-- A class without a name that is declared directly in the snippet. -/
  | namelessClass
  deriving Repr, DecidableEq

def Obstacle.error (start : Nat) : Obstacle → RebindError
  | .moduleDeclaration => .unexpectedNode "module declaration" "nested statement" start
  | .namelessClass => .unexpectedNode "anonymous class" "class declaration" start

/-- Something that is entered, with the number of things around it. -/
structure Visit where
  start : Nat
  depth : Nat
  obstacle : Option Obstacle
  deriving Repr, DecidableEq

/-- Why a visit fails, if it does.  A visit that is too deep does not come to its obstacle. -/
def Visit.error? (v : Visit) : Option RebindError :=
  if v.depth = Code.depthLimit then some (.nestedTooDeep Code.depthLimit v.start)
  else v.obstacle.map (Obstacle.error v.start)

/-- Where a statement stands, as far as visits depend on it. -/
inductive Standing where
  /-- In the list of the snippet's own statements. -/
  | own
  /-- In another list of statements. -/
  | listed
  /-- Alone, as the body of another statement. -/
  | alone
  /-- After labels. -/
  | labeled
  deriving Repr, DecidableEq

mutual

/-- What is entered on the way through a statement with `depth` things around it. -/
def Snippet.Statement.visits (standing : Standing) (depth : Nat) : Statement → List Visit
  | .block start body =>
    if standing = .alone then listVisits depth body
    else ⟨start, depth, none⟩ :: listVisits (depth + 1) body
  | .conditional start _ consequent alternate =>
    ⟨start, depth, none⟩ ::
      (consequent.visits .alone (depth + 1) ++ alternateVisits (depth + 1) alternate)
  | .whileLoop start _ body | .doLoop start body _ | .forLoop start _ _ _ body
  | .forIn start _ _ body | .forOf start _ _ _ body | .withObject start _ body =>
    ⟨start, depth, none⟩ :: body.visits .alone (depth + 1)
  | .choice start _ clauses => ⟨start, depth, none⟩ :: clauseVisits (depth + 1) clauses
  | .attempt start body handler finalizer =>
    ⟨start, depth, none⟩ :: (listVisits (depth + 1) body ++ (handlerVisits (depth + 1) handler ++
      finalizerVisits (depth + 1) finalizer))
  | .labeled start _ body =>
    if standing = .labeled then body.visits .labeled depth
    else ⟨start, depth, none⟩ :: body.visits .labeled (depth + 1)
  | .function start callable => ⟨start, depth, none⟩ :: callableVisits (depth + 1) callable
  | .classDeclaration start definition =>
    ⟨start, depth,
        if standing = .own ∧ definition.name = none then some .namelessClass else none⟩ ::
      classVisits (depth + 1) definition
  | .moduleItem start =>
    [⟨start, depth, if standing = .own then none else some .moduleDeclaration⟩]
  | .returnValue start _ | .throwValue start _ | .jump start _ _ | .expression start _
  | .idle start | .declaration start _ => [⟨start, depth, none⟩]

def listVisits (depth : Nat) : List Statement → List Visit
  | [] => []
  | s :: rest => s.visits .listed depth ++ listVisits depth rest

def alternateVisits (depth : Nat) : Option Statement → List Visit
  | none => []
  | some s => s.visits .alone depth

def clauseVisits (depth : Nat) : List Case → List Visit
  | [] => []
  | ⟨_, body⟩ :: rest => listVisits depth body ++ clauseVisits depth rest

def handlerVisits (depth : Nat) : Option Handler → List Visit
  | none => []
  | some ⟨_, body⟩ => listVisits depth body

def finalizerVisits (depth : Nat) : Option (List Statement) → List Visit
  | none => []
  | some body => listVisits depth body

def callableVisits (depth : Nat) : Callable → List Visit
  | ⟨_, _, _, _, _, body⟩ => bodyVisits depth body

def bodyVisits (depth : Nat) : Body → List Visit
  | ⟨start, _, statements⟩ => ⟨start, depth, none⟩ :: listVisits (depth + 1) statements

def classVisits (depth : Nat) : ClassDefinition → List Visit
  | ⟨start, _, _, _, elements⟩ => ⟨start, depth, none⟩ :: elementsVisits (depth + 1) elements

def elementsVisits (depth : Nat) : List Element → List Visit
  | [] => []
  | e :: rest => e.visits depth ++ elementsVisits depth rest

def Snippet.Element.visits (depth : Nat) : Element → List Visit
  | .staticBlock start body => ⟨start, depth, none⟩ :: listVisits (depth + 1) body
  | .method _ _ _ _ callable => callableVisits depth callable
  | .field .. => []

end

/-- What is entered on the way through an own statement of a snippet: nothing if it is the
expression whose value is that of the snippet. -/
def Code.OwnStatement.visits : OwnStatement → List Visit
  | ⟨.expression start value, isLast⟩ =>
    if isLast then [] else (Statement.expression start value).visits .own 0
  | ⟨s, _⟩ => s.visits .own 0

/-- What is entered on the way through a snippet, in the order in which its code is written. -/
def Snippet.Program.visits (hoist : Bool) (p : Program) : List Visit :=
  (Code.ownWritten hoist p).flatMap Code.OwnStatement.visits

/-! ## Refusals -/

namespace Code

/-- The error with which something is refused. -/
def refusal {α : Type} : Except RebindError α → Option RebindError
  | .error e => some e
  | .ok _ => none

/-- The error of the first visit that has one. -/
def firstError (visits : List Visit) : Option RebindError :=
  visits.findSome? Visit.error?

section Chains

variable {α β : Type} {x : Except RebindError α} {f : α → Except RebindError β}
  {vs ws : List Visit} {depth start : Nat}

theorem refusal_eq_some {e : RebindError} : refusal x = some e ↔ x = .error e := by
  cases x <;> simp [refusal]

theorem refusal_bind_pure {g : α → β} : refusal (x >>= fun a => pure (g a)) = refusal x := by
  cases x <;> rfl

theorem firstError_cons (v : Visit) (vs : List Visit) :
    firstError (v :: vs) = v.error?.or (firstError vs) := by
  rw [firstError, List.findSome?_cons]
  cases v.error? <;> rfl

theorem firstError_append : firstError (vs ++ ws) = (firstError vs).or (firstError ws) :=
  List.findSome?_append

theorem refusal_bind (hx : refusal x = firstError vs) (hf : ∀ a, refusal (f a) = firstError ws) :
    refusal (x >>= f) = firstError (vs ++ ws) := by
  rw [firstError_append, ← hx]
  cases x with
  | error e => rfl
  | ok a => exact hf a

/-- A part that is entered before anything in it is. -/
theorem refusal_enter {f : Unit → Except RebindError β} {obstacle : Option Obstacle}
    (hdepth : depth ≤ depthLimit) (hf : depth + 1 ≤ depthLimit →
      refusal (f ()) = (obstacle.map (Obstacle.error start)).or (firstError vs)) :
    refusal (enter depth start >>= f) = firstError (⟨start, depth, obstacle⟩ :: vs) := by
  rw [firstError_cons, Visit.error?, enter]
  rcases Nat.lt_or_ge depth depthLimit with hlt | hge
  · rw [if_pos hlt, if_neg (by dsimp only; omega)]
    exact hf hlt
  · rw [if_neg (by omega), if_pos (by dsimp only; omega)]
    rfl

end Chains

/-! ## Statements -/

/-- Where a statement in a role stands. -/
def standing (mode : ScopeMode) : Role → Standing
  | .listed | .afterElse => if mode = .topLevel then .own else .listed
  | .afterLabels => .labeled
  | .inBraces => .alone

theorem nested_ne_topLevel (mode : ScopeMode) : mode.nested ≠ .topLevel := by
  cases mode <;> decide

theorem standing_nested (mode : ScopeMode) (role : Role) :
    standing mode.nested role = .own ↔ mode.nested = .topLevel := by
  cases mode <;> cases role <;> decide

theorem standing_listed {mode : ScopeMode} (hmode : mode ≠ .topLevel) :
    standing mode .listed = .listed :=
  if_neg hmode

theorem standing_eq_alone {mode : ScopeMode} {role : Role} :
    standing mode role = .alone ↔ role = .inBraces := by
  cases mode <;> cases role <;> decide

theorem standing_eq_labeled {mode : ScopeMode} {role : Role} :
    standing mode role = .labeled ↔ role = .afterLabels := by
  cases mode <;> cases role <;> decide

/-- A statement that is entered before one part of it is. -/
theorem refusal_enter_bind {depth start : Nat} {part : Result} {code : Template → Template}
    {vs : List Visit} (hdepth : depth ≤ depthLimit)
    (hpart : depth + 1 ≤ depthLimit → refusal part = firstError vs) :
    refusal (enter depth start >>= fun _ => part >>= fun t => pure (code t)) =
      firstError (⟨start, depth, none⟩ :: vs) :=
  refusal_enter hdepth fun hd => refusal_bind_pure.trans (hpart hd)

/-- A statement of which nothing but itself is entered. -/
theorem refusal_enter_pure {depth start : Nat} {t : Template} (hdepth : depth ≤ depthLimit) :
    refusal (enter depth start >>= fun _ => pure t) = firstError [⟨start, depth, none⟩] :=
  refusal_enter hdepth fun _ => rfl

mutual

/-- A statement is refused for the first visit on the way through it that fails. -/
theorem refusal_statement (s : Statement) {mode : ScopeMode} {depth : Nat} {role : Role}
    (hdepth : depth ≤ depthLimit) (hs : s.Formed)
    (hmode : standing mode role = .own ↔ mode = .topLevel) :
    refusal (statement mode depth role s) = firstError (s.visits (standing mode role) depth) := by
  cases s with
  | block start body =>
    have hnested (d : Nat) (hd : d ≤ depthLimit) :
        refusal (statements mode.nested d body) = firstError (listVisits d body) :=
      refusal_statements body hd hs (nested_ne_topLevel mode)
    simp only [statement, Statement.visits, standing_eq_alone]
    by_cases hrole : role = .inBraces
    · simp only [if_pos hrole]
      exact hnested depth hdepth
    · simp only [if_neg hrole]
      exact refusal_enter_bind hdepth fun hd => hnested _ hd
  | conditional start test consequent alternate =>
    rw [statement, Statement.visits]
    refine refusal_enter hdepth fun hd => ?_
    have hconsequent := refusal_statement consequent hd hs.1 (standing_nested mode .inBraces)
    refine refusal_bind hconsequent fun inner => ?_
    exact refusal_bind_pure.trans (refusal_elseArm alternate hd hs.2)
  | whileLoop start _ body | doLoop start body _ | forLoop start _ _ _ body
  | forIn start _ _ body | forOf start _ _ _ body | withObject start _ body =>
    rw [statement, Statement.visits]
    exact refusal_enter_bind hdepth fun hd =>
      refusal_statement body hd hs (standing_nested mode .inBraces)
  | choice start value clauses =>
    rw [statement, Statement.visits]
    exact refusal_enter_bind hdepth fun hd =>
      refusal_cases clauses hd hs (nested_ne_topLevel mode)
  | attempt start body handler finalizer =>
    obtain ⟨hs, hhandler, hfinalizer⟩ := hs
    rw [statement, Statement.visits]
    refine refusal_enter hdepth fun hd => ?_
    refine refusal_bind (refusal_statements body hd hs (nested_ne_topLevel mode)) fun _ => ?_
    refine refusal_bind (refusal_handlerArm handler hd hhandler (nested_ne_topLevel mode))
      fun _ => refusal_bind_pure.trans ?_
    exact refusal_finalizerArm finalizer hd hfinalizer (nested_ne_topLevel mode)
  | labeled start labels body =>
    have hnested (d : Nat) (hd : d ≤ depthLimit) :
        refusal (statement mode.nested d .afterLabels body) =
          firstError (body.visits .labeled d) :=
      refusal_statement body hd hs (standing_nested mode .afterLabels)
    simp only [statement, Statement.visits, standing_eq_labeled]
    by_cases hrole : role = .afterLabels
    · simp only [if_pos hrole]
      exact refusal_bind_pure.trans (hnested depth hdepth)
    · simp only [if_neg hrole]
      exact refusal_enter_bind hdepth fun hd => hnested _ hd
  | returnValue | throwValue | jump | expression | idle | declaration =>
    simp only [statement, Statement.visits]
    exact refusal_enter_pure hdepth
  | function start callable =>
    obtain ⟨hname, hformed⟩ := hs
    obtain ⟨name, hname⟩ := Option.isSome_iff_exists.1 hname
    rw [statement, Statement.visits, hname]
    refine refusal_enter hdepth fun hd => ?_
    rw [← List.append_nil (callableVisits _ _)]
    refine refusal_bind (refusal_callableBody callable hd hformed) fun body => ?_
    split <;> rfl
  | classDeclaration start definition =>
    obtain ⟨rfl, hformed⟩ := hs
    have hinner (hd : depth + 1 ≤ depthLimit) :=
      refusal_classDefinition definition hd hformed
    simp only [statement, Statement.visits, hmode, ScopeMode.redirectsLexical, beq_iff_eq]
    refine refusal_enter hdepth fun hd => ?_
    by_cases htop : mode = .topLevel
    · cases hname : definition.name with
      | none => simp only [htop, ↓reduceIte]; rfl
      | some name =>
        simp only [htop, ↓reduceIte]
        exact refusal_bind_pure.trans (hinner hd)
    · simp only [htop, ↓reduceIte]
      exact refusal_bind_pure.trans (hinner hd)
  | moduleItem start =>
    simp only [statement, Statement.visits, hmode]
    refine refusal_enter hdepth fun hd => ?_
    split <;> rfl

theorem refusal_statements (body : List Statement) {mode : ScopeMode} {depth : Nat}
    (hdepth : depth ≤ depthLimit) (hbody : ListFormed body) (hmode : mode ≠ .topLevel) :
    refusal (statements mode depth body) = firstError (listVisits depth body) := by
  cases body with
  | nil => rfl
  | cons s rest =>
    have hs : refusal (statement mode depth .listed s) = firstError (s.visits .listed depth) := by
      have hown : standing mode .listed = .own ↔ mode = .topLevel := by simp [standing, hmode]
      rw [refusal_statement s hdepth hbody.1 hown, standing_listed hmode]
    rw [statements, listVisits]
    exact refusal_bind hs fun first =>
      refusal_bind_pure.trans (refusal_statements rest hdepth hbody.2 hmode)

theorem refusal_elseArm (alternate : Option Statement) {mode : ScopeMode} {depth : Nat}
    (hdepth : depth ≤ depthLimit) (hs : AlternateFormed alternate) :
    refusal (elseArm mode depth alternate) = firstError (alternateVisits depth alternate) := by
  cases alternate with
  | none => rfl
  | some s =>
    -- A conditional after `else` is written in the mode of the first one, any other statement in
    -- that of a body; what is entered is the same.
    have hbody : refusal (statement mode.nested depth .inBraces s) =
        firstError (s.visits .alone depth) :=
      refusal_statement s hdepth hs (standing_nested mode .inBraces)
    cases s with
    | conditional start test consequent more =>
      have hown : standing mode .afterElse = .own ↔ mode = .topLevel := by simp [standing]
      rw [elseArm, alternateVisits]
      exact refusal_bind_pure.trans (refusal_statement _ hdepth hs hown)
    | _ =>
      simp only [elseArm, alternateVisits, Bool.false_eq_true, ↓reduceIte]
      exact refusal_bind_pure.trans hbody

theorem refusal_cases (clauses : List Case) {mode : ScopeMode} {depth : Nat}
    (hdepth : depth ≤ depthLimit) (hclauses : ClausesFormed clauses) (hmode : mode ≠ .topLevel) :
    refusal (cases mode depth clauses) = firstError (clauseVisits depth clauses) := by
  cases clauses with
  | nil => rfl
  | cons clause rest =>
    obtain ⟨test, body⟩ := clause
    simp only [cases, clauseVisits]
    exact refusal_bind (refusal_statements body hdepth hclauses.1 hmode) fun _ =>
      refusal_bind_pure.trans (refusal_cases rest hdepth hclauses.2 hmode)

theorem refusal_handlerArm (handler : Option Handler) {mode : ScopeMode} {depth : Nat}
    (hdepth : depth ≤ depthLimit) (hhandler : HandlerFormed handler) (hmode : mode ≠ .topLevel) :
    refusal (handlerArm mode depth handler) = firstError (handlerVisits depth handler) := by
  cases handler with
  | none => rfl
  | some h =>
    obtain ⟨parameter, body⟩ := h
    simp only [handlerArm, handlerVisits]
    exact refusal_bind_pure.trans (refusal_statements body hdepth hhandler hmode)

theorem refusal_finalizerArm (finalizer : Option (List Statement)) {mode : ScopeMode}
    {depth : Nat} (hdepth : depth ≤ depthLimit) (hfinalizer : FinalizerFormed finalizer)
    (hmode : mode ≠ .topLevel) :
    refusal (finalizerArm mode depth finalizer) = firstError (finalizerVisits depth finalizer) := by
  cases finalizer with
  | none => rfl
  | some body =>
    rw [finalizerArm, finalizerVisits]
    exact refusal_bind_pure.trans (refusal_statements body hdepth hfinalizer hmode)

theorem refusal_callableBody (callable : Callable) {depth : Nat} (hdepth : depth ≤ depthLimit)
    (hcallable : CallableFormed callable) :
    refusal (callableBody depth callable) = firstError (callableVisits depth callable) := by
  obtain ⟨_, _, _, _, _, body⟩ := callable
  exact refusal_functionBody body hdepth hcallable

theorem refusal_functionBody (body : Body) {depth : Nat} (hdepth : depth ≤ depthLimit)
    (hbody : BodyFormed body) :
    refusal (functionBody depth body) = firstError (bodyVisits depth body) := by
  obtain ⟨start, directives, inner⟩ := body
  rw [functionBody, bodyVisits]
  exact refusal_enter_bind hdepth fun hd => refusal_statements inner hd hbody (by decide)

theorem refusal_classDefinition (definition : ClassDefinition) {depth : Nat}
    (hdepth : depth ≤ depthLimit) (hclass : ClassFormed definition) :
    refusal (classDefinition depth definition) = firstError (classVisits depth definition) := by
  obtain ⟨start, decorators, name, heritage, members⟩ := definition
  rw [classDefinition, classVisits]
  exact refusal_enter_bind hdepth fun hd => refusal_elements members hd hclass

theorem refusal_elements (members : List Element) {depth : Nat} (hdepth : depth ≤ depthLimit)
    (hmembers : ElementsFormed members) :
    refusal (elements depth members) = firstError (elementsVisits depth members) := by
  cases members with
  | nil => rfl
  | cons e rest =>
    rw [elements, elementsVisits]
    exact refusal_bind (refusal_element e hdepth hmembers.1) fun first =>
      refusal_bind_pure.trans (refusal_elements rest hdepth hmembers.2)

theorem refusal_element (e : Element) {depth : Nat} (hdepth : depth ≤ depthLimit) (he : e.Formed) :
    refusal (element depth e) = firstError (e.visits depth) := by
  cases e with
  | staticBlock start body =>
    rw [element, Element.visits]
    exact refusal_enter_bind hdepth fun hd => refusal_statements body hd he (by decide)
  | method values isStatic kind name callable =>
    rw [element, Element.visits]
    exact refusal_bind_pure.trans (refusal_callableBody callable hdepth he)
  | field => rfl

end

/-! ## Snippets -/

theorem refusal_template {own : OwnStatement} (hs : own.statement.Formed) :
    refusal own.template = firstError own.visits := by
  obtain ⟨s, isLast⟩ := own
  have hstatement : refusal (statement .topLevel 0 .listed s) = firstError (s.visits .own 0) :=
    refusal_statement s (Nat.zero_le _) hs (by decide)
  cases s with
  | expression start value =>
    cases isLast with
    | true => rfl
    | false => exact hstatement
  | _ => exact hstatement

theorem refusal_ownTemplates {own : List OwnStatement} (hown : ∀ s ∈ own, s.statement.Formed) :
    refusal (ownTemplates own) = firstError (own.flatMap OwnStatement.visits) := by
  induction own with
  | nil => rfl
  | cons s own ih =>
    obtain ⟨hs, hown⟩ := List.forall_mem_cons.1 hown
    rw [← List.singleton_append, ownTemplates_append, ownTemplates_singleton]
    exact refusal_bind (refusal_template hs) fun front => refusal_bind_pure.trans (ih hown)

theorem statement_mem_of_mem_ownStatements {body : List Statement} {own : OwnStatement}
    (h : own ∈ ownStatements body) : own.statement ∈ body := by
  rw [← map_statement_ownStatements body]
  exact List.mem_map_of_mem h

theorem refusal_program (hoist : Bool) {p : Program} (hp : ListFormed p.statements) :
    refusal (program hoist p) = firstError (p.visits hoist) := by
  by_cases hempty : p.statements = []
  · obtain ⟨directives, body⟩ := p
    subst hempty
    cases hoist <;> rfl
  · have hown : ∀ s ∈ ownWritten hoist p, s.statement.Formed := fun s hs =>
      listFormed_iff.1 hp _ (statement_mem_of_mem_ownStatements (mem_ownWritten.1 hs))
    rw [program_eq hoist hempty]
    exact refusal_bind_pure.trans (refusal_ownTemplates hown)

theorem firstError_eq_some {vs : List Visit} {e : RebindError} :
    firstError vs = some e ↔ ∃ front v back, vs = front ++ v :: back ∧
      (∀ u ∈ front, u.error? = none) ∧ v.error? = some e := by
  rw [firstError, List.findSome?_eq_some_iff]
  simp only [and_comm]

theorem firstError_ne_none {vs : List Visit} :
    (∃ e, firstError vs = some e) ↔ ∃ v ∈ vs, v.depth = depthLimit ∨ v.obstacle.isSome := by
  have herror (v : Visit) : v.error?.isSome ↔ v.depth = depthLimit ∨ v.obstacle.isSome := by
    unfold Visit.error?
    split <;> simp_all
  rw [← Option.isSome_iff_exists, firstError, List.findSome?_isSome_iff]
  exact exists_congr fun v => and_congr_right fun _ => herror v

end Code

theorem refusal_checkedRebind {options : Options} (hvalid : options.validate = .ok ())
    {source : String} {p : Program} (hp : parse source.toList = .ok p) :
    Code.refusal (checkedRebind options source) =
      Code.firstError (p.visits options.hoistFunctions) := by
  have hformed : ListFormed p.statements := Program.parse_formed (parse_eq_ok.1 hp)
  have hchecked : checkedRebind options source = p.output options source := by
    rw [checkedRebind_eq hvalid]
    exact rebind_eq_output options hp
  rw [hchecked, ← Code.refusal_program _ hformed, Program.output]
  cases Code.program options.hoistFunctions p <;> rfl

/-- **A snippet is refused exactly at the first obstacle.**  A snippet that can be read is refused
under valid options if and only if something is entered with as many others around it as the
limit says, or is an import or export declaration inside another statement, or a class without a
name directly in the snippet.  The error is that of the first of these in the order of the code,
which begins with the functions if they are hoisted. -/
theorem refused_at_first_obstacle (options : Options) (hvalid : options.validate = .ok ())
    {source : String} {p : Program} (hp : parse source.toList = .ok p) :
    let visits := p.visits options.hoistFunctions
    ((∃ e, checkedRebind options source = .error e) ↔
      ∃ v ∈ visits, v.depth = Code.depthLimit ∨ v.obstacle.isSome) ∧
    ∀ e, checkedRebind options source = .error e ↔
      ∃ front v back, visits = front ++ v :: back ∧ (∀ u ∈ front, u.error? = none) ∧
        v.error? = some e := by
  have herror (e : RebindError) : checkedRebind options source = .error e ↔
      Code.firstError (p.visits options.hoistFunctions) = some e := by
    rw [← refusal_checkedRebind hvalid hp, Code.refusal_eq_some]
  intro visits
  constructor
  · rw [exists_congr herror, Code.firstError_ne_none]
  · exact fun e => (herror e).trans Code.firstError_eq_some

/-- A function is hoisted before a class without a name, so what it holds is refused first. -/
theorem import_in_function_is_refused_first :
    let source := "class \x7b\x7d function f() \x7b import 'm' \x7d"
    ∃ p, parse source.toList = .ok p ∧ Options.validate {} = .ok () ∧
      p.visits true = [⟨9, 0, none⟩, ⟨22, 1, none⟩, ⟨24, 2, some .moduleDeclaration⟩,
        ⟨0, 0, some .namelessClass⟩, ⟨0, 1, none⟩] ∧
      checkedRebind {} source =
        .error (.unexpectedNode "module declaration" "nested statement" 24) := by
  intro source
  have hsource : ((parse source.toList).toOption.map (·.visits true)) =
      some [⟨9, 0, none⟩, ⟨22, 1, none⟩, ⟨24, 2, some .moduleDeclaration⟩,
        ⟨0, 0, some .namelessClass⟩, ⟨0, 1, none⟩] := by decide +kernel
  obtain ⟨p, hp, hvisits⟩ := Option.map_eq_some_iff.1 hsource
  have hp : parse source.toList = .ok p := Code.eq_ok_of_toOption hp
  have hvalid : Options.validate {} = .ok () := Code.eq_ok_of_toOption (by decide +kernel)
  refine ⟨p, hp, hvalid, hvisits, ((refused_at_first_obstacle {} hvalid hp).2 _).2 ?_⟩
  exact ⟨[⟨9, 0, none⟩, ⟨22, 1, none⟩], ⟨24, 2, some .moduleDeclaration⟩,
    [⟨0, 0, some .namelessClass⟩, ⟨0, 1, none⟩], hvisits, by decide, by decide⟩

end Rebind
