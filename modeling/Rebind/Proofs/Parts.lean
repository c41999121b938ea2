import Rebind.Snippet.Tree

/-!
# The parts of a snippet that are copied

Three kinds of parts of the source stand in the code as they are but for the host forms in them:
expressions, the names of properties and members, and directives.  `Statement.parts` lists them in
the order of the grammar.  Outside functions a loop over keys or values whose head declares
variables keeps nothing of the head but the pattern of the first one; everything else is kept.

`Ordered` says that stretches of the source follow each other between two offsets.
`Statement.Formed` holds what the grammar guarantees about declarations besides.
-/

namespace Rebind.Snippet

open Rebind.Text (Span)

/-! ## Parts -/

/-- A part of the source that is copied. -/
inductive Part where
  | expression (value : Expression)
  /-- The default value of a parameter, with all that stands between the pattern and it. -/
  | default (patternStop : Nat) (value : Expression)
  /-- The name of a property or member, or a directive. -/
  | verbatim (span : Span)
  deriving Repr, Inhabited

/-- The stretch of the source that a part takes. -/
def Part.span : Part → Span
  | .expression value => value.span
  | .default patternStop value => ⟨patternStop, value.span.stop⟩
  | .verbatim span => span

def Key.parts : Key → List Part
  | .plain span => [.verbatim span]
  | .computed value => [.expression value]

/-- The part that an expression is, if it is there. -/
def valueParts (value : Option Expression) : List Part :=
  (value.map Part.expression).toList

mutual

def Pattern.parts : Pattern → List Part
  | .name _ _ => []
  | .array _ elements rest => elementParts elements ++ restParts rest
  | .object _ properties rest => propertyParts properties ++ restParts rest
  | .withDefault target value => target.parts ++ [.expression value]

def elementParts : List (Option Pattern) → List Part
  | [] => []
  | none :: elements => elementParts elements
  | some element :: elements => element.parts ++ elementParts elements

def propertyParts : List (Key × Pattern) → List Part
  | [] => []
  | (name, value) :: properties => name.parts ++ value.parts ++ propertyParts properties

def restParts : Option Pattern → List Part
  | none => []
  | some rest => rest.parts

end

def Parameter.parts (p : Parameter) : List Part :=
  p.pattern.parts ++ (p.value.map (.default p.pattern.span.stop)).toList

def Declarator.parts (d : Declarator) : List Part :=
  d.target.parts ++ valueParts d.value

def Declaration.parts (d : Declaration) : List Part :=
  d.declarators.flatMap Declarator.parts

def startParts : Option LoopStart → List Part
  | none => []
  | some (.declaration d) => d.parts
  | some (.expression value) => [.expression value]

/-- The parts of what a loop over keys or values assigns to.  Of variables outside functions these
are the parts of the first pattern. -/
def LoopTarget.parts (inFunction : Bool) : LoopTarget → List Part
  | .declaration d =>
    if d.kind = .variable ∧ !inFunction then (d.declarators.take 1).flatMap (·.target.parts)
    else d.parts
  | .place value => [.expression value]

mutual

/-- The parts of a statement inside or outside functions. -/
def Statement.parts (inFunction : Bool) : Statement → List Part
  | .block _ body => listParts inFunction body
  | .conditional _ test consequent alternate =>
    .expression test :: (consequent.parts inFunction ++ alternateParts inFunction alternate)
  | .whileLoop _ value body | .withObject _ value body =>
    .expression value :: body.parts inFunction
  | .doLoop _ body test => body.parts inFunction ++ [.expression test]
  | .forLoop _ init test update body =>
    startParts init ++ valueParts test ++ valueParts update ++ body.parts inFunction
  | .forIn _ target value body | .forOf _ _ target value body =>
    target.parts inFunction ++ .expression value :: body.parts inFunction
  | .choice _ value clauses => .expression value :: clauseParts inFunction clauses
  | .attempt _ body handler finalizer =>
    listParts inFunction body ++ handlerParts inFunction handler ++
      finalizerParts inFunction finalizer
  | .labeled _ _ body => body.parts inFunction
  | .returnValue _ value => valueParts value
  | .throwValue _ value | .expression _ value => [.expression value]
  | .declaration _ d => d.parts
  | .function _ callable => callableParts callable
  | .classDeclaration _ definition => classParts definition
  | .jump _ _ _ | .idle _ | .moduleItem _ => []

def listParts (inFunction : Bool) : List Statement → List Part
  | [] => []
  | s :: rest => s.parts inFunction ++ listParts inFunction rest

def alternateParts (inFunction : Bool) : Option Statement → List Part
  | none => []
  | some s => s.parts inFunction

def clauseParts (inFunction : Bool) : List Case → List Part
  | [] => []
  | ⟨test, body⟩ :: rest =>
    valueParts test ++ listParts inFunction body ++ clauseParts inFunction rest

def handlerParts (inFunction : Bool) : Option Handler → List Part
  | none => []
  | some ⟨parameter, body⟩ => restParts parameter ++ listParts inFunction body

def finalizerParts (inFunction : Bool) : Option (List Statement) → List Part
  | none => []
  | some body => listParts inFunction body

def callableParts : Callable → List Part
  | ⟨_, _, _, parameters, rest, body⟩ =>
    parameters.flatMap Parameter.parts ++ restParts rest ++ bodyParts body

def bodyParts : Body → List Part
  | ⟨_, directives, statements⟩ => directives.map .verbatim ++ listParts true statements

def classParts : ClassDefinition → List Part
  | ⟨_, decorators, _, heritage, elements⟩ =>
    decorators.map .expression ++ valueParts heritage ++ elementsParts elements

def elementsParts : List Element → List Part
  | [] => []
  | e :: rest => e.parts ++ elementsParts rest

def Element.parts : Element → List Part
  | .staticBlock _ body => listParts true body
  | .method decorators _ _ name callable =>
    decorators.map .expression ++ name.parts ++ callableParts callable
  | .field decorators _ _ name value =>
    decorators.map .expression ++ name.parts ++ valueParts value

end

/-- The parts of a snippet that are in its code. -/
def Program.parts (p : Program) : List Part :=
  p.directives.map .verbatim ++ listParts false p.statements

/-! Lists of parts, element by element -/

theorem elementParts_eq (elements : List (Option Pattern)) :
    elementParts elements = elements.flatMap restParts := by
  induction elements with
  | nil => rfl
  | cons element elements ih => cases element <;> simp [elementParts, restParts, ih]

theorem propertyParts_eq (properties : List (Key × Pattern)) :
    propertyParts properties = properties.flatMap fun p => p.1.parts ++ p.2.parts := by
  induction properties with
  | nil => rfl
  | cons p properties ih =>
    obtain ⟨name, value⟩ := p
    simp [propertyParts, ih]

theorem listParts_eq (inFunction : Bool) (body : List Statement) :
    listParts inFunction body = body.flatMap (Statement.parts inFunction) := by
  induction body with
  | nil => rfl
  | cons s body ih => simp [listParts, ih]

theorem clauseParts_eq (inFunction : Bool) (clauses : List Case) :
    clauseParts inFunction clauses =
      clauses.flatMap fun c => valueParts c.test ++ listParts inFunction c.body := by
  induction clauses with
  | nil => rfl
  | cons c clauses ih =>
    obtain ⟨test, body⟩ := c
    simp [clauseParts, ih]

theorem elementsParts_eq (elements : List Element) :
    elementsParts elements = elements.flatMap Element.parts := by
  induction elements with
  | nil => rfl
  | cons e elements ih => simp [elementsParts, ih]

/-! ## What is left out outside functions -/

theorem LoopTarget.parts_sublist (target : LoopTarget) :
    (target.parts false).Sublist (target.parts true) := by
  cases target with
  | place value => exact .refl _
  | declaration d =>
    have hall : (LoopTarget.declaration d).parts true = d.parts := if_neg (by simp)
    rw [hall, LoopTarget.parts, Declaration.parts]
    split
    · cases d.declarators with
      | nil => exact .slnil
      | cons first rest =>
        simp only [List.take_succ_cons, List.take_zero, List.flatMap_cons, List.flatMap_nil,
          List.append_nil, Declarator.parts, List.append_assoc]
        exact List.sublist_append_left _ _
    · exact .refl _

mutual

/-- All parts that a statement has outside functions it has inside them, in the same order. -/
theorem Statement.parts_sublist (s : Statement) : (s.parts false).Sublist (s.parts true) := by
  cases s with
  | block _ body => exact listParts_sublist body
  | conditional _ _ consequent alternate =>
    exact (consequent.parts_sublist.append (alternateParts_sublist alternate)).cons_cons _
  | whileLoop _ _ body | withObject _ _ body => exact body.parts_sublist.cons_cons _
  | doLoop _ body _ => exact body.parts_sublist.append (.refl _)
  | forLoop _ _ _ _ body => exact (List.Sublist.refl _).append body.parts_sublist
  | forIn _ target _ body | forOf _ _ target _ body =>
    exact target.parts_sublist.append (body.parts_sublist.cons_cons _)
  | choice _ _ clauses => exact (clauseParts_sublist clauses).cons_cons _
  | attempt _ body handler finalizer =>
    exact ((listParts_sublist body).append (handlerParts_sublist handler)).append
      (finalizerParts_sublist finalizer)
  | labeled _ _ body => exact body.parts_sublist
  | _ => exact .refl _

theorem listParts_sublist (body : List Statement) :
    (listParts false body).Sublist (listParts true body) := by
  cases body with
  | nil => exact .slnil
  | cons s rest => exact s.parts_sublist.append (listParts_sublist rest)

theorem alternateParts_sublist (alternate : Option Statement) :
    (alternateParts false alternate).Sublist (alternateParts true alternate) := by
  cases alternate with
  | none => exact .slnil
  | some s => exact s.parts_sublist

theorem clauseParts_sublist (clauses : List Case) :
    (clauseParts false clauses).Sublist (clauseParts true clauses) := by
  cases clauses with
  | nil => exact .slnil
  | cons clause rest =>
    obtain ⟨test, body⟩ := clause
    exact ((List.Sublist.refl _).append (listParts_sublist body)).append (clauseParts_sublist rest)

theorem handlerParts_sublist (handler : Option Handler) :
    (handlerParts false handler).Sublist (handlerParts true handler) := by
  cases handler with
  | none => exact .slnil
  | some handler =>
    obtain ⟨parameter, body⟩ := handler
    exact (List.Sublist.refl _).append (listParts_sublist body)

theorem finalizerParts_sublist (finalizer : Option (List Statement)) :
    (finalizerParts false finalizer).Sublist (finalizerParts true finalizer) := by
  cases finalizer with
  | none => exact .slnil
  | some body => exact listParts_sublist body

end

/-! ## Order -/

/-- Stretches of the source that are not empty and follow each other between two offsets. -/
def Ordered (low high : Nat) : List Span → Prop
  | [] => True
  | span :: spans =>
    low ≤ span.start ∧ span.start < span.stop ∧ span.stop ≤ high ∧ Ordered span.stop high spans

namespace Ordered

variable {low high low' high' : Nat} {xs ys : List Span}

theorem mono (h : Ordered low high xs) (hlow : low' ≤ low) (hhigh : high ≤ high') :
    Ordered low' high' xs := by
  induction xs generalizing low low' with
  | nil => trivial
  | cons span xs ih =>
    obtain ⟨hstart, hlt, hstop, hrest⟩ := h
    exact ⟨by omega, hlt, by omega, ih hrest (Nat.le_refl _)⟩

/-- Stretches between two offsets and stretches from a later offset on. -/
theorem append (hx : Ordered low high xs) (hy : Ordered low' high' ys) (hlow : low ≤ low')
    (hhigh : high ≤ high') (hmeet : high ≤ low') : Ordered low high' (xs ++ ys) := by
  induction xs generalizing low with
  | nil => exact hy.mono hlow (Nat.le_refl _)
  | cons span xs ih =>
    obtain ⟨hstart, hlt, hstop, hrest⟩ := hx
    exact ⟨hstart, hlt, by omega, ih hrest (by omega)⟩

theorem sublist (h : Ordered low high ys) (hsub : xs.Sublist ys) : Ordered low high xs := by
  induction hsub generalizing low with
  | slnil => trivial
  | cons span _ ih =>
    obtain ⟨hstart, hlt, -, hrest⟩ := h
    exact (ih hrest).mono (by omega) (Nat.le_refl _)
  | cons_cons span _ ih =>
    obtain ⟨hstart, hlt, hstop, hrest⟩ := h
    exact ⟨hstart, hlt, hstop, ih hrest⟩

theorem between_of_mem (h : Ordered low high xs) : ∀ span ∈ xs,
    low ≤ span.start ∧ span.start < span.stop ∧ span.stop ≤ high := by
  induction xs generalizing low with
  | nil => nofun
  | cons span xs ih =>
    obtain ⟨hstart, hlt, hstop, hrest⟩ := h
    refine List.forall_mem_cons.2 ⟨⟨hstart, hlt, hstop⟩, fun other hother => ?_⟩
    obtain ⟨hle, hother⟩ := ih hrest other hother
    exact ⟨by omega, hother⟩

theorem pairwise (h : Ordered low high xs) : xs.Pairwise fun a b => a.stop ≤ b.start := by
  induction xs generalizing low with
  | nil => exact .nil
  | cons span xs ih =>
    obtain ⟨-, -, -, hrest⟩ := h
    exact .cons (fun other hother => (hrest.between_of_mem other hother).1) (ih hrest)

end Ordered

/-! ## Declarations -/

mutual

/-- Every function that is declared has a name, and every class that is declared starts where its
declaration does. -/
def Statement.Formed : Statement → Prop
  | .block _ body => ListFormed body
  | .conditional _ _ consequent alternate => consequent.Formed ∧ AlternateFormed alternate
  | .whileLoop _ _ body | .doLoop _ body _ | .forLoop _ _ _ _ body | .forIn _ _ _ body
  | .forOf _ _ _ _ body | .withObject _ _ body | .labeled _ _ body => body.Formed
  | .choice _ _ clauses => ClausesFormed clauses
  | .attempt _ body handler finalizer =>
    ListFormed body ∧ HandlerFormed handler ∧ FinalizerFormed finalizer
  | .function _ callable => callable.name.isSome ∧ CallableFormed callable
  | .classDeclaration start definition => definition.start = start ∧ ClassFormed definition
  | .returnValue _ _ | .throwValue _ _ | .jump _ _ _ | .expression _ _ | .idle _
  | .declaration _ _ | .moduleItem _ => True

def ListFormed : List Statement → Prop
  | [] => True
  | s :: rest => s.Formed ∧ ListFormed rest

def AlternateFormed : Option Statement → Prop
  | none => True
  | some s => s.Formed

def ClausesFormed : List Case → Prop
  | [] => True
  | ⟨_, body⟩ :: rest => ListFormed body ∧ ClausesFormed rest

def HandlerFormed : Option Handler → Prop
  | none => True
  | some ⟨_, body⟩ => ListFormed body

def FinalizerFormed : Option (List Statement) → Prop
  | none => True
  | some body => ListFormed body

def CallableFormed : Callable → Prop
  | ⟨_, _, _, _, _, body⟩ => BodyFormed body

def BodyFormed : Body → Prop
  | ⟨_, _, statements⟩ => ListFormed statements

def ClassFormed : ClassDefinition → Prop
  | ⟨_, _, _, _, elements⟩ => ElementsFormed elements

def ElementsFormed : List Element → Prop
  | [] => True
  | e :: rest => e.Formed ∧ ElementsFormed rest

def Element.Formed : Element → Prop
  | .staticBlock _ body => ListFormed body
  | .method _ _ _ _ callable => CallableFormed callable
  | .field .. => True

end

theorem listFormed_iff {body : List Statement} : ListFormed body ↔ ∀ s ∈ body, s.Formed := by
  induction body with
  | nil => simp [ListFormed]
  | cons s body ih => simp [ListFormed, ih]

theorem clausesFormed_iff {clauses : List Case} :
    ClausesFormed clauses ↔ ∀ c ∈ clauses, ListFormed c.body := by
  induction clauses with
  | nil => simp [ClausesFormed]
  | cons c clauses ih =>
    obtain ⟨test, body⟩ := c
    simp [ClausesFormed, ih]

theorem elementsFormed_iff {elements : List Element} :
    ElementsFormed elements ↔ ∀ e ∈ elements, e.Formed := by
  induction elements with
  | nil => simp [ElementsFormed]
  | cons e elements ih => simp [ElementsFormed, ih]

end Rebind.Snippet
