import Rebind.Proofs.Parts

/-!
# The nodes of a snippet

`Program.nodes` lists what re-emission walks through: statements, functions and methods, the bodies
of these, classes and their members, at any depth and each before what it holds.  Functions and
classes inside expressions are copied, so they are no nodes.

The parts of a node are among those of whatever holds it, in the same order
(`Node.parts_sublist_list`).
-/

namespace Rebind.Snippet

/-- Something that re-emission walks through. -/
inductive Node where
  | statement (s : Statement)
  | callable (callable : Callable)
  | body (body : Body)
  | definition (definition : ClassDefinition)
  | member (e : Element)

mutual

/-- The nodes that a statement holds. -/
def Statement.inside : Statement → List Node
  | .block _ body => listNodes body
  | .conditional _ _ consequent alternate =>
    .statement consequent :: consequent.inside ++ alternateNodes alternate
  | .whileLoop _ _ body | .doLoop _ body _ | .forLoop _ _ _ _ body | .forIn _ _ _ body
  | .forOf _ _ _ _ body | .withObject _ _ body | .labeled _ _ body => .statement body :: body.inside
  | .choice _ _ clauses => clauseNodes clauses
  | .attempt _ body handler finalizer =>
    listNodes body ++ handlerNodes handler ++ finalizerNodes finalizer
  | .function _ callable => callableNodes callable
  | .classDeclaration _ definition => classNodes definition
  | .returnValue _ _ | .throwValue _ _ | .jump _ _ _ | .expression _ _ | .idle _
  | .declaration _ _ | .moduleItem _ => []

def listNodes : List Statement → List Node
  | [] => []
  | s :: rest => .statement s :: s.inside ++ listNodes rest

def alternateNodes : Option Statement → List Node
  | none => []
  | some s => .statement s :: s.inside

def clauseNodes : List Case → List Node
  | [] => []
  | ⟨_, body⟩ :: rest => listNodes body ++ clauseNodes rest

def handlerNodes : Option Handler → List Node
  | none => []
  | some ⟨_, body⟩ => listNodes body

def finalizerNodes : Option (List Statement) → List Node
  | none => []
  | some body => listNodes body

/-- A function or method with the nodes that it holds. -/
def callableNodes : Callable → List Node
  | ⟨isAsync, isGenerator, name, parameters, rest, body⟩ =>
    .callable ⟨isAsync, isGenerator, name, parameters, rest, body⟩ :: bodyNodes body

/-- The body of a function with the nodes that it holds. -/
def bodyNodes : Body → List Node
  | ⟨start, directives, statements⟩ =>
    .body ⟨start, directives, statements⟩ :: listNodes statements

/-- A class with the nodes that it holds. -/
def classNodes : ClassDefinition → List Node
  | ⟨start, decorators, name, heritage, elements⟩ =>
    .definition ⟨start, decorators, name, heritage, elements⟩ :: elementsNodes elements

def elementsNodes : List Element → List Node
  | [] => []
  | e :: rest => .member e :: e.inside ++ elementsNodes rest

/-- The nodes that a member of a class holds. -/
def Element.inside : Element → List Node
  | .staticBlock _ body => listNodes body
  | .method _ _ _ _ callable => callableNodes callable
  | .field .. => []

end

/-- A statement with the nodes that it holds. -/
def Statement.nodes (s : Statement) : List Node := .statement s :: s.inside

/-- A member of a class with the nodes that it holds. -/
def Element.nodes (e : Element) : List Node := .member e :: e.inside

/-- All nodes of a snippet. -/
def Program.nodes (p : Program) : List Node := listNodes p.statements

/-! Lists of nodes, element by element -/

theorem listNodes_eq (body : List Statement) : listNodes body = body.flatMap Statement.nodes := by
  induction body with
  | nil => rfl
  | cons s body ih => simp [listNodes, Statement.nodes, ih]

theorem clauseNodes_eq (clauses : List Case) :
    clauseNodes clauses = clauses.flatMap fun c => listNodes c.body := by
  induction clauses with
  | nil => rfl
  | cons c clauses ih =>
    obtain ⟨test, body⟩ := c
    simp [clauseNodes, ih]

theorem elementsNodes_eq (elements : List Element) :
    elementsNodes elements = elements.flatMap Element.nodes := by
  induction elements with
  | nil => rfl
  | cons e elements ih => simp [elementsNodes, Element.nodes, ih]

/-! ## The parts of a node -/

/-- The parts of the source that a node holds, also those that are left out outside functions. -/
def Node.parts : Node → List Part
  | statement s => s.parts true
  | callable c => callableParts c
  | body b => bodyParts b
  | definition d => classParts d
  | member e => e.parts

namespace Node

variable {node : Node}

/-- A node is a statement itself or in it. -/
theorem parts_sublist_statement {s : Statement} (h : node ∈ s.nodes)
    (hinside : node ∈ s.inside → node.parts.Sublist (s.parts true)) :
    node.parts.Sublist (s.parts true) := by
  rcases List.mem_cons.1 h with rfl | h
  · exact List.Sublist.refl (s.parts true)
  · exact hinside h

mutual

/-- The parts of a node in a statement are among those of the statement, in the same order. -/
theorem parts_sublist_inside (s : Statement) (h : node ∈ s.inside) :
    node.parts.Sublist (s.parts true) := by
  cases s with
  | block _ body => exact parts_sublist_list body h
  | conditional _ _ consequent alternate =>
    refine List.Sublist.cons _ ?_
    rcases List.mem_append.1 h with h | h
    · exact List.sublist_append_of_sublist_left
        (parts_sublist_statement h (parts_sublist_inside consequent))
    · exact List.sublist_append_of_sublist_right (parts_sublist_alternate alternate h)
  | whileLoop _ _ body | withObject _ _ body =>
    exact (parts_sublist_statement h (parts_sublist_inside body)).cons _
  | doLoop _ body _ =>
    exact List.sublist_append_of_sublist_left
      (parts_sublist_statement h (parts_sublist_inside body))
  | forLoop _ _ _ _ body =>
    exact List.sublist_append_of_sublist_right
      (parts_sublist_statement h (parts_sublist_inside body))
  | forIn _ _ _ body | forOf _ _ _ _ body =>
    exact List.sublist_append_of_sublist_right
      ((parts_sublist_statement h (parts_sublist_inside body)).cons _)
  | labeled _ _ body => exact parts_sublist_statement (s := body) h (parts_sublist_inside body)
  | choice _ _ clauses => exact (parts_sublist_clauses clauses h).cons _
  | attempt _ body handler finalizer =>
    rcases List.mem_append.1 h with h | h
    · refine List.sublist_append_of_sublist_left ?_
      rcases List.mem_append.1 h with h | h
      · exact List.sublist_append_of_sublist_left (parts_sublist_list body h)
      · exact List.sublist_append_of_sublist_right (parts_sublist_handler handler h)
    · exact List.sublist_append_of_sublist_right (parts_sublist_finalizer finalizer h)
  | function _ callable => exact parts_sublist_callable callable h
  | classDeclaration _ definition => exact parts_sublist_class definition h
  | returnValue | throwValue | jump | expression | idle | declaration | moduleItem => nomatch h

/-- The parts of a node in a list of statements are among those of the list, in the same order. -/
theorem parts_sublist_list (body : List Statement) (h : node ∈ listNodes body) :
    node.parts.Sublist (listParts true body) := by
  cases body with
  | nil => nomatch h
  | cons s rest =>
    rcases List.mem_append.1 h with h | h
    · exact List.sublist_append_of_sublist_left
        (parts_sublist_statement h (parts_sublist_inside s))
    · exact List.sublist_append_of_sublist_right (parts_sublist_list rest h)

theorem parts_sublist_alternate (alternate : Option Statement)
    (h : node ∈ alternateNodes alternate) :
    node.parts.Sublist (alternateParts true alternate) := by
  cases alternate with
  | none => nomatch h
  | some s => exact parts_sublist_statement h (parts_sublist_inside s)

theorem parts_sublist_clauses (clauses : List Case) (h : node ∈ clauseNodes clauses) :
    node.parts.Sublist (clauseParts true clauses) := by
  cases clauses with
  | nil => nomatch h
  | cons clause rest =>
    obtain ⟨test, body⟩ := clause
    rcases List.mem_append.1 h with h | h
    · refine List.sublist_append_of_sublist_left ?_
      exact List.sublist_append_of_sublist_right (parts_sublist_list body h)
    · exact List.sublist_append_of_sublist_right (parts_sublist_clauses rest h)

theorem parts_sublist_handler (handler : Option Handler) (h : node ∈ handlerNodes handler) :
    node.parts.Sublist (handlerParts true handler) := by
  cases handler with
  | none => nomatch h
  | some handler =>
    obtain ⟨parameter, body⟩ := handler
    exact List.sublist_append_of_sublist_right (parts_sublist_list body h)

theorem parts_sublist_finalizer (finalizer : Option (List Statement))
    (h : node ∈ finalizerNodes finalizer) :
    node.parts.Sublist (finalizerParts true finalizer) := by
  cases finalizer with
  | none => nomatch h
  | some body => exact parts_sublist_list body h

theorem parts_sublist_callable (callable : Callable) (h : node ∈ callableNodes callable) :
    node.parts.Sublist (callableParts callable) := by
  obtain ⟨isAsync, isGenerator, name, parameters, rest, body⟩ := callable
  rcases List.mem_cons.1 h with rfl | h
  · exact List.Sublist.refl (callableParts _)
  · exact List.sublist_append_of_sublist_right (parts_sublist_body body h)

theorem parts_sublist_body (body : Body) (h : node ∈ bodyNodes body) :
    node.parts.Sublist (bodyParts body) := by
  obtain ⟨start, directives, statements⟩ := body
  rcases List.mem_cons.1 h with rfl | h
  · exact List.Sublist.refl (bodyParts _)
  · exact List.sublist_append_of_sublist_right (parts_sublist_list statements h)

theorem parts_sublist_class (definition : ClassDefinition) (h : node ∈ classNodes definition) :
    node.parts.Sublist (classParts definition) := by
  obtain ⟨start, decorators, name, heritage, elements⟩ := definition
  rcases List.mem_cons.1 h with rfl | h
  · exact List.Sublist.refl (classParts _)
  · exact List.sublist_append_of_sublist_right (parts_sublist_elements elements h)

theorem parts_sublist_elements (elements : List Element) (h : node ∈ elementsNodes elements) :
    node.parts.Sublist (elementsParts elements) := by
  cases elements with
  | nil => nomatch h
  | cons e rest =>
    rcases List.mem_append.1 h with h | h
    · refine List.sublist_append_of_sublist_left ?_
      rcases List.mem_cons.1 h with rfl | h
      · exact List.Sublist.refl e.parts
      · exact parts_sublist_member e h
    · exact List.sublist_append_of_sublist_right (parts_sublist_elements rest h)

theorem parts_sublist_member (e : Element) (h : node ∈ e.inside) :
    node.parts.Sublist e.parts := by
  cases e with
  | staticBlock _ body => exact parts_sublist_list body h
  | method _ _ _ name callable =>
    exact List.sublist_append_of_sublist_right (parts_sublist_callable callable h)
  | field => nomatch h

end

end Node

end Rebind.Snippet
