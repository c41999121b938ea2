import Rebind.Proofs.Reading.Places
import Rebind.Proofs.Refusals

/-!
# Where visits start

Everything that is entered on the way through a snippet is a node of it, so it starts no later than
where the text ends (`visit_start_le`).
-/

namespace Rebind

open Rebind.Snippet

/-- No visit starts past the first `limit` bytes. -/
def StartWithin (limit : Nat) (visits : List Visit) : Prop :=
  ∀ v ∈ visits, v.start ≤ limit

section StartWithin

variable {limit start depth : Nat} {obstacle : Option Obstacle} {vs ws : List Visit}

@[simp] theorem startWithin_nil : StartWithin limit [] :=
  nofun

@[simp] theorem startWithin_cons :
    StartWithin limit (⟨start, depth, obstacle⟩ :: vs) ↔ start ≤ limit ∧ StartWithin limit vs :=
  List.forall_mem_cons

@[simp] theorem startWithin_append :
    StartWithin limit (vs ++ ws) ↔ StartWithin limit vs ∧ StartWithin limit ws :=
  List.forall_mem_append

end StartWithin

variable {source : List Char}

mutual

theorem startWithin_visits (standing : Standing) (depth : Nat) (s : Statement)
    (h : s.Placed source) : StartWithin (Text.byteSize source) (s.visits standing depth) := by
  obtain ⟨⟨hstart, -⟩, hinside⟩ := allPlaced_cons.1 h
  cases s with
  | block start body =>
    rw [Statement.visits]
    split
    · exact startWithin_listVisits depth body hinside
    · exact startWithin_cons.2 ⟨hstart, startWithin_listVisits (depth + 1) body hinside⟩
  | labeled start labels body =>
    rw [Statement.visits]
    split
    · exact startWithin_visits .labeled depth body hinside
    · exact startWithin_cons.2 ⟨hstart, startWithin_visits .labeled (depth + 1) body hinside⟩
  | conditional start test consequent alternate =>
    obtain ⟨hconsequent, halternate⟩ := allPlaced_append.1 hinside
    rw [Statement.visits, startWithin_cons, startWithin_append]
    exact ⟨hstart, startWithin_visits .alone (depth + 1) consequent hconsequent,
      startWithin_alternateVisits (depth + 1) alternate halternate⟩
  | whileLoop _ _ body | doLoop _ body _ | forLoop _ _ _ _ body | forIn _ _ _ body
  | forOf _ _ _ _ body | withObject _ _ body =>
    rw [Statement.visits, startWithin_cons]
    exact ⟨hstart, startWithin_visits .alone (depth + 1) body hinside⟩
  | choice start value clauses =>
    rw [Statement.visits, startWithin_cons]
    exact ⟨hstart, startWithin_clauseVisits (depth + 1) clauses hinside⟩
  | attempt start body handler finalizer =>
    obtain ⟨hinside, hfinalizer⟩ := allPlaced_append.1 hinside
    obtain ⟨hbody, hhandler⟩ := allPlaced_append.1 hinside
    rw [Statement.visits, startWithin_cons, startWithin_append, startWithin_append]
    exact ⟨hstart, startWithin_listVisits (depth + 1) body hbody,
      startWithin_handlerVisits (depth + 1) handler hhandler,
      startWithin_finalizerVisits (depth + 1) finalizer hfinalizer⟩
  | function start callable =>
    rw [Statement.visits, startWithin_cons]
    exact ⟨hstart, startWithin_callableVisits (depth + 1) callable hinside⟩
  | classDeclaration start definition =>
    rw [Statement.visits, startWithin_cons]
    exact ⟨hstart, startWithin_classVisits (depth + 1) definition hinside⟩
  | returnValue | throwValue | jump | expression | idle | declaration | moduleItem =>
    rw [Statement.visits, startWithin_cons]
    exact ⟨hstart, startWithin_nil⟩

theorem startWithin_listVisits (depth : Nat) (body : List Statement)
    (h : AllPlaced source (listNodes body)) :
    StartWithin (Text.byteSize source) (listVisits depth body) := by
  cases body with
  | nil => exact startWithin_nil
  | cons s rest =>
    obtain ⟨hs, hrest⟩ := allPlaced_append.1 h
    rw [listVisits, startWithin_append]
    exact ⟨startWithin_visits .listed depth s hs, startWithin_listVisits depth rest hrest⟩

theorem startWithin_alternateVisits (depth : Nat) (alternate : Option Statement)
    (h : AllPlaced source (alternateNodes alternate)) :
    StartWithin (Text.byteSize source) (alternateVisits depth alternate) := by
  cases alternate with
  | none => exact startWithin_nil
  | some s => exact startWithin_visits .alone depth s h

theorem startWithin_clauseVisits (depth : Nat) (clauses : List Case)
    (h : AllPlaced source (clauseNodes clauses)) :
    StartWithin (Text.byteSize source) (clauseVisits depth clauses) := by
  cases clauses with
  | nil => exact startWithin_nil
  | cons clause rest =>
    obtain ⟨test, body⟩ := clause
    obtain ⟨hbody, hrest⟩ := allPlaced_append.1 h
    rw [clauseVisits, startWithin_append]
    exact ⟨startWithin_listVisits depth body hbody, startWithin_clauseVisits depth rest hrest⟩

theorem startWithin_handlerVisits (depth : Nat) (handler : Option Handler)
    (h : AllPlaced source (handlerNodes handler)) :
    StartWithin (Text.byteSize source) (handlerVisits depth handler) := by
  cases handler with
  | none => exact startWithin_nil
  | some handler =>
    obtain ⟨parameter, body⟩ := handler
    exact startWithin_listVisits depth body h

theorem startWithin_finalizerVisits (depth : Nat) (finalizer : Option (List Statement))
    (h : AllPlaced source (finalizerNodes finalizer)) :
    StartWithin (Text.byteSize source) (finalizerVisits depth finalizer) := by
  cases finalizer with
  | none => exact startWithin_nil
  | some body => exact startWithin_listVisits depth body h

theorem startWithin_callableVisits (depth : Nat) (callable : Callable)
    (h : AllPlaced source (callableNodes callable)) :
    StartWithin (Text.byteSize source) (callableVisits depth callable) := by
  obtain ⟨isAsync, isGenerator, name, parameters, rest, body⟩ := callable
  exact startWithin_bodyVisits depth body (allPlaced_cons.1 h).2

theorem startWithin_bodyVisits (depth : Nat) (body : Body)
    (h : AllPlaced source (bodyNodes body)) :
    StartWithin (Text.byteSize source) (bodyVisits depth body) := by
  obtain ⟨start, directives, statements⟩ := body
  obtain ⟨hbody, hstatements⟩ := allPlaced_cons.1 h
  rw [bodyVisits, startWithin_cons]
  exact ⟨hbody.start_le, startWithin_listVisits (depth + 1) statements hstatements⟩

theorem startWithin_classVisits (depth : Nat) (definition : ClassDefinition)
    (h : AllPlaced source (classNodes definition)) :
    StartWithin (Text.byteSize source) (classVisits depth definition) := by
  obtain ⟨start, decorators, name, heritage, elements⟩ := definition
  obtain ⟨hstart, helements⟩ := allPlaced_cons.1 h
  rw [classVisits, startWithin_cons]
  exact ⟨hstart, startWithin_elementsVisits (depth + 1) elements helements⟩

theorem startWithin_elementsVisits (depth : Nat) (elements : List Element)
    (h : AllPlaced source (elementsNodes elements)) :
    StartWithin (Text.byteSize source) (elementsVisits depth elements) := by
  cases elements with
  | nil => exact startWithin_nil
  | cons e rest =>
    obtain ⟨he, hrest⟩ := allPlaced_append.1 h
    rw [elementsVisits, startWithin_append]
    exact ⟨startWithin_memberVisits depth e he, startWithin_elementsVisits depth rest hrest⟩

theorem startWithin_memberVisits (depth : Nat) (e : Element) (h : e.Placed source) :
    StartWithin (Text.byteSize source) (e.visits depth) := by
  obtain ⟨hmember, hinside⟩ := allPlaced_cons.1 h
  cases e with
  | staticBlock start body =>
    rw [Element.visits, startWithin_cons]
    exact ⟨hmember, startWithin_listVisits (depth + 1) body hinside⟩
  | method _ _ _ _ callable => exact startWithin_callableVisits depth callable hinside
  | field => exact startWithin_nil

end

open Code in
theorem startWithin_own {own : OwnStatement} (h : own.statement.Placed source) :
    StartWithin (Text.byteSize source) own.visits := by
  obtain ⟨s, isLast⟩ := own
  cases s with
  | expression start value =>
    cases isLast with
    | true => exact startWithin_nil
    | false => exact startWithin_visits .own 0 _ h
  | _ => exact startWithin_visits .own 0 _ h

/-- Everything that is entered on the way through a snippet starts in its text. -/
theorem visit_start_le {source : List Char} {p : Program} (hp : Program.parse source = .ok p)
    (hoist : Bool) : StartWithin (Text.byteSize source) (p.visits hoist) := by
  intro v hv
  obtain ⟨own, hown, hv⟩ := List.mem_flatMap.1 hv
  have hmem := Code.statement_mem_of_mem_ownStatements (Code.mem_ownWritten.1 hown)
  have hplaced := Program.parse_placed hp
  rw [Program.nodes, listNodes_eq] at hplaced
  exact startWithin_own (fun node hnode => hplaced node (List.mem_flatMap.2 ⟨_, hmem, hnode⟩)) v hv

end Rebind
