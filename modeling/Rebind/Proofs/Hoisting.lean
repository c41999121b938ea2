import Rebind.Proofs.DeclaredNames

/-!
# Hoisting

The template of a snippet is made in up to three passes over its own statements: the functions if
they come first, the statements before the last one, and the last one.  Together the passes are one
pass over a permutation of the statements (`program_eq`), so hoisting is the stable partition
into functions and other statements and nothing else (`hoisting_is_stable_partition`).

A statement keeps the mark of being the last one of the source when it moves: only with this mark an
expression gives the value of the snippet.
-/

namespace Rebind

open Rebind.Snippet

namespace Code

/-! ## A snippet's own statements -/

/-- One of a snippet's own statements, and whether it is the last one of them. -/
structure OwnStatement where
  statement : Statement
  isLast : Bool

/-- The own statements of a snippet in source order. -/
def ownStatements : List Statement → List OwnStatement
  | [] => []
  | [s] => [⟨s, true⟩]
  | s :: rest => ⟨s, false⟩ :: ownStatements rest

namespace OwnStatement

def isFunction (own : OwnStatement) : Bool :=
  Code.isFunction own.statement

/-- The template of an own statement.  The last one is the value of the snippet if it is an
expression. -/
def template : OwnStatement → Result
  | ⟨.expression start value, isLast⟩ =>
    if isLast then .ok (returned (expression value))
    else Code.statement .topLevel 0 .listed (.expression start value)
  | ⟨s, _⟩ => Code.statement .topLevel 0 .listed s

theorem template_of_not_last (s : Statement) :
    template ⟨s, false⟩ = Code.statement .topLevel 0 .listed s := by
  cases s <;> rfl

theorem template_of_isFunction {own : OwnStatement} (h : own.isFunction = true) :
    own.template = Code.statement .topLevel 0 .listed own.statement := by
  obtain ⟨s, isLast⟩ := own
  cases s with
  | function => rfl
  | _ => cases h

end OwnStatement

theorem ownStatements_concat (front : List Statement) (last : Statement) :
    ownStatements (front ++ [last]) = front.map (⟨·, false⟩) ++ [⟨last, true⟩] := by
  induction front with
  | nil => rfl
  | cons s front ih =>
    cases front with
    | nil => rfl
    | cons s' front => exact congrArg (⟨s, false⟩ :: ·) ih

theorem map_statement_ownStatements (body : List Statement) :
    (ownStatements body).map OwnStatement.statement = body := by
  rcases List.eq_nil_or_concat body with rfl | ⟨front, last, rfl⟩
  · rfl
  · rw [List.concat_eq_append, ownStatements_concat, List.map_append, List.map_map]
    congr 1
    exact List.map_id front

/-- The own statements of a snippet in the order in which they are written. -/
def ownWritten (hoist : Bool) (p : Program) : List OwnStatement :=
  let own := ownStatements p.statements
  if hoist then own.filter (·.isFunction) ++ own.filter fun own => !own.isFunction else own

/-! ## One pass -/

/-- The templates of own statements, one after the other. -/
def ownTemplates (own : List OwnStatement) : Result := do
  return (← own.mapM OwnStatement.template).flatten

theorem ownTemplates_append (xs ys : List OwnStatement) :
    ownTemplates (xs ++ ys) = do
      let front ← ownTemplates xs
      let back ← ownTemplates ys
      return front ++ back := by
  simp only [ownTemplates, List.mapM_append, bind_assoc, pure_bind, List.flatten_append]

theorem ownTemplates_singleton (own : OwnStatement) : ownTemplates [own] = own.template := by
  simp [ownTemplates]

theorem ownTemplates_not_last (body : List Statement) :
    ownTemplates (body.map (⟨·, false⟩)) = statements .topLevel 0 body := by
  induction body with
  | nil => rfl
  | cons s body ih =>
    rw [List.map_cons, ← List.singleton_append, ownTemplates_append, ownTemplates_singleton,
      OwnStatement.template_of_not_last, ih]
    rfl

theorem ownTemplates_of_isFunction {own : List OwnStatement}
    (h : ∀ s ∈ own, s.isFunction = true) :
    ownTemplates own = statements .topLevel 0 (own.map OwnStatement.statement) := by
  induction own with
  | nil => rfl
  | cons s own ih =>
    obtain ⟨hs, hown⟩ := List.forall_mem_cons.1 h
    rw [← List.singleton_append, ownTemplates_append, ownTemplates_singleton, ih hown,
      OwnStatement.template_of_isFunction hs]
    rfl

theorem lastStatement_eq (hoist : Bool) (s : Statement) :
    lastStatement hoist s =
      ownTemplates (if hoist && isFunction s then [] else [⟨s, true⟩]) := by
  have hlast : lastStatement hoist s =
      if hoist && isFunction s then .ok [] else OwnStatement.template ⟨s, true⟩ := by
    cases s with
    | function => rfl
    | _ => cases hoist <;> rfl
  rw [hlast]
  split
  · rfl
  · exact (ownTemplates_singleton _).symm

theorem map_filter_isFunction (body : List Statement) :
    ((ownStatements body).filter (·.isFunction)).map OwnStatement.statement =
      body.filter isFunction := by
  have h : ((ownStatements body).map OwnStatement.statement).filter isFunction =
      ((ownStatements body).filter (·.isFunction)).map OwnStatement.statement := List.filter_map
  rw [map_statement_ownStatements] at h
  exact h.symm

/-- The other statements are those before the last one, and the last one. -/
theorem filter_not_isFunction (front : List Statement) (last : Statement) :
    (ownStatements (front ++ [last])).filter (fun own => !own.isFunction) =
      (front.filter fun s => !isFunction s).map (⟨·, false⟩) ++
        if isFunction last then [] else [⟨last, true⟩] := by
  rw [ownStatements_concat, List.filter_append, List.filter_map]
  congr 1
  cases h : isFunction last <;> simp [OwnStatement.isFunction, h]

/-- The template of a snippet with statements, made in one pass over its own statements. -/
theorem program_eq (hoist : Bool) {p : Program} (hne : p.statements ≠ []) :
    program hoist p = do
      let own ← ownTemplates (ownWritten hoist p)
      return p.directives.flatMap directive ++ own := by
  obtain ⟨directives, body⟩ := p
  rcases List.eq_nil_or_concat body with rfl | ⟨front, last, rfl⟩
  · exact absurd rfl hne
  rw [List.concat_eq_append]
  -- Each of the three passes is one over marked statements.
  obtain ⟨functions, others, final, hfunctions, hothers, hfinal, hwritten⟩ :
      ∃ functions others final : List OwnStatement,
        statements .topLevel 0 (if hoist then (front ++ [last]).filter isFunction else []) =
          ownTemplates functions ∧
        statements .topLevel 0 (front.filter fun s => !(hoist && isFunction s)) =
          ownTemplates others ∧
        lastStatement hoist last = ownTemplates final ∧
        ownWritten hoist ⟨directives, front ++ [last]⟩ = functions ++ others ++ final := by
    cases hoist with
    | false =>
      refine ⟨[], front.map (⟨·, false⟩), [⟨last, true⟩], rfl, ?_, lastStatement_eq false last, ?_⟩
      · rw [ownTemplates_not_last]
        congr 1
        exact List.filter_eq_self.2 fun _ _ => rfl
      · exact ownStatements_concat front last
    | true =>
      refine ⟨(ownStatements (front ++ [last])).filter (·.isFunction), _, _, ?_,
        (ownTemplates_not_last _).symm, lastStatement_eq true last, ?_⟩
      · have hfunction : ∀ s ∈ (ownStatements (front ++ [last])).filter (·.isFunction),
            s.isFunction = true := fun s hs => (List.mem_filter.1 hs).2
        rw [ownTemplates_of_isFunction hfunction, map_filter_isFunction]
        rfl
      · have hothers := filter_not_isFunction front last
        simp only [ownWritten, ↓reduceIte, hothers, Bool.true_and, List.append_assoc]
  simp only [program, List.getLast?_append, List.getLast?_singleton, Option.some_or,
    List.dropLast_concat, hfunctions, hothers, hfinal, hwritten, ownTemplates_append, bind_assoc,
    pure_bind, List.append_assoc]

/-! ## The partition -/

/-- With a last statement that is no function, hoisting is a reordering of the source. -/
theorem ownWritten_reordered {p : Program}
    (hlast : ∀ last, p.statements.getLast? = some last → isFunction last = false) :
    ownWritten true p = ownWritten false
      ⟨p.directives, p.statements.filter isFunction ++ p.statements.filter (!isFunction ·)⟩ := by
  obtain ⟨directives, body⟩ := p
  rcases List.eq_nil_or_concat body with rfl | ⟨front, last, rfl⟩
  · rfl
  rw [List.concat_eq_append] at hlast ⊢
  have hlast : isFunction last = false := hlast last (by simp)
  have hmarked : (ownStatements (front ++ [last])).filter (·.isFunction) =
      (front.filter isFunction).map (⟨·, false⟩) := by
    have hnone : [(⟨last, true⟩ : OwnStatement)].filter (·.isFunction) = [] := by
      simpa [OwnStatement.isFunction] using hlast
    rw [ownStatements_concat, List.filter_append, List.filter_map, hnone, List.append_nil]
    rfl
  have hfunctions : (front ++ [last]).filter isFunction = front.filter isFunction := by
    simp [hlast]
  have hothers : (front ++ [last]).filter (!isFunction ·) =
      front.filter (!isFunction ·) ++ [last] := by
    simp [hlast]
  simp only [ownWritten, ↓reduceIte, Bool.false_eq_true, hmarked, hfunctions, hothers,
    filter_not_isFunction, hlast]
  rw [← List.append_assoc (front.filter isFunction), ownStatements_concat, List.map_append,
    List.append_assoc]

theorem mem_ownWritten {hoist : Bool} {p : Program} {own : OwnStatement} :
    own ∈ ownWritten hoist p ↔ own ∈ ownStatements p.statements := by
  cases hoist with
  | false => rfl
  | true =>
    cases h : own.isFunction <;> simp [ownWritten, h]

theorem mem_written {hoist : Bool} {p : Program} {s : Statement} :
    s ∈ written hoist p ↔ s ∈ p.statements := by
  cases hoist with
  | false => rfl
  | true =>
    cases h : isFunction s <;> simp [written, h]

/-! ## Success -/

theorem ownTemplates_isOk_iff {own : List OwnStatement} :
    (∃ t, ownTemplates own = .ok t) ↔ ∀ s ∈ own, ∃ t, s.template = .ok t := by
  induction own with
  | nil => exact ⟨fun _ => by simp, fun _ => ⟨[], rfl⟩⟩
  | cons s own ih =>
    rw [List.forall_mem_cons, ← ih, ← List.singleton_append, ownTemplates_append,
      ownTemplates_singleton]
    simp only [bind_eq_ok, pure_eq_ok]
    constructor
    · rintro ⟨t, front, hfront, back, hback, -⟩
      exact ⟨⟨front, hfront⟩, back, hback⟩
    · rintro ⟨⟨front, hfront⟩, back, hback⟩
      exact ⟨_, front, hfront, back, hback, rfl⟩

/-- A snippet has a template exactly if each of its own statements has one, in whatever order. -/
theorem program_isOk_iff (hoist : Bool) {p : Program} (hne : p.statements ≠ []) :
    (∃ t, program hoist p = .ok t) ↔
      ∀ own ∈ ownStatements p.statements, ∃ t, own.template = .ok t := by
  have hwritten : (∀ own ∈ ownWritten hoist p, ∃ t, own.template = .ok t) ↔
      ∀ own ∈ ownStatements p.statements, ∃ t, own.template = .ok t :=
    forall_congr' fun _ => by rw [mem_ownWritten]
  rw [← hwritten, ← ownTemplates_isOk_iff, program_eq hoist hne]
  simp only [bind_eq_ok, pure_eq_ok]
  constructor
  · rintro ⟨t, own, hown, -⟩
    exact ⟨own, hown⟩
  · rintro ⟨own, hown⟩
    exact ⟨_, own, hown, rfl⟩

/-! ## Bindings -/

theorem listVariableNames_eq (body : List Statement) :
    listVariableNames body = body.flatMap Statement.variableNames := by
  induction body with
  | nil => rfl
  | cons s body ih => rw [listVariableNames, List.flatMap_cons, ih]

/-- Names that statements contribute do not depend on the order of the statements. -/
theorem mem_flatMap_written {names : Statement → List String} {hoist : Bool} {p : Program}
    {name : String} :
    name ∈ ((written hoist p).flatMap names).eraseDups ↔ ∃ s ∈ p.statements, name ∈ names s := by
  rw [List.mem_eraseDups, List.mem_flatMap]
  exact exists_congr fun s => and_congr_left fun _ => mem_written

/-- Two sets of bindings that have the same names. -/
structure SameNames (a b : Bindings) : Prop where
  global : ∀ name, name ∈ a.global ↔ name ∈ b.global
  scope : ∀ name, name ∈ a.scope ↔ name ∈ b.scope
  constants : ∀ name, name ∈ a.constants ↔ name ∈ b.constants

theorem declared_sameNames (hoist hoist' : Bool) (p : Program) :
    SameNames (p.declared hoist) (p.declared hoist') := by
  constructor
  · intro name
    rw [Program.declared, Program.declared, listVariableNames_eq, listVariableNames_eq,
      mem_flatMap_written, mem_flatMap_written]
  · intro name
    rw [Program.declared, Program.declared, mem_flatMap_written, mem_flatMap_written]
  · intro name
    rw [Program.declared, Program.declared, mem_flatMap_written, mem_flatMap_written]

end Code

/-! ## Hoisting -/

/-- The output that a template stands for under options. -/
def Template.output (options : Options) (source : String) (t : Template) : Output where
  code := t.code options.filling source.toList
  bindings := t.bindings

/-- The output for a snippet whose tree is given. -/
def Snippet.Program.output (options : Options) (source : String) (p : Program) :
    Except RebindError Output :=
  (Code.program options.hoistFunctions p).map (Template.output options source)

theorem rebind_eq_output (options : Options) {source : String} {p : Program}
    (hp : parse source.toList = .ok p) : rebind options source = p.output options source := by
  rw [rebind, template, hp, Program.output]
  change (Code.program options.hoistFunctions p >>= fun t => pure (t.output options source)) = _
  cases Code.program options.hoistFunctions p <;> rfl

/-- **Hoisting is a stable partition and nothing else.**  With hoisting on, the code is made of the
directives and of the templates of all own statements, first of the functions and then of the
others, each in source order; only the last statement of the source gives a value.  If that one is
no function, the whole result is the one without hoisting for the statements in that order.  In any
case hoisting changes neither whether there is a result nor the sets of names that are bound. -/
theorem hoisting_is_stable_partition (options : Options) {source : String} {p : Program}
    (hp : parse source.toList = .ok p) (hne : p.statements ≠ []) :
    let on := { options with hoistFunctions := true }
    let off := { options with hoistFunctions := false }
    let own := Code.ownStatements p.statements
    (rebind on source = do
      let parts ← (own.filter (·.isFunction) ++ own.filter (!·.isFunction)).mapM
        Code.OwnStatement.template
      return Template.output options source
        (p.directives.flatMap Code.directive ++ parts.flatten)) ∧
    ((∀ last, p.statements.getLast? = some last → Code.isFunction last = false) →
      rebind on source = Program.output off source
        ⟨p.directives,
          p.statements.filter Code.isFunction ++ p.statements.filter (!Code.isFunction ·)⟩) ∧
    ((∃ out, rebind on source = .ok out) ↔ ∃ out, rebind off source = .ok out) ∧
    ∀ out out', rebind on source = .ok out → rebind off source = .ok out' →
      Code.SameNames out.bindings out'.bindings := by
  intro on off own
  rw [rebind_eq_output on hp, rebind_eq_output off hp]
  refine ⟨?_, fun hlast => ?_, ?_, fun out out' hout hout' => ?_⟩
  · rw [Program.output, Code.program_eq true hne, Code.ownTemplates, Code.ownWritten]
    simp only [↓reduceIte, bind_assoc, pure_bind]
    cases List.mapM Code.OwnStatement.template
      (own.filter (·.isFunction) ++ own.filter (!·.isFunction)) <;> rfl
  · have hreordered : p.statements.filter Code.isFunction ++
        p.statements.filter (!Code.isFunction ·) ≠ [] := by
      intro hnil
      obtain ⟨s, hs⟩ := List.exists_mem_of_ne_nil _ hne
      have hmem : s ∈ Code.written true p := Code.mem_written.2 hs
      rw [Code.written, if_pos rfl, hnil] at hmem
      cases hmem
    rw [Program.output, Program.output, Code.program_eq true hne,
      Code.program_eq false hreordered, Code.ownWritten_reordered hlast]
    rfl
  · have hmap (options : Options) : (∃ out, p.output options source = .ok out) ↔
        ∃ t, Code.program options.hoistFunctions p = .ok t := by
      unfold Program.output
      cases Code.program options.hoistFunctions p with
      | error e => simp [Except.map]
      | ok t => simp [Except.map]
    rw [hmap, hmap, Code.program_isOk_iff _ hne, Code.program_isOk_iff _ hne]
  · have hbindings {options : Options} {out : Output} (h : p.output options source = .ok out) :
        out.bindings = p.declared options.hoistFunctions := by
      unfold Program.output at h
      cases ht : Code.program options.hoistFunctions p with
      | error e => rw [ht] at h; cases h
      | ok t =>
        rw [ht] at h
        cases h
        exact Code.bindings_program ht
    rw [hbindings hout, hbindings hout']
    exact Code.declared_sameNames _ _ p

/-- Two functions move before the statements around them, and the last expression gives the
value. -/
theorem functions_are_moved_to_front :
    let source := "a; function f() \x7b\x7d b; function g() \x7b\x7d c"
    ∃ p, parse source.toList = .ok p ∧ p.statements ≠ [] ∧
      rebind {} source = Program.output { hoistFunctions := false } source
        ⟨p.directives,
          p.statements.filter Code.isFunction ++ p.statements.filter (!Code.isFunction ·)⟩ ∧
      rebind {} source = .ok {
        code := "window[\"f\"] = function () \x7b\n\x7d;\n" ++
          "window[\"g\"] = function () \x7b\n\x7d;\na;\nb;\nreturn c;\n"
        bindings := { global := ["f", "g"] } } := by
  intro source
  have hsource : (parse source.toList).toOption.any (fun p => !p.statements.isEmpty &&
      p.statements.getLast?.all (!Code.isFunction ·)) = true := by decide +kernel
  obtain ⟨p, hp, hshape⟩ := (Option.any_eq_true _ _).1 hsource
  rw [Bool.and_eq_true, Bool.not_eq_true', List.isEmpty_eq_false_iff] at hshape
  obtain ⟨hne, hlast⟩ := hshape
  have hp : parse source.toList = .ok p := Code.eq_ok_of_toOption hp
  refine ⟨p, hp, hne, (hoisting_is_stable_partition {} hp hne).2.1 fun last h => ?_, ?_⟩
  · simpa [h] using hlast
  · exact Code.eq_ok_of_toOption (by decide +kernel)

end Rebind
