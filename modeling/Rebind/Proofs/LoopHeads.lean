import Rebind.Code
import Rebind.Proofs.Emission
import Rebind.Proofs.Layout
import Rebind.Proofs.Parameters
import Rebind.Proofs.Reading.Places

/-!
# Heads of loops over values

A loop over values cannot be read if a bare word `async` or `let` stands before `of`.  The first
target of a declaration that is written as assignments is guarded against the one word and not
against the other, and a place is not guarded at all, so that it is bare if it loses parentheses
(`for_of_target_is_ambiguous_iff`).
-/

namespace Rebind

open Rebind.Text (byteSize)
open Rebind.Layout
open Rebind.Snippet

/-- What is written before `of` for the target of a loop is an ambiguous word. -/
def Snippet.LoopTarget.IsBare (mode : ScopeMode) (source : List Char) : LoopTarget → Prop
  | .declaration d => Code.redirects mode d = true ∧
      ∃ span value rest, d.declarators = ⟨.name "let" span, value⟩ :: rest
  | .place value =>
    value.hosts = [] ∧ String.ofList (value.span.slice source) ∈ ambiguousWords

namespace Code

variable {filling : Filling} {source : List Char} {mode : ScopeMode}

/-- An ambiguous word has only small letters. -/
theorem not_ambiguous_of_mem {c : Char} {text : List Char} (hmem : c ∈ text)
    (hc : ¬ ('a' ≤ c ∧ c ≤ 'z')) : String.ofList text ∉ ambiguousWords := by
  intro hword
  have hsmall :
      (ambiguousWords.all fun word => word.toList.all fun c => 'a' ≤ c ∧ c ≤ 'z') = true := by
    decide
  have hword := List.all_eq_true.1 hsmall _ hword
  rw [String.toList_ofList] at hword
  exact hc (of_decide_eq_true (List.all_eq_true.1 hword c hmem))

theorem textOf_text (text : String) : textOf filling source [Piece.text text] = text.toList :=
  List.flatMap_singleton _ _

theorem ambiguous_pattern {target : Pattern} :
    String.ofList (textOf filling source (pattern target)) ∈ ambiguousWords ↔
      ∃ name span, target = .name name span ∧ name ∈ ambiguousWords := by
  have hmark {c : Char} (h : c ∈ textOf filling source (pattern target))
      (hc : ¬ ('a' ≤ c ∧ c ≤ 'z')) (hother : ∀ name span, target ≠ .name name span) :
      String.ofList (textOf filling source (pattern target)) ∈ ambiguousWords ↔
        ∃ name span, target = .name name span ∧ name ∈ ambiguousWords :=
    iff_of_false (not_ambiguous_of_mem h hc) fun ⟨name, span, heq, _⟩ => hother name span heq
  cases target with
  | name name span =>
    rw [pattern, textOf_text, String.ofList_toList]
    exact ⟨fun h => ⟨name, span, rfl, h⟩, fun ⟨_, _, heq, h⟩ => by cases heq; exact h⟩
  | array span elements rest =>
    refine hmark (c := '[') ?_ (by decide) (by simp)
    cases rest <;> simp [pattern, textOf, Piece.fill]
  | object span properties rest =>
    refine hmark (c := '\x7b') ?_ (by decide) (by simp)
    cases rest <;> simp [pattern, textOf, Piece.fill]
  | withDefault target value =>
    refine hmark (c := '=') ?_ (by decide) (by simp)
    rw [pattern, textOf_append, textOf_append, textOf_text]
    simp

theorem ambiguous_assignedTarget {d : Declaration} :
    String.ofList (textOf filling source (assignedTarget true d)) ∈ ambiguousWords ↔
      ∃ span value rest, d.declarators = ⟨.name "let" span, value⟩ :: rest := by
  cases hd : d.declarators with
  | nil =>
    have hnothing : String.ofList [] ∉ ambiguousWords := by decide
    rw [assignedTarget, hd]
    exact iff_of_false hnothing (by simp)
  | cons first rest =>
    obtain ⟨target, value⟩ := first
    rw [assignedTarget_cons true hd]
    split
    · next hasync =>
      obtain ⟨span, htarget⟩ := pattern_eq_text.1 hasync.2
      refine iff_of_false ?_ ?_
      · rw [textOf_text]
        decide
      · rintro ⟨_, _, _, heq⟩
        obtain ⟨hfirst, -⟩ := List.cons_eq_cons.1 heq
        cases hfirst
        simp at htarget
    · next hother =>
      rw [ambiguous_pattern]
      constructor
      · rintro ⟨name, span, rfl, hname⟩
        obtain rfl | rfl : name = "async" ∨ name = "let" := by simpa [ambiguousWords] using hname
        · exact absurd ⟨rfl, pattern_eq_text.2 ⟨span, rfl⟩⟩ hother
        · exact ⟨span, value, rest, rfl⟩
      · rintro ⟨span, _, _, heq⟩
        cases heq
        exact ⟨"let", span, rfl, by decide⟩

/-- A place is copied from the source, and a host form in it leaves a point. -/
theorem ambiguous_place {value : Expression} (h : value.Nested (byteSize source) source) :
    String.ofList (textOf filling source (expression value)) ∈ ambiguousWords ↔
      value.hosts = [] ∧ String.ofList (value.span.slice source) ∈ ambiguousWords := by
  cases hhosts : value.hosts with
  | nil =>
    have htext : textOf filling source (expression value) = value.span.slice source := by
      rw [expression_eq, hhosts, copied_nil]
      simp [textOf, Piece.fill]
    rw [htext, and_iff_right rfl]
  | cons host hosts =>
    have hbetween := h.hosts
    rw [hhosts] at hbetween
    have hpoint : '.' ∈ textOf filling source (hostSite host).2 := by
      cases host <;> simp [hostSite, textOf, Piece.fill]
    have hmem : '.' ∈ textOf filling source (expression value) := by
      rw [expression_eq, hhosts, copied_cons hbetween, textOf_cons, textOf_append]
      exact List.mem_append_right _ (List.mem_append_left _ hpoint)
    exact iff_of_false (not_ambiguous_of_mem hmem (by decide)) (by simp)

/-- What stands before `of` is an ambiguous word exactly if the target is bare. -/
theorem ambiguous_loopTarget {target : LoopTarget}
    (h : ∀ value, target = .place value → value.Nested (byteSize source) source) :
    String.ofList (textOf filling source (loopTarget mode true target)) ∈ ambiguousWords ↔
      target.IsBare mode source := by
  cases target with
  | place value => exact ambiguous_place (h value rfl)
  | declaration d =>
    rw [loopTarget, LoopTarget.IsBare]
    split
    · next hredirects => rw [ambiguous_assignedTarget, and_iff_right hredirects]
    · next hredirects =>
      have hblank : ' ' ∈ textOf filling source (declaration d) := by
        rw [declaration, textOf_append, textOf_text]
        simp
      exact iff_of_false (not_ambiguous_of_mem hblank (by decide)) fun hbare => hredirects hbare.1

end Code

namespace Template

/-- A fragment stands in the text that is laid out. -/
theorem layOut_fragment_infix (filling : Filling) (source : List Char) (state : State)
    (front : Template) (fragment : Fragment) (back : Template) :
    ∃ before after : List Char,
      ((front ++ write fragment ++ back).layOut filling source state).text.toList =
        state.text.toList ++ (before ++ Code.textOf filling source fragment ++ after) := by
  obtain ⟨first, hfirst⟩ := layOut_text filling source state front
  obtain ⟨blanks, hblanks⟩ := (front.layOut filling source state).run_write filling.indentWidth
    (String.join (fragment.map (Piece.fill filling source)))
  obtain ⟨last, hlast⟩ :=
    layOut_text filling source ((front ++ write fragment).layOut filling source state) back
  refine ⟨first.toList ++ ("".pushn ' ' blanks).toList, last.toList, ?_⟩
  rw [layOut_append, hlast, layOut_append, layOut_write, hblanks, hfirst]
  simp only [String.toList_append, String.toList_join, List.flatMap_map, List.append_assoc]
  rfl

end Template

/-- The place in the head of a loop lies in the source. -/
theorem nested_place {source : List Char} {p : Program} (hp : Program.parse source = .ok p)
    {start : Nat} {isAwait : Bool} {value values : Expression} {body : Statement}
    (hnode : Node.statement (.forOf start isAwait (.place value) values body) ∈ p.nodes) :
    value.Nested (byteSize source) source := by
  have hpart : Part.expression value ∈ listParts true p.statements :=
    (Node.parts_sublist_list p.statements hnode).subset List.mem_cons_self
  exact Program.parse_nested hp _ (List.mem_append_right _ hpart)

/-- **The word before `of`.**  In the code of a loop over values that does not await, what stands
between `for (` and ` of ` is the bare word `async` or `let` in two cases and no other: a variable
that is declared in the head and written as a property is named `let`, or the place assigned to is
spelled as one of the words.  Such a place stands in parentheses in the source, past the parenthesis
of the head itself. -/
theorem for_of_target_is_ambiguous_iff {source : List Char} {p : Program}
    (hp : parse source = .ok p) {start : Nat} {target : LoopTarget} {values : Expression}
    {body : Statement} (hnode : Node.statement (.forOf start false target values body) ∈ p.nodes)
    {mode : ScopeMode} {depth : Nat} {role : Code.Role} {t : Template}
    (ht : Code.statement mode depth role (.forOf start false target values body) = .ok t)
    (filling : Filling) (state : State) :
    let left := Code.textOf filling source (Code.loopTarget mode true target)
    (∃ before after : List Char, (t.layOut filling source state).text.toList =
        state.text.toList ++ (before ++ ("for (".toList ++ left ++ " of ".toList) ++ after)) ∧
      (String.ofList left ∈ ["async", "let"] ↔ target.IsBare mode source) ∧
      ∀ value, target = .place value → target.IsBare mode source → OpensTwice source start := by
  intro left
  have hp := parse_eq_ok.1 hp
  refine ⟨?_, Code.ambiguous_loopTarget fun value hvalue => nested_place hp (hvalue ▸ hnode), ?_⟩
  · obtain ⟨-, inner, -, rfl⟩ := Code.statement_forOf_ok.1 ht
    have hhead : Code.forOfHead mode false target values = Template.write
        ([Piece.text "for ("] ++ Code.loopTarget mode true target ++ [Piece.text " of "] ++
          Code.expression values ++ [Piece.text ") "]) := by
      rw [Code.forOfHead, Code.targetTail, ← Template.write_append, if_neg Bool.false_ne_true]
      simp only [List.append_assoc]
    rw [hhead, List.append_assoc _ (Template.braced inner)]
    obtain ⟨before, after, htext⟩ := Template.layOut_fragment_infix filling source state
      (Code.registrationUnless role mode (.forOf start false target values body))
      ([Piece.text "for ("] ++ Code.loopTarget mode true target ++ [Piece.text " of "] ++
        Code.expression values ++ [Piece.text ") "]) (Template.braced inner ++ [Step.newline])
    refine ⟨before, Code.textOf filling source (Code.expression values ++ [Piece.text ") "]) ++
      after, ?_⟩
    rw [htext]
    simp only [Code.textOf_append, Code.textOf_text, List.append_assoc, left]
  · rintro value rfl hbare
    exact (Program.parse_placed hp _ hnode).2 rfl hbare.2

/-- What is written before `of` in the code of a loop that does not await, outside other
statements. -/
def Snippet.Node.left? (source : List Char) : Node → Option String
  | .statement (.forOf start false target values inner) =>
    if (Code.statement .topLevel 0 .listed (.forOf start false target values inner)).toOption.isSome
    then some (String.ofList
      (Code.textOf ({} : Options).filling source (Code.loopTarget .topLevel true target)))
    else none
  | _ => none

theorem exists_loop_of_left? (source : List Char) (lefts : List String)
    (h : (parse source).toOption.map (·.nodes.filterMap (Node.left? source)) = some lefts) :
    ∃ p, parse source = .ok p ∧ ∀ left ∈ lefts, ∃ start target values body t,
      Node.statement (.forOf start false target values body) ∈ p.nodes ∧
      Code.statement .topLevel 0 .listed (.forOf start false target values body) = .ok t ∧
      String.ofList (Code.textOf ({} : Options).filling source
        (Code.loopTarget .topLevel true target)) = left := by
  cases hp : parse source with
  | error e =>
    rw [hp] at h
    cases h
  | ok p =>
    rw [hp] at h
    obtain rfl := Option.some.inj h
    refine ⟨p, rfl, fun left hleft => ?_⟩
    obtain ⟨node, hnode, hleft⟩ := List.mem_filterMap.1 hleft
    unfold Node.left? at hleft
    split at hleft
    · next start target values body =>
      split at hleft
      · next hsome =>
        obtain ⟨t, ht⟩ := Option.isSome_iff_exists.1 hsome
        exact ⟨start, target, values, body, t, hnode, Code.eq_ok_of_toOption ht,
          Option.some.inj hleft⟩
      · cases hleft
    · cases hleft

/-- A variable `async` that is written as a property stands in parentheses. -/
theorem async_variable_is_guarded :
    ∃ p start target values body t, parse "for (var async of xs) ;".toList = .ok p ∧
      Node.statement (.forOf start false target values body) ∈ p.nodes ∧
      Code.statement .topLevel 0 .listed (.forOf start false target values body) = .ok t ∧
      (∃ before after : List Char,
        (t.layOut ({} : Options).filling "for (var async of xs) ;".toList {}).text.toList =
          before ++ "for ((async) of ".toList ++ after) ∧
      ¬ target.IsBare .topLevel "for (var async of xs) ;".toList := by
  obtain ⟨p, hp, hloops⟩ :=
    exists_loop_of_left? "for (var async of xs) ;".toList ["(async)"] (by decide +kernel)
  obtain ⟨start, target, values, body, t, hnode, ht, hleft⟩ := hloops _ List.mem_cons_self
  obtain ⟨⟨before, after, htext⟩, hbare, -⟩ :=
    for_of_target_is_ambiguous_iff hp hnode ht ({} : Options).filling {}
  rw [hleft] at hbare
  have hleft : Code.textOf ({} : Options).filling "for (var async of xs) ;".toList
      (Code.loopTarget .topLevel true target) = "(async)".toList :=
    String.toList_ofList.symm.trans (congrArg String.toList hleft)
  refine ⟨p, start, target, values, body, t, hp, hnode, ht, ⟨before, after, ?_⟩, ?_⟩
  · rw [htext, hleft]
    rfl
  · exact fun h => absurd (hbare.2 h) (by decide)

/-- A name that stands in parentheses in the source is written without them, so that the code cannot
be read. -/
theorem async_place_loses_parentheses :
    (rebind {} "for ((async) of xs) ;").toOption =
        some { code := "for (async of xs) \x7b\n\x7d\n", bindings := {} } ∧
      (parse "for (async of xs) \x7b\n\x7d\n".toList).toOption.isNone = true ∧
      ¬ ∀ (filling : Filling) (source : List Char) (p : Program) (start : Nat)
        (target : LoopTarget) (values : Expression) (body : Statement) (mode : ScopeMode)
        (depth : Nat) (role : Code.Role) (t : Template),
        parse source = .ok p →
          Node.statement (.forOf start false target values body) ∈ p.nodes →
            Code.statement mode depth role (.forOf start false target values body) = .ok t →
              String.ofList (Code.textOf filling source (Code.loopTarget mode true target)) ∉
                ["async", "let"] := by
  refine ⟨by decide +kernel, by decide +kernel, fun h => ?_⟩
  obtain ⟨p, hp, hloops⟩ :=
    exists_loop_of_left? "for ((async) of xs) ;".toList ["async"] (by decide +kernel)
  obtain ⟨start, target, values, body, t, hnode, ht, hleft⟩ := hloops _ List.mem_cons_self
  have hfree := h ({} : Options).filling "for ((async) of xs) ;".toList p start target values body
    .topLevel 0 .listed t hp hnode ht
  rw [hleft] at hfree
  exact hfree (by decide)

end Rebind
