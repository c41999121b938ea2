import Rebind.Code.Wording

/-!
# Code for expressions and patterns

An expression is copied from the source with its host forms replaced.  A pattern is written anew
in one spelling that reads the same as a binding and as the target of an assignment.
-/

namespace Rebind.Code

open Rebind.Text (Span)
open Rebind.Snippet

/-- Fragments with a text between each two. -/
def joined (separator : String) (fragments : List Fragment) : Fragment :=
  (fragments.intersperse [Piece.text separator]).flatten

/-! ## Copied expressions -/

/-- The stretch of the source that a host form takes, and what stands for it. -/
abbrev HostSite := Span × Fragment

/-- The source between two offsets with sites in it replaced, from left to right.  A site that
starts before the offset reached so far, or goes past the end, is skipped. -/
def splicedFrom (cursor stop : Nat) : List HostSite → Fragment
  | [] => [Piece.copy ⟨cursor, stop⟩]
  | (site, replacement) :: sites =>
    if site.start < cursor ∨ stop < site.stop then splicedFrom cursor stop sites
    else .copy ⟨cursor, site.start⟩ :: (replacement ++ splicedFrom site.stop stop sites)

/-- A stretch of the source with the sites in it replaced, whatever order they are found in. -/
def spliced (span : Span) (sites : List HostSite) : Fragment :=
  splicedFrom span.start span.stop (sites.mergeSort fun a b => a.1.start ≤ b.1.start)

section

variable [Wording]

mutual

/-- The sites of host forms. -/
def hostSites : List HostForm → List HostSite
  | [] => []
  | host :: hosts => hostSite host :: hostSites hosts

/-- The site of a host form. -/
def hostSite : HostForm → HostSite
  | .metadata span => (span, [Piece.slot .moduleObject, .text ".meta"])
  | .load span specifier inner =>
    (span, [Piece.slot .moduleObject, .text ".import("] ++
      Wording.stripped (spliced specifier (hostSites inner)) ++ [Piece.text ")"])

end

/-- The source from an offset to another one, with the host forms in it replaced. -/
def copied (start stop : Nat) (hosts : List HostForm) : Fragment :=
  spliced ⟨start, stop⟩ (hostSites hosts)

/-- The code of an expression. -/
def expression (value : Expression) : Fragment :=
  Wording.stripped (copied value.span.start value.span.stop value.hosts)

/-- The value that stands where none is written. -/
def valueOrVoid : Option Expression → Fragment
  | some value => expression value
  | none => [Piece.text "void 0"]

/-- The name of a property or member. -/
def key : Key → Fragment
  | .plain span => Wording.stripped [Piece.copy span]
  | .computed value => [Piece.text "["] ++ expression value ++ [Piece.text "]"]

end

/-- The keyword of a declaration. -/
def keyword : DeclarationKind → String
  | .variable => "var"
  | .lexical => "let"
  | .constant => "const"
  | .resource => "using"
  | .awaitedResource => "await using"

/-! ## Patterns -/

/-- A rest element after the other elements of a pattern. -/
def withRest (isEmpty : Bool) (rest : Fragment) : Fragment :=
  (if isEmpty then [] else [Piece.text ", "]) ++ [Piece.text "..."] ++ rest

section

variable [Wording]

mutual

/-- The code of a pattern.  A hole at the end of an array keeps its comma. -/
def pattern : Pattern → Fragment
  | .name text _ => [Piece.text text]
  | .array _ elements none =>
    let comma : Fragment := if elements.getLast? matches some none then [Piece.text ","] else []
    [Piece.text "["] ++ joined ", " (patternElements elements) ++ comma ++ [Piece.text "]"]
  | .array _ elements (some rest) =>
    [Piece.text "["] ++ joined ", " (patternElements elements) ++
      withRest elements.isEmpty (pattern rest) ++ [Piece.text "]"]
  | .object _ properties none =>
    [Piece.text "\x7b"] ++ joined ", " (patternProperties properties) ++ [Piece.text "\x7d"]
  | .object _ properties (some rest) =>
    [Piece.text "\x7b"] ++ joined ", " (patternProperties properties) ++
      withRest properties.isEmpty (pattern rest) ++ [Piece.text "\x7d"]
  | .withDefault target value => pattern target ++ [Piece.text " = "] ++ expression value

/-- The code of each element of an array pattern; that of a hole is empty. -/
def patternElements : List (Option Pattern) → List Fragment
  | [] => []
  | none :: elements => [] :: patternElements elements
  | some element :: elements => pattern element :: patternElements elements

/-- The code of each property of an object pattern, with its name written out. -/
def patternProperties : List (Key × Pattern) → List Fragment
  | [] => []
  | (name, value) :: properties =>
    (key name ++ [Piece.text ": "] ++ pattern value) :: patternProperties properties

end

/-! ## Parameters and declarations -/

/-- The code of a parameter.  What stands between its pattern and the end of its default value
is copied after one blank. -/
def parameter (p : Parameter) : Fragment :=
  match p.value with
  | none => pattern p.pattern
  | some value =>
    Wording.followed (pattern p.pattern)
      (copied p.pattern.span.stop value.span.stop value.hosts)

/-- The code of the parameters of a function, without their parentheses. -/
def parameters (callable : Callable) : Fragment :=
  let rest := callable.rest.toList.map fun rest => .text "..." :: pattern rest
  joined ", " (callable.parameters.map parameter ++ rest)

/-- A declaration that stays one. -/
def declaration (d : Declaration) : Fragment :=
  let one (declarator : Declarator) : Fragment :=
    pattern declarator.target ++ match declarator.value with
      | some value => [Piece.text " = "] ++ expression value
      | none => []
  [Piece.text (keyword d.kind ++ " ")] ++ joined ", " (d.declarators.map one)

/-- The assignments that stand for a declaration.  A name without a value gets `undefined`, and an
object pattern stands in parentheses so that it does not start a block. -/
def assignments (d : Declaration) : Fragment :=
  let one (declarator : Declarator) : Fragment :=
    let assignment :=
      pattern declarator.target ++ [Piece.text " = "] ++ valueOrVoid declarator.value
    match declarator.target with
    | .object _ _ _ => [Piece.text "("] ++ assignment ++ [Piece.text ")"]
    | _ => assignment
  joined ", " (d.declarators.map one)

end

/-! ## In a template -/

theorem expression_eq (value : Expression) :
    expression value = copied value.span.start value.span.stop value.hosts := rfl

theorem hostSite_load (span specifier : Span) (inner : List HostForm) :
    hostSite (.load span specifier inner) =
      (span, [Piece.slot .moduleObject, .text ".import("] ++
        spliced specifier (hostSites inner) ++ [Piece.text ")"]) := rfl

theorem pattern_ne_nil (target : Pattern) : pattern target ≠ [] := by
  cases target with
  | name name span => simp [pattern]
  | array span elements rest => cases rest <;> simp [pattern]
  | object span properties rest => cases rest <;> simp [pattern]
  | withDefault target value => simp [pattern]

/-- Only a name is written as one word. -/
theorem pattern_eq_text {target : Pattern} {text : String} :
    pattern target = [Piece.text text] ↔ ∃ span, target = .name text span := by
  cases target with
  | name name span => simp [pattern]
  | array span elements rest => cases rest <;> simp [pattern]
  | object span properties rest => cases rest <;> simp [pattern]
  | withDefault target value => simp [pattern, List.append_eq_cons_iff, pattern_ne_nil]

end Rebind.Code
