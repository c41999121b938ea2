import Rebind.Proofs.Nodes
import Rebind.Proofs.Printer

/-!
# The sites of declarations

The declarations of a snippet that are written again, from the outside in and from the top down,
are its *sites*.  The code of a site says everything about it: a redirected declaration is written
as assignments, and right before it and its labels stands the one call that registers all its
names; any other declaration keeps its keyword and has no call.

What the statements of a snippet have in its code besides are *phrases*: their heads, their labels
and jumps, their expressions, and the members of classes.  A template is *woven* from sites if it is
their code in order, with *plain* templates between them, which consist of phrases, braces and ends
of lines and so neither declare nor register anything.
-/

namespace Rebind

open Rebind.Snippet

namespace Code

/-! ## Sites -/

/-- What is declared, by the place that the declaration has in its statement. -/
inductive Declared where
  /-- Variables declared by a statement of their own. -/
  | statement (d : Declaration)
  /-- Variables in the head of a counting loop. -/
  | counters (d : Declaration)
  /-- Variables in the head of a loop over keys. -/
  | keys (d : Declaration)
  /-- Variables in the head of a loop over values. -/
  | values (isAwait : Bool) (d : Declaration)
  | function (callable : Callable)
  | classDefinition (definition : ClassDefinition)

/-- A declaration, where its statement stands, and the labels before it. -/
structure Site where
  mode : ScopeMode
  labels : List String
  declared : Declared

namespace Site

/-- The names that are declared, duplicates kept. -/
def names (site : Site) : List String :=
  match site.declared with
  | .statement d | .counters d | .keys d | .values _ d => d.names
  | .function callable => callable.name.toList
  | .classDefinition definition => definition.name.toList

/-- The object that takes the names by a call before the declaration: that for variables of all
places outside functions, or that for what is declared lexically directly in the snippet. -/
def sink? (site : Site) : Option Sink :=
  match site.declared with
  | .statement d =>
    match d.kind with
    | .variable => if site.mode = .functionBody then none else some .global
    | .lexical | .constant => if site.mode = .topLevel then some .scope else none
    | .resource | .awaitedResource => none
  | .counters d | .keys d | .values _ d =>
    if d.kind = .variable ∧ site.mode ≠ .functionBody then some .global else none
  | .function _ => none
  | .classDefinition _ => if site.mode = .topLevel then some .scope else none

/-- The call that registers the names; without names there is none. -/
def call (site : Site) : Template :=
  match site.sink? with
  | some sink => Template.registration sink site.names
  | none => []

/-- The names that are entered as constants. -/
def constants (site : Site) : Template :=
  match site.declared with
  | .statement d =>
    if d.kind = .constant ∧ site.mode = .topLevel then [Step.enter .constants d.names] else []
  | _ => []

/-- The declaration itself, up to where the body of its loop, function or class begins: bare
targets if the names are taken by a call before it, the keyword and all otherwise.  A function
outside of functions becomes a property of the global object without a call. -/
def head (site : Site) : Template :=
  let redirected := site.sink?.isSome
  match site.declared with
  | .statement d =>
    Template.write (if redirected then assignments d else declaration d) ++ Template.endStatement
  | .counters d =>
    Template.fixed "for (" ++ Template.write (if redirected then assignments d else declaration d)
  | .keys d =>
    Template.fixed "for (" ++
      Template.write (if redirected then assignedTarget false d else declaration d)
  | .values isAwait d =>
    Template.fixed (if isAwait then "for await (" else "for (") ++
      Template.write (if redirected then assignedTarget true d else declaration d)
  | .function callable =>
    if site.mode = .functionBody then functionHead callable true
    else callable.name.toList.flatMap functionTarget ++ functionHead callable false
  | .classDefinition definition =>
    (if redirected then Template.fixed (definition.name.getD "" ++ " = ") else []) ++
      classHead definition

/-- The code of a site: the call, the labels, the declaration, and nothing between them. -/
def code (site : Site) : Template :=
  site.call ++ site.constants ++ labelsBefore site.labels ++ site.head

/-- What is registered for a site: the names of its call, once; those of constants once more; and
the name of a function outside of functions, which needs no call. -/
def entries (site : Site) : List (Register × List String) :=
  (match site.sink? with
    | some sink => if site.names = [] then [] else [(Register.sink sink, site.names)]
    | none => []) ++
  match site.declared with
  | .statement d =>
    if d.kind = .constant ∧ site.mode = .topLevel then [(.constants, d.names)] else []
  | .function callable =>
    if site.mode = .functionBody then []
    else callable.name.toList.map fun name => (.sink .global, [name])
  | _ => []

end Site

/-! ## The sites of a snippet -/

/-- The site in the head of a counting loop. -/
def startSites (mode : ScopeMode) (labels : List String) : Option LoopStart → List Site
  | some (.declaration d) => [⟨mode, labels, .counters d⟩]
  | some (.expression _) | none => []

/-- The site in the head of a loop over keys or values. -/
def targetSites (mode : ScopeMode) (labels : List String) (declared : Declaration → Declared) :
    LoopTarget → List Site
  | .declaration d => [⟨mode, labels, declared d⟩]
  | .place _ => []

mutual

/-- The sites in a statement after labels. -/
def sites (mode : ScopeMode) (labels : List String) : Statement → List Site
  | .block _ body => listSites mode.nested body
  | .conditional _ _ consequent alternate =>
    sites mode.nested [] consequent ++ alternateSites mode.nested alternate
  | .whileLoop _ _ body => sites mode.nested [] body
  | .doLoop _ body _ => sites mode.nested [] body
  | .forLoop _ init _ _ body =>
    startSites mode labels init ++ sites mode.nested [] body
  | .forIn _ target _ body =>
    targetSites mode labels .keys target ++ sites mode.nested [] body
  | .forOf _ isAwait target _ body =>
    targetSites mode labels (.values isAwait) target ++ sites mode.nested [] body
  | .choice _ _ clauses => clauseSites mode.nested clauses
  | .attempt _ body handler finalizer =>
    listSites mode.nested body ++ handlerSites mode.nested handler ++
      finalizerSites mode.nested finalizer
  | .withObject _ _ body => sites mode.nested [] body
  | .labeled _ more body => sites mode.nested (labels ++ more) body
  | .declaration _ d => [⟨mode, labels, .statement d⟩]
  | .function _ callable => [⟨mode, labels, .function callable⟩] ++ callableSites callable
  | .classDeclaration _ definition =>
    [⟨mode, labels, .classDefinition definition⟩] ++ memberSites definition
  | .returnValue _ _ | .throwValue _ _ | .jump _ _ _ | .expression _ _ | .idle _
  | .moduleItem _ => []

def listSites (mode : ScopeMode) : List Statement → List Site
  | [] => []
  | s :: rest => sites mode [] s ++ listSites mode rest

def alternateSites (mode : ScopeMode) : Option Statement → List Site
  | none => []
  | some s => sites mode [] s

def clauseSites (mode : ScopeMode) : List Case → List Site
  | [] => []
  | ⟨_, body⟩ :: rest => listSites mode body ++ clauseSites mode rest

def handlerSites (mode : ScopeMode) : Option Handler → List Site
  | none => []
  | some ⟨_, body⟩ => listSites mode body

def finalizerSites (mode : ScopeMode) : Option (List Statement) → List Site
  | none => []
  | some body => listSites mode body

def callableSites : Callable → List Site
  | ⟨_, _, _, _, _, body⟩ => bodySites body

def bodySites : Body → List Site
  | ⟨_, _, statements⟩ => listSites .functionBody statements

def memberSites : ClassDefinition → List Site
  | ⟨_, _, _, _, elements⟩ => elementsSites elements

def elementsSites : List Element → List Site
  | [] => []
  | e :: rest => elementSites e ++ elementsSites rest

def elementSites : Element → List Site
  | .staticBlock _ body => listSites .functionBody body
  | .method _ _ _ _ callable => callableSites callable
  | .field .. => []

end

/-- The statements of a snippet in the order in which they are written: with hoisting on, its own
functions come first. -/
def written (hoist : Bool) (p : Program) : List Statement :=
  if hoist then p.statements.filter isFunction ++ p.statements.filter fun s => !isFunction s
  else p.statements

/-- The sites of a snippet in the order in which they are written. -/
def programSites (hoist : Bool) (p : Program) : List Site :=
  listSites .topLevel (written hoist p)

/-! ## Phrases -/

/-- An expression between two texts. -/
def around (before : String) (value : Expression) (after : String) : Template :=
  Template.write ([Piece.text before] ++ expression value ++ [Piece.text after])

/-- A part of the source as a statement. -/
def copiedLine (span : Text.Span) : Template :=
  Template.write [.copy span] ++ Template.endStatement

/-- An expression after a blank, if there is one. -/
def spaced : Option Expression → Fragment
  | some value => [Piece.text " "] ++ expression value
  | none => []

/-- The decorators of a member. -/
def decorated (values : List Expression) : Fragment :=
  values.flatMap fun value => [Piece.text "@"] ++ expression value ++ [Piece.text " "]

/-- A word where it is wanted. -/
def wordIf (wanted : Bool) (word : String) : Fragment :=
  if wanted then [Piece.text word] else []

/-- The head of a counting loop, but for variables that are declared in it. -/
def forPhrase (init : Option LoopStart) (test update : Option Expression) : Template :=
  (match init with
    | none => Template.fixed "for ("
    | some (.expression value) => Template.write ([Piece.text "for ("] ++ expression value)
    | some (.declaration _) => []) ++
  Template.write ([Piece.text ";"] ++ spaced test ++ [Piece.text ";"] ++ spaced update ++
    [Piece.text ") "])

/-- The head of a loop over keys or values, but for variables that are declared in it. -/
def targetPhrase (opening word : String) (target : LoopTarget) (value : Expression) : Template :=
  (match target with
    | .place place => Template.write ([Piece.text opening] ++ expression place)
    | .declaration _ => []) ++
  around word value ") "

/-- Whether a statement is a declaration or has one in its head, so that labels before the statement
are those of a site. -/
def declares : Statement → Bool
  | .declaration _ _ | .function _ _ | .classDeclaration _ _
  | .forLoop _ (some (.declaration _)) _ _ _
  | .forIn _ (.declaration _) _ _
  | .forOf _ _ (.declaration _) _ _ => true
  | _ => false

/-- What a statement has in the code besides the statements in it and its sites. -/
def statementPhrases : Statement → List Template
  | .conditional _ test _ _ => [around "if (" test ") ", Template.fixed " else "]
  | .whileLoop _ test _ => [around "while (" test ") "]
  | .doLoop _ _ test =>
    [Template.fixed "do ", around " while (" test ")" ++ Template.endStatement]
  | .forLoop _ init test update _ => [forPhrase init test update]
  | .forIn _ target object _ => [targetPhrase "for (" " in " target object]
  | .forOf _ isAwait target values _ =>
    [targetPhrase (if isAwait then "for await (" else "for (") " of " target values]
  | .choice _ value clauses =>
    around "switch (" value ") " :: clauses.map fun c =>
      match c.test with
      | some test => around "case " test ":"
      | none => Template.fixed "default:"
  | .attempt _ _ handler _ =>
    [Template.fixed "try ", Template.fixed " finally "] ++ handler.toList.map fun h =>
      Template.write ([Piece.text " catch "] ++ match h.parameter with
        | some p => [Piece.text "("] ++ pattern p ++ [Piece.text ") "]
        | none => [])
  | .withObject _ object _ => [around "with (" object ") "]
  | .labeled _ labels body =>
    if declares (unlabeled body) then [] else labels.map fun label => Template.fixed (label ++ ": ")
  | .returnValue _ value =>
    [Template.write ([Piece.text "return"] ++ spaced value) ++ Template.endStatement]
  | .throwValue _ value =>
    [Template.write ([Piece.text "throw "] ++ expression value) ++ Template.endStatement]
  | .jump _ kind label =>
    [Template.fixed ((match kind with
        | .leave => "break"
        | .next => "continue") ++
      match label with
        | some label => " " ++ label
        | none => "") ++ Template.endStatement]
  | .expression _ value => [Template.write (expression value) ++ Template.endStatement]
  | .block _ _ | .idle _ | .declaration _ _ | .function _ _ | .classDeclaration _ _
  | .moduleItem _ => []

/-- What a member of a class has in the code besides statements in it. -/
def memberPhrases : Element → List Template
  | .staticBlock _ _ => [Template.fixed "static "]
  | .method values isStatic kind name callable =>
    let word := match kind with
      | .plain => ""
      | .getter => "get "
      | .setter => "set "
    [Template.write (decorated values ++ wordIf isStatic "static " ++
      wordIf callable.isAsync "async " ++ wordIf callable.isGenerator "*" ++ [Piece.text word] ++
      key name ++ [Piece.text "("] ++ parameters callable ++ [Piece.text ") "])]
  | .field values isStatic isAccessor name value =>
    [Template.write (decorated values ++ wordIf isStatic "static " ++
      wordIf isAccessor "accessor " ++ key name ++ [Piece.text " = "] ++ valueOrVoid value) ++
      Template.endStatement]

/-- The phrases of a node.  The heads of functions and classes that are declared are those of
sites. -/
def nodePhrases : Node → List Template
  | .statement s => statementPhrases s
  | .body b => b.directives.map copiedLine
  | .member e => memberPhrases e
  | .callable _ | .definition _ => []

/-- A part of the source as the value of the snippet. -/
def valueLine (value : Fragment) : Template :=
  Template.write ([Piece.text "return "] ++ value) ++ Template.endStatement

/-- What gives the value of a snippet: its last statement, or without statements its last
directive. -/
def valuePhrases (p : Program) : List Template :=
  match p.statements.getLast? with
  | some (.expression _ value) => [valueLine (expression value)]
  | some _ => []
  | none => p.directives.getLast?.toList.map fun last => valueLine [Piece.copy last]

/-- The phrases of a snippet. -/
def phrases (p : Program) : List Template :=
  p.directives.map copiedLine ++ valuePhrases p ++ p.nodes.flatMap nodePhrases

/-! ## What stands between sites -/

/-- Templates that consist of given phrases, of braces and `;`, and of line breaks and changes of
level. -/
inductive Plain (known : List Template) : Template → Prop where
  | nil : Plain known []
  | append {t u : Template} (ht : Plain known t) (hu : Plain known u) : Plain known (t ++ u)
  | newline : Plain known [Step.newline]
  | freshLine : Plain known [Step.freshLine]
  | indent : Plain known [Step.indent]
  | dedent : Plain known [Step.dedent]
  | opening : Plain known (Template.fixed "\x7b")
  | closing : Plain known (Template.fixed "\x7d")
  | semicolon : Plain known (Template.fixed ";")
  | phrase {t : Template} (h : t ∈ known) : Plain known t

/-- The code of the sites stands in the template in their order, with plain templates before,
between and after them. -/
inductive Woven (known : List Template) : List Site → Template → Prop where
  | plain {t : Template} (h : Plain known t) : Woven known [] t
  | site {site : Site} {sites : List Site} {front rest : Template} (h : Plain known front)
      (hrest : Woven known sites rest) : Woven known (site :: sites) (front ++ site.code ++ rest)

variable {known : List Template}

theorem Plain.endStatement : Plain known Template.endStatement :=
  .append .semicolon .newline

namespace Woven

variable {xs ys : List Site} {t u : Template}

theorem plain_append (ht : Plain known t) (hu : Woven known xs u) : Woven known xs (t ++ u) := by
  cases hu with
  | plain hu => exact .plain (ht.append hu)
  | site hfront hrest =>
    rw [← List.append_assoc, ← List.append_assoc]
    exact .site (ht.append hfront) hrest

theorem append (ht : Woven known xs t) (hu : Woven known ys u) :
    Woven known (xs ++ ys) (t ++ u) := by
  induction ht with
  | plain ht => exact plain_append ht hu
  | site hfront _ ih =>
    rw [List.append_assoc]
    exact .site hfront ih

theorem append_plain (ht : Woven known xs t) (hu : Plain known u) : Woven known xs (t ++ u) := by
  simpa using ht.append (.plain hu)

theorem of_code (site : Site) : Woven known [site] site.code := by
  simpa using Woven.site .nil (.plain .nil)

theorem braced (h : Woven known xs t) : Woven known xs (Template.braced t) :=
  (plain_append (.append .opening (.append .newline .indent)) h).append_plain
    (.append .freshLine (.append .dedent .closing))

end Woven

/-! ## Registrations -/

section Registrations

@[simp] theorem registrations_nil : Template.registrations [] = [] := rfl

@[simp] theorem registrations_append (t u : Template) :
    Template.registrations (t ++ u) = t.registrations ++ u.registrations :=
  List.filterMap_append

@[simp] theorem registrations_write (fragment : Fragment) :
    (Template.write fragment).registrations = [] := by
  simp [Template.registrations, Template.write]

@[simp] theorem registrations_fixed (text : String) :
    (Template.fixed text).registrations = [] :=
  rfl

@[simp] theorem registrations_endStatement : Template.endStatement.registrations = [] := rfl

@[simp] theorem registrations_around (before : String) (value : Expression) (after : String) :
    (around before value after).registrations = [] :=
  registrations_write _

@[simp] theorem registrations_copiedLine (span : Text.Span) :
    (copiedLine span).registrations = [] :=
  rfl

@[simp] theorem registrations_functionHead (callable : Callable) (isNamed : Bool) :
    (functionHead callable isNamed).registrations = [] :=
  registrations_write _

@[simp] theorem registrations_classHead (definition : ClassDefinition) :
    (classHead definition).registrations = [] :=
  registrations_write _

@[simp] theorem registrations_labelsBefore (labels : List String) :
    (labelsBefore labels).registrations = [] :=
  registrations_write _

@[simp] theorem registrations_registration (sink : Sink) (names : List String) :
    (Template.registration sink names).registrations =
      if names = [] then [] else [(.sink sink, names)] := by
  cases names <;> rfl

theorem Site.registrations_call (site : Site) :
    site.call.registrations = match site.sink? with
      | some sink => if site.names = [] then [] else [(Register.sink sink, site.names)]
      | none => [] := by
  rw [Site.call]
  cases site.sink? with
  | none => rfl
  | some sink => exact registrations_registration _ _

/-- Every part of a site registers what it is there for. -/
theorem Site.registrations_code (site : Site) : site.code.registrations = site.entries := by
  simp only [Site.code, registrations_append, Site.registrations_call, registrations_labelsBefore,
    List.append_assoc, Site.entries, List.append_cancel_left_eq]
  obtain ⟨mode, labels, declared⟩ := site
  cases declared with
  | statement d =>
    simp only [Site.constants, Site.head, registrations_append, registrations_write,
      registrations_endStatement, List.append_nil]
    split <;> rfl
  | function callable =>
    simp only [Site.constants, Site.head]
    split
    · exact registrations_functionHead _ _
    · rw [registrations_append, registrations_functionHead]
      cases callable.name <;> rfl
  | classDefinition definition =>
    simp only [Site.constants, Site.head, registrations_append, registrations_classHead]
    split <;> rfl
  | counters d | keys d | values isAwait d =>
    simp [Site.constants, Site.head]

/-! Phrases -/

theorem registrations_of_mem_statementPhrases {s : Statement} {t : Template}
    (h : t ∈ statementPhrases s) : t.registrations = [] := by
  cases s with
  | forLoop _ init _ _ _ =>
    obtain rfl := List.mem_singleton.1 h
    rcases init with _ | (_ | _) <;> simp [forPhrase]
  | forIn _ target _ _ | forOf _ _ target _ _ =>
    obtain rfl := List.mem_singleton.1 h
    cases target <;> simp [targetPhrase]
  | choice _ value clauses =>
    obtain rfl | h := List.mem_cons.1 h
    · exact registrations_around _ _ _
    · obtain ⟨clause, -, rfl⟩ := List.mem_map.1 h
      split
      · exact registrations_around _ _ _
      · exact registrations_fixed _
  | attempt _ _ handler _ =>
    simp only [statementPhrases, List.mem_append, List.mem_cons, List.mem_map, List.not_mem_nil,
      or_false] at h
    rcases h with (rfl | rfl) | ⟨handler, -, rfl⟩
    · exact registrations_fixed _
    · exact registrations_fixed _
    · exact registrations_write _
  | labeled _ labels body =>
    rw [statementPhrases] at h
    split at h
    · cases h
    · obtain ⟨label, -, rfl⟩ := List.mem_map.1 h
      exact registrations_fixed _
  | conditional | doLoop =>
    obtain rfl | h := List.mem_cons.1 h
    · simp
    · obtain rfl := List.mem_singleton.1 h
      simp
  | whileLoop | withObject | returnValue | throwValue | jump | expression =>
    obtain rfl := List.mem_singleton.1 h
    simp
  | block | idle | declaration | function | classDeclaration | moduleItem => cases h

theorem registrations_of_mem_memberPhrases {e : Element} {t : Template}
    (h : t ∈ memberPhrases e) : t.registrations = [] := by
  cases e with
  | staticBlock => exact List.mem_singleton.1 h ▸ registrations_fixed _
  | method => exact List.mem_singleton.1 h ▸ registrations_write _
  | field =>
    rw [List.mem_singleton.1 h, registrations_append, registrations_write]
    rfl

theorem registrations_of_mem_valuePhrases {p : Program} {t : Template} (h : t ∈ valuePhrases p) :
    t.registrations = [] := by
  have hline (value : Fragment) : (valueLine value).registrations = [] := by
    rw [valueLine, registrations_append, registrations_write]
    rfl
  unfold valuePhrases at h
  split at h
  · rw [List.mem_singleton.1 h, hline]
  · cases h
  · obtain ⟨last, -, rfl⟩ := List.mem_map.1 h
    exact hline _

theorem registrations_of_mem_phrases {p : Program} {t : Template} (h : t ∈ phrases p) :
    t.registrations = [] := by
  simp only [phrases, List.mem_append, List.mem_map, List.mem_flatMap] at h
  rcases h with (⟨span, -, rfl⟩ | h) | ⟨node, -, h⟩
  · exact registrations_copiedLine span
  · exact registrations_of_mem_valuePhrases h
  · cases node with
    | statement s => exact registrations_of_mem_statementPhrases h
    | body b =>
      obtain ⟨span, -, rfl⟩ := List.mem_map.1 h
      exact registrations_copiedLine span
    | member e => exact registrations_of_mem_memberPhrases h
    | callable c | definition d => cases h

variable {t : Template}

theorem Plain.registrations (h : Plain known t) (hknown : ∀ u ∈ known, u.registrations = []) :
    t.registrations = [] := by
  induction h with
  | append _ _ iht ihu => rw [registrations_append, iht, ihu, List.append_nil]
  | phrase h => exact hknown _ h
  | _ => rfl

/-- Nothing is registered but by the sites, once each and in their order. -/
theorem Woven.registrations {xs : List Site} (h : Woven known xs t)
    (hknown : ∀ u ∈ known, u.registrations = []) : t.registrations = xs.flatMap Site.entries := by
  induction h with
  | plain h => exact h.registrations hknown
  | site hfront _ ih =>
    rw [registrations_append, registrations_append, hfront.registrations hknown, ih,
      Site.registrations_code, List.nil_append, List.flatMap_cons]

end Registrations

end Code
end Rebind
