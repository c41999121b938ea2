import Rebind.Proofs.DeclaredNames
import Rebind.Proofs.LoopHeads

/-!
# Printing with the names known

A snippet can be printed in two ways.  If the names of the host objects are known, blanks are taken
off texts that have the names in them, and such a text is compared with a word.  Otherwise a
template is printed in which the names are open, and those steps are taken on what is copied.

Both ways lead to the same code.  What is copied goes from a token to a token and a name begins with
a character that is not blank, so there is nothing to take off but what stands between the pattern
of a parameter and its default value; and no pattern but a name reads like a word.  The fragments of
an expression, of a key and of a pattern have the same text, hence so have all templates above them
(`agree_statement`), and the options have no other way into the code (`checkedRebind_eq`).
-/

namespace Rebind

open Rebind.Text (Span byteSize isBlank)
open Rebind.Layout
open Rebind.Snippet

/-- A part of the source is not empty, and what it holds lies in it. -/
structure Snippet.Part.IsRead (source : List Char) (part : Part) : Prop where
  lt : part.span.start < part.span.stop
  nested : part.Nested (byteSize source) source

/-- All parts of a list are as they are read. -/
abbrev AreRead (source : List Char) (parts : List Part) : Prop :=
  ∀ part ∈ parts, part.IsRead source

namespace Code

variable {filling : Filling} {source : List Char}

/-! ## Fragments -/

/-- Fragments with a text between each two have the texts of the fragments with it between them. -/
theorem textOf_joined_eq (separator : String) (fragments : List Fragment) :
    textOf filling source (joined separator fragments) =
      ((fragments.map (textOf filling source)).intersperse separator.toList).flatten := by
  induction fragments with
  | nil => rfl
  | cons fragment fragments ih =>
    cases fragments with
    | nil => simp [joined]
    | cons next fragments =>
      rw [joined, List.intersperse_cons_cons, List.flatten_cons, List.flatten_cons, ← joined,
        textOf_append, textOf_append, ih]
      simp [textOf, Piece.fill]

theorem textOf_joined_congr (separator : String) {xs ys : List Fragment}
    (h : xs.map (textOf filling source) = ys.map (textOf filling source)) :
    textOf filling source (joined separator xs) = textOf filling source (joined separator ys) := by
  rw [textOf_joined_eq, textOf_joined_eq, h]

theorem textOf_stripped (fragment : Fragment) :
    textOf filling source ((Wording.filled filling source).stripped fragment) =
      Text.trim (textOf filling source fragment) := by
  have hpieces : (Wording.filled filling source).stripped fragment =
      [Piece.text (String.ofList (Text.trim (textOf filling source fragment)))] := rfl
  rw [hpieces]
  simp [textOf, Piece.fill]

mutual

theorem textOf_hostSite_known (hname : NameShown filling) {host : HostForm}
    (h : host.Nested (byteSize source) source) :
    textOf filling source (@hostSite (.filled filling source) host).2 =
      textOf filling source (hostSite host).2 := by
  cases host with
  | metadata span => rfl
  | load span specifier inner =>
    obtain ⟨-, -, -, hspecifier⟩ := HostForm.nested_load.1 h
    have hstart := hspecifier.onTokens.starts.boundary
    have hstop := hspecifier.onTokens.stops.boundary
    have hknown := @textOf_copied_table specifier.start specifier.stop filling source
      (.filled filling source) inner hspecifier.hosts hstart hstop
    rw [table_known hname hspecifier.hosts.nested,
      ← textOf_copied_table hspecifier.hosts hstart hstop] at hknown
    have hsite : (@hostSite (.filled filling source) (.load span specifier inner)).2 =
        [Piece.slot .moduleObject, .text ".import("] ++
          (Wording.filled filling source).stripped
            (@copied (.filled filling source) specifier.start specifier.stop inner) ++
          [Piece.text ")"] := rfl
    rw [hsite, textOf_append, textOf_append, textOf_stripped, hknown,
      trim_copied hname hspecifier.hosts hspecifier.onTokens, ← textOf_append, ← textOf_append]
    rfl

theorem table_known (hname : NameShown filling) {hosts : List HostForm}
    (h : AllNested (byteSize source) source hosts) :
    tableOf filling source (@hostSites (.filled filling source) hosts) =
      tableOf filling source (hostSites hosts) := by
  cases hosts with
  | nil => rfl
  | cons host hosts =>
    have hspan : (@hostSite (.filled filling source) host).1 = (hostSite host).1 := by
      cases host <;> rfl
    have hrest := table_known hname h.2
    simp only [tableOf] at hrest
    simp only [hostSites, tableOf, List.map_cons, hrest, textOf_hostSite_known hname h.1, hspan]

end

/-- A stretch of the source has the same text in both ways. -/
theorem textOf_copied_known (hname : NameShown filling) {start stop : Nat} {hosts : List HostForm}
    (h : HostsBetween (byteSize source) source start stop hosts)
    (hstart : Text.Boundary source start) (hstop : Text.Boundary source stop) :
    textOf filling source (@copied (.filled filling source) start stop hosts) =
      textOf filling source (copied start stop hosts) := by
  have hknown := @textOf_copied_table start stop filling source (.filled filling source) hosts h
    hstart hstop
  rw [hknown, textOf_copied_table h hstart hstop, table_known hname h.nested]

theorem textOf_expression_known (hname : NameShown filling) {e : Expression}
    (h : (Part.expression e).IsRead source) :
    textOf filling source (@expression (.filled filling source) e) =
      textOf filling source (expression e) := by
  obtain ⟨htokens, hhosts⟩ : e.Nested (byteSize source) source := h.nested
  have hknown : @expression (.filled filling source) e =
      (Wording.filled filling source).stripped
        (@copied (.filled filling source) e.span.start e.span.stop e.hosts) := rfl
  rw [hknown, textOf_stripped,
    textOf_copied_known hname hhosts htokens.starts.boundary htokens.stops.boundary,
    trim_copied hname hhosts htokens, expression_eq]

theorem textOf_valueOrVoid_known (hname : NameShown filling) {value : Option Expression}
    (h : AreRead source (valueParts value)) :
    textOf filling source (@valueOrVoid (.filled filling source) value) =
      textOf filling source (valueOrVoid value) := by
  cases value with
  | none => rfl
  | some value => exact textOf_expression_known hname (h _ List.mem_cons_self)

/-- What is copied as it is from a token to a token. -/
theorem textOf_verbatim_known (hname : NameShown filling) {span : Span}
    (h : (Part.verbatim span).IsRead source) :
    textOf filling source ((Wording.filled filling source).stripped [Piece.copy span]) =
      textOf filling source [Piece.copy span] := by
  have hcopied : [Piece.copy span] = copied span.start span.stop [] := copied_nil.symm
  rw [textOf_stripped, hcopied]
  exact trim_copied hname ⟨trivial, trivial⟩ h.nested

theorem textOf_key_known (hname : NameShown filling) {name : Key} (h : AreRead source name.parts) :
    textOf filling source (@key (.filled filling source) name) =
      textOf filling source (key name) := by
  cases name with
  | plain span => exact textOf_verbatim_known hname (h _ List.mem_cons_self)
  | computed value =>
    simp only [key, textOf_append, textOf_expression_known hname (h _ List.mem_cons_self)]

/-! ## Patterns -/

mutual

theorem textOf_pattern_known (hname : NameShown filling) {target : Pattern}
    (h : AreRead source target.parts) :
    textOf filling source (@pattern (.filled filling source) target) =
      textOf filling source (pattern target) := by
  cases target with
  | name name span => rfl
  | array span elements rest =>
    rw [Pattern.parts] at h
    obtain ⟨helements, hrest⟩ := List.forall_mem_append.1 h
    have hjoined := textOf_joined_congr ", " (texts_elements_known hname helements)
    cases rest with
    | none => simp only [pattern, textOf_append, hjoined]
    | some rest =>
      have hrest : AreRead source rest.parts := hrest
      have hrest := textOf_pattern_known hname hrest
      simp only [pattern, withRest, textOf_append, hjoined, hrest]
  | object span properties rest =>
    rw [Pattern.parts] at h
    obtain ⟨hproperties, hrest⟩ := List.forall_mem_append.1 h
    have hjoined := textOf_joined_congr ", " (texts_properties_known hname hproperties)
    cases rest with
    | none => simp only [pattern, textOf_append, hjoined]
    | some rest =>
      have hrest : AreRead source rest.parts := hrest
      have hrest := textOf_pattern_known hname hrest
      simp only [pattern, withRest, textOf_append, hjoined, hrest]
  | withDefault target value =>
    rw [Pattern.parts] at h
    obtain ⟨htarget, hvalue⟩ := List.forall_mem_append.1 h
    have hvalue := textOf_expression_known hname (hvalue _ List.mem_cons_self)
    simp only [pattern, textOf_append, textOf_pattern_known hname htarget, hvalue]

theorem texts_elements_known (hname : NameShown filling) {elements : List (Option Pattern)}
    (h : AreRead source (elementParts elements)) :
    (@patternElements (.filled filling source) elements).map (textOf filling source) =
      (patternElements elements).map (textOf filling source) := by
  match elements with
  | [] => rfl
  | none :: elements =>
    have helements : AreRead source (elementParts elements) := h
    have helements := texts_elements_known hname helements
    simp only [patternElements, List.map_cons, helements]
  | some element :: elements =>
    rw [elementParts] at h
    obtain ⟨helement, helements⟩ := List.forall_mem_append.1 h
    simp only [patternElements, List.map_cons, textOf_pattern_known hname helement,
      texts_elements_known hname helements]

theorem texts_properties_known (hname : NameShown filling) {properties : List (Key × Pattern)}
    (h : AreRead source (propertyParts properties)) :
    (@patternProperties (.filled filling source) properties).map (textOf filling source) =
      (patternProperties properties).map (textOf filling source) := by
  match properties with
  | [] => rfl
  | (name, value) :: properties =>
    rw [propertyParts] at h
    obtain ⟨hproperty, hproperties⟩ := List.forall_mem_append.1 h
    obtain ⟨hkey, hvalue⟩ := List.forall_mem_append.1 hproperty
    simp only [patternProperties, List.map_cons, textOf_append, textOf_key_known hname hkey,
      textOf_pattern_known hname hvalue, texts_properties_known hname hproperties]

end

/-! ## Parameters and declarations -/

theorem textOf_parameter_known (hname : NameShown filling) {p : Parameter}
    (h : AreRead source p.parts) :
    textOf filling source (@parameter (.filled filling source) p) =
      textOf filling source (parameter p) := by
  obtain ⟨target, value⟩ := p
  rw [Parameter.parts] at h
  obtain ⟨htarget, hvalue⟩ := List.forall_mem_append.1 h
  cases value with
  | none => exact textOf_pattern_known hname htarget
  | some value =>
    obtain ⟨hlt, hdefault⟩ := hvalue (.default target.span.stop value) List.mem_cons_self
    have hhosts : HostsBetween (byteSize source) source target.span.stop value.span.stop
        value.hosts := hdefault.hostsBetween
    obtain ⟨hstart, -, htokens, -⟩ := hdefault
    have hlast := last_copied hname hhosts hstart.boundary htokens.stops hlt
    have hcopied := textOf_copied_known hname hhosts hstart.boundary htokens.stops.boundary
    have htrimmed := textOf_trimmed hname hhosts
    rw [← Text.trim_of_last hlast] at htrimmed
    have hshown : (Text.trim (textOf filling source (@copied (.filled filling source)
        target.span.stop value.span.stop value.hosts))).isEmpty = false := by
      rw [hcopied]
      simpa using Text.trim_ne_nil hlast
    have hknown : @parameter (.filled filling source) ⟨target, some value⟩ =
        @pattern (.filled filling source) target ++ [Piece.text " ", .text (String.ofList
          (Text.trim (textOf filling source (@copied (.filled filling source)
            target.span.stop value.span.stop value.hosts))))] := by
      unfold parameter
      exact if_neg (by rw [hshown]; exact Bool.false_ne_true)
    have hopen : parameter ⟨target, some value⟩ = pattern target ++ [Piece.text " "] ++
        trimmed (copied target.span.stop value.span.stop value.hosts) := rfl
    rw [hknown, hopen, textOf_append, textOf_append, textOf_append,
      textOf_pattern_known hname htarget, htrimmed, hcopied]
    simp [textOf, Piece.fill]

theorem textOf_parameters_known (hname : NameShown filling) {callable : Callable}
    (h : AreRead source (callable.parameters.flatMap Parameter.parts ++ restParts callable.rest)) :
    textOf filling source (@parameters (.filled filling source) callable) =
      textOf filling source (parameters callable) := by
  obtain ⟨hparameters, hrest⟩ := List.forall_mem_append.1 h
  refine textOf_joined_congr ", " ?_
  simp only [List.map_append, List.map_map]
  congr 1
  · refine List.map_congr_left fun p hp => ?_
    exact textOf_parameter_known hname fun part hpart =>
      hparameters part (List.mem_flatMap.2 ⟨p, hp, hpart⟩)
  · cases hcallable : callable.rest with
    | none => rfl
    | some rest =>
      rw [hcallable] at hrest
      have hrest : AreRead source rest.parts := hrest
      have hrest := textOf_pattern_known hname hrest
      simp only [Option.toList_some, List.map_cons, List.map_nil, Function.comp_apply, textOf_cons,
        hrest]

/-- The declarators of a declaration are as they are read. -/
theorem areRead_declarator {d : Declaration} (h : AreRead source d.parts) {declarator : Declarator}
    (hmem : declarator ∈ d.declarators) :
    AreRead source declarator.target.parts ∧ AreRead source (valueParts declarator.value) :=
  List.forall_mem_append.1 fun part hpart => h part (List.mem_flatMap.2 ⟨_, hmem, hpart⟩)

theorem textOf_declaration_known (hname : NameShown filling) {d : Declaration}
    (h : AreRead source d.parts) :
    textOf filling source (@declaration (.filled filling source) d) =
      textOf filling source (declaration d) := by
  simp only [declaration, textOf_append]
  congr 1
  refine textOf_joined_congr ", " ?_
  rw [List.map_map, List.map_map]
  refine List.map_congr_left fun declarator hmem => ?_
  obtain ⟨htarget, hvalue⟩ := areRead_declarator h hmem
  simp only [Function.comp_apply, textOf_append, textOf_pattern_known hname htarget]
  congr 1
  cases hd : declarator.value with
  | none => rfl
  | some value =>
    rw [hd] at hvalue
    simp only [textOf_append, textOf_expression_known hname (hvalue _ List.mem_cons_self)]

theorem textOf_assignments_known (hname : NameShown filling) {d : Declaration}
    (h : AreRead source d.parts) :
    textOf filling source (@assignments (.filled filling source) d) =
      textOf filling source (assignments d) := by
  refine textOf_joined_congr ", " ?_
  rw [List.map_map, List.map_map]
  refine List.map_congr_left fun declarator hmem => ?_
  obtain ⟨htarget, hvalue⟩ := areRead_declarator h hmem
  have hassignment : textOf filling source (@pattern (.filled filling source) declarator.target ++
      [Piece.text " = "] ++ @valueOrVoid (.filled filling source) declarator.value) =
        textOf filling source (pattern declarator.target ++ [Piece.text " = "] ++
          valueOrVoid declarator.value) := by
    simp only [textOf_append, textOf_pattern_known hname htarget,
      textOf_valueOrVoid_known hname hvalue]
  simp only [Function.comp_apply]
  split
  · rw [textOf_append, textOf_append, hassignment, ← textOf_append, ← textOf_append]
  · exact hassignment

/-- Only a name reads like a word of small letters. -/
theorem reads_async_iff {target : Pattern} :
    textOf filling source (pattern target) = "async".toList ↔
      pattern target = [Piece.text "async"] := by
  constructor
  · intro h
    have hword : String.ofList (textOf filling source (pattern target)) ∈ ambiguousWords := by
      rw [h]
      decide
    obtain ⟨name, span, rfl, -⟩ := ambiguous_pattern.1 hword
    rw [pattern, textOf_text] at h
    rw [pattern, String.toList_inj.1 h]
  · intro h
    rw [h, textOf_text]

theorem textOf_assignedTarget_known (hname : NameShown filling) {d : Declaration}
    (h : AreRead source d.parts) (isOf : Bool) :
    textOf filling source (@assignedTarget (.filled filling source) isOf d) =
      textOf filling source (assignedTarget isOf d) := by
  cases hd : d.declarators with
  | nil =>
    simp only [assignedTarget, hd]
  | cons first rest =>
    have htarget := (areRead_declarator h (hd ▸ List.mem_cons_self : first ∈ d.declarators)).1
    have hpattern := textOf_pattern_known hname htarget
    -- The filled text is compared with the word, which is to compare the fragment.
    have hreads : (Wording.filled filling source).reads
        (@pattern (.filled filling source) first.target) "async" = true ↔
          pattern first.target = [Piece.text "async"] := by
      rw [← reads_async_iff, ← hpattern]
      exact beq_iff_eq
    have hknown : @assignedTarget (.filled filling source) isOf d =
        if isOf && (Wording.filled filling source).reads
          (@pattern (.filled filling source) first.target) "async"
        then [Piece.text "(async)"] else @pattern (.filled filling source) first.target := by
      simp only [assignedTarget, hd]
    rw [hknown, assignedTarget_cons isOf hd]
    by_cases hasync : isOf = true ∧ pattern first.target = [Piece.text "async"]
    · rw [if_pos hasync, if_pos (Bool.and_eq_true_iff.2 ⟨hasync.1, hreads.2 hasync.2⟩)]
    · rw [if_neg hasync, if_neg fun hboth => hasync ?_, hpattern]
      obtain ⟨hisOf, hasync⟩ := Bool.and_eq_true_iff.1 hboth
      exact ⟨hisOf, hreads.1 hasync⟩

theorem textOf_loopTarget_known (hname : NameShown filling) {target : LoopTarget}
    (h : AreRead source (target.parts true)) (mode : ScopeMode) (isOf : Bool) :
    textOf filling source (@loopTarget (.filled filling source) mode isOf target) =
      textOf filling source (loopTarget mode isOf target) := by
  cases target with
  | place value => exact textOf_expression_known hname (h _ List.mem_cons_self)
  | declaration d =>
    have hparts : (LoopTarget.declaration d).parts true = d.parts := if_neg (by simp)
    rw [hparts] at h
    simp only [loopTarget]
    split
    · exact textOf_assignedTarget_known hname h isOf
    · exact textOf_declaration_known hname h

theorem textOf_loopStart_known (hname : NameShown filling) {init : Option LoopStart}
    (h : AreRead source (startParts init)) (mode : ScopeMode) :
    textOf filling source ((init.map (@loopStart (.filled filling source) mode)).getD []) =
      textOf filling source ((init.map (loopStart mode)).getD []) := by
  match init with
  | none => rfl
  | some (.expression value) => exact textOf_expression_known hname (h _ List.mem_cons_self)
  | some (.declaration d) =>
    have h : AreRead source d.parts := h
    simp only [Option.map_some, Option.getD_some, loopStart]
    split
    · exact textOf_assignments_known hname h
    · exact textOf_declaration_known hname h

theorem textOf_optionalValue_known (hname : NameShown filling) {value : Option Expression}
    (h : AreRead source (valueParts value)) :
    textOf filling source (@optionalValue (.filled filling source) value) =
      textOf filling source (optionalValue value) := by
  cases value with
  | none => rfl
  | some value =>
    simp only [optionalValue, textOf_append, textOf_expression_known hname (h _ List.mem_cons_self)]

theorem textOf_decorators_known (hname : NameShown filling) {values : List Expression}
    (h : AreRead source (values.map .expression)) :
    textOf filling source (@decorators (.filled filling source) values) =
      textOf filling source (decorators values) := by
  induction values with
  | nil => rfl
  | cons value values ih =>
    rw [List.map_cons] at h
    obtain ⟨hvalue, hvalues⟩ := List.forall_mem_cons.1 h
    have hrest := ih hvalues
    simp only [decorators] at hrest
    simp only [decorators, List.flatMap_cons, textOf_append, hrest,
      textOf_expression_known hname hvalue]

/-! ## Templates -/

/-- Two templates that lay out the same text, wherever it goes on, and enter the same names. -/
structure Agree (filling : Filling) (source : List Char) (t u : Template) : Prop where
  layOut (state : State) : t.layOut filling source state = u.layOut filling source state
  registrations : t.registrations = u.registrations

namespace Agree

variable {t t' u u' : Template}

theorem refl (t : Template) : Agree filling source t t := ⟨fun _ => rfl, rfl⟩

theorem append (ht : Agree filling source t u) (ht' : Agree filling source t' u') :
    Agree filling source (t ++ t') (u ++ u') where
  layOut state := by
    rw [Template.layOut_append, Template.layOut_append, ht.layOut, ht'.layOut]
  registrations := by
    rw [registrations_append, registrations_append, ht.registrations, ht'.registrations]

/-- What is laid out of a fragment is its text. -/
theorem write {f g : Fragment} (h : textOf filling source f = textOf filling source g) :
    Agree filling source (Template.write f) (Template.write g) where
  layOut state := by
    have hjoin (fragment : Fragment) :
        String.join (fragment.map (Piece.fill filling source)) =
          String.ofList (textOf filling source fragment) := by
      rw [← String.toList_inj, String.toList_join, List.flatMap_map, String.toList_ofList]
      rfl
    rw [Template.layOut_write, Template.layOut_write, hjoin, hjoin, h]
  registrations := by rw [registrations_write, registrations_write]

theorem ended (h : Agree filling source t u) :
    Agree filling source (t ++ Template.endStatement) (u ++ Template.endStatement) :=
  h.append (refl _)

theorem line (h : Agree filling source t u) :
    Agree filling source (t ++ [Step.newline]) (u ++ [Step.newline]) :=
  h.append (refl _)

theorem behind (front : Template) (h : Agree filling source t u) :
    Agree filling source (front ++ t) (front ++ u) :=
  (refl front).append h

theorem bindings (h : Agree filling source t u) : t.bindings = u.bindings := by
  simp only [Template.bindings, Template.entered_eq_foldl, h.registrations]

theorem braced (h : Agree filling source t u) :
    Agree filling source (Template.braced t) (Template.braced u) :=
  (h.behind _).append (refl _)

end Agree

/-- The same refusal, or templates that agree. -/
inductive Agrees (filling : Filling) (source : List Char) : Result → Result → Prop
  | refused (e : RebindError) : Agrees filling source (.error e) (.error e)
  | printed {t u : Template} (h : Agree filling source t u) :
    Agrees filling source (.ok t) (.ok u)

namespace Agrees

variable {a b : Result}

theorem bind {f g : Template → Result} (h : Agrees filling source a b)
    (hf : ∀ {t u}, Agree filling source t u → Agrees filling source (f t) (g u)) :
    Agrees filling source (a >>= f) (b >>= g) := by
  cases h with
  | refused e => exact .refused e
  | printed h => exact hf h

/-- Both ways are refused at the same places. -/
theorem after (x : Except RebindError Unit) (h : Agrees filling source a b) :
    Agrees filling source (x >>= fun _ => a) (x >>= fun _ => b) := by
  cases x with
  | error e => exact .refused e
  | ok => exact h

end Agrees

/-! ## Heads -/

section Heads

variable (hname : NameShown filling)
include hname

theorem agree_headed {value : Expression} (h : (Part.expression value).IsRead source)
    (word : String) :
    Agree filling source (@headed (.filled filling source) word value) (headed word value) := by
  refine .write ?_
  simp only [textOf_append, textOf_expression_known hname h]

theorem agree_doTail {test : Expression} (h : (Part.expression test).IsRead source) :
    Agree filling source (@doTail (.filled filling source) test) (doTail test) := by
  refine .ended (.write ?_)
  simp only [textOf_append, textOf_expression_known hname h]

theorem agree_forHead {init : Option LoopStart} {test update : Option Expression}
    (h : AreRead source (startParts init ++ valueParts test ++ valueParts update))
    (mode : ScopeMode) :
    Agree filling source (@forHead (.filled filling source) mode init test update)
      (forHead mode init test update) := by
  obtain ⟨h, hupdate⟩ := List.forall_mem_append.1 h
  obtain ⟨hinit, htest⟩ := List.forall_mem_append.1 h
  refine .append (.write ?_) (.write ?_)
  · rw [textOf_append, textOf_append, textOf_loopStart_known hname hinit]
  · simp only [textOf_append, textOf_optionalValue_known hname htest,
      textOf_optionalValue_known hname hupdate]

theorem agree_targetTail {value : Expression} (h : (Part.expression value).IsRead source)
    (word : String) :
    Agree filling source (@targetTail (.filled filling source) word value)
      (targetTail word value) := by
  refine .write ?_
  simp only [textOf_append, textOf_expression_known hname h]

theorem agree_forInHead {target : LoopTarget} {value : Expression}
    (htarget : AreRead source (target.parts true))
    (hvalue : (Part.expression value).IsRead source) (mode : ScopeMode) :
    Agree filling source (@forInHead (.filled filling source) mode target value)
      (forInHead mode target value) := by
  refine .append (.write ?_) (agree_targetTail hname hvalue " in ")
  rw [textOf_append, textOf_append, textOf_loopTarget_known hname htarget]

theorem agree_forOfHead {target : LoopTarget} {value : Expression}
    (htarget : AreRead source (target.parts true))
    (hvalue : (Part.expression value).IsRead source) (mode : ScopeMode) (isAwait : Bool) :
    Agree filling source (@forOfHead (.filled filling source) mode isAwait target value)
      (forOfHead mode isAwait target value) := by
  refine .append (.write ?_) (agree_targetTail hname hvalue " of ")
  rw [textOf_append, textOf_append, textOf_loopTarget_known hname htarget]

theorem agree_caseLabel {test : Option Expression} (h : AreRead source (valueParts test)) :
    Agree filling source (@caseLabel (.filled filling source) test) (caseLabel test) := by
  cases test with
  | none => exact .refl _
  | some test =>
    refine .write ?_
    simp only [textOf_append, textOf_expression_known hname (h _ List.mem_cons_self)]

theorem agree_catchHead {parameter : Option Pattern} (h : AreRead source (restParts parameter)) :
    Agree filling source (@catchHead (.filled filling source) parameter)
      (catchHead parameter) := by
  cases parameter with
  | none => exact .refl _
  | some p =>
    refine .write ?_
    simp only [textOf_append, textOf_pattern_known hname h]

theorem agree_functionHead {callable : Callable}
    (h : AreRead source (callable.parameters.flatMap Parameter.parts ++ restParts callable.rest))
    (isNamed : Bool) :
    Agree filling source (@functionHead (.filled filling source) callable isNamed)
      (functionHead callable isNamed) := by
  refine .write ?_
  simp only [textOf_append, textOf_parameters_known hname h]

theorem agree_methodHead {values : List Expression} {name : Key} {callable : Callable}
    (hvalues : AreRead source (values.map .expression)) (hkey : AreRead source name.parts)
    (hparameters : AreRead source
      (callable.parameters.flatMap Parameter.parts ++ restParts callable.rest))
    (isStatic : Bool) (kind : MethodKind) :
    Agree filling source (@methodHead (.filled filling source) values isStatic kind name callable)
      (methodHead values isStatic kind name callable) := by
  refine .write ?_
  simp only [textOf_append, textOf_decorators_known hname hvalues, textOf_key_known hname hkey,
    textOf_parameters_known hname hparameters]

theorem agree_field {values : List Expression} {name : Key} {value : Option Expression}
    (hvalues : AreRead source (values.map .expression)) (hkey : AreRead source name.parts)
    (hvalue : AreRead source (valueParts value)) (isStatic isAccessor : Bool) :
    Agree filling source (@field (.filled filling source) values isStatic isAccessor name value)
      (field values isStatic isAccessor name value) := by
  refine .ended (.write ?_)
  simp only [textOf_append, textOf_decorators_known hname hvalues, textOf_key_known hname hkey,
    textOf_valueOrVoid_known hname hvalue]

theorem agree_classHead {definition : ClassDefinition}
    (hvalues : AreRead source (definition.decorators.map .expression))
    (hheritage : AreRead source (valueParts definition.heritage)) :
    Agree filling source (@classHead (.filled filling source) definition)
      (classHead definition) := by
  refine .write ?_
  simp only [textOf_append, textOf_decorators_known hname hvalues]
  congr 1
  cases hvalue : definition.heritage with
  | none => rfl
  | some value =>
    rw [hvalue] at hheritage
    simp only [textOf_append, textOf_expression_known hname (hheritage _ List.mem_cons_self)]

theorem agree_directive {span : Span} (h : (Part.verbatim span).IsRead source) :
    Agree filling source (@directive (.filled filling source) span) (directive span) :=
  .ended (.write (textOf_verbatim_known hname h))

theorem agree_directives {spans : List Span} (h : AreRead source (spans.map .verbatim)) :
    Agree filling source (spans.flatMap (@directive (.filled filling source)))
      (spans.flatMap directive) := by
  induction spans with
  | nil => exact .refl _
  | cons span spans ih =>
    obtain ⟨hspan, hspans⟩ := List.forall_mem_cons.1 h
    exact (agree_directive hname hspan).append (ih hspans)

theorem agree_variableStatement {d : Declaration} (h : AreRead source d.parts)
    (mode : ScopeMode) :
    Agree filling source (@variableStatement (.filled filling source) mode d)
      (variableStatement mode d) := by
  have hassignments := Agree.write (textOf_assignments_known hname h)
  unfold variableStatement
  split
  · exact (hassignments.behind _).ended
  · split
    · exact hassignments.ended
    · exact (Agree.write (textOf_declaration_known hname h)).ended

end Heads

theorem agree_returned {f g : Fragment} (h : textOf filling source f = textOf filling source g) :
    Agree filling source (returned f) (returned g) := by
  refine .ended (.write ?_)
  rw [textOf_cons, textOf_cons, h]

/-! ## Statements -/

mutual

/-- A statement is refused with the same error in both ways, or it has the same code. -/
theorem agrees_statement (hname : NameShown filling) {s : Statement}
    (h : AreRead source (s.parts true)) (mode : ScopeMode) (depth : Nat) (role : Role) :
    Agrees filling source (@statement (.filled filling source) mode depth role s)
      (statement mode depth role s) := by
  cases s with
  | block start body =>
    simp only [statement]
    split
    · exact agrees_statements hname h mode.nested depth
    · refine .after _ (.bind (agrees_statements hname h _ _) fun hbody => .printed ?_)
      exact hbody.braced.line
  | conditional start test consequent alternate =>
    obtain ⟨htest, h⟩ := List.forall_mem_cons.1 h
    obtain ⟨hconsequent, halternate⟩ := List.forall_mem_append.1 h
    simp only [statement]
    refine .after _ (.bind (agrees_statement hname hconsequent _ _ _) fun hbody =>
      .bind (agrees_elseArm hname halternate _ _) fun harm => .printed ?_)
    exact (((agree_headed hname htest "if").append hbody.braced).append harm).append (.refl _)
  | whileLoop start test body =>
    obtain ⟨htest, h⟩ := List.forall_mem_cons.1 h
    simp only [statement]
    refine .after _ (.bind (agrees_statement hname h _ _ _) fun hbody => .printed ?_)
    exact ((agree_headed hname htest "while").append hbody.braced).line
  | doLoop start body test =>
    obtain ⟨h, htest⟩ := List.forall_mem_append.1 h
    simp only [statement]
    refine .after _ (.bind (agrees_statement hname h _ _ _) fun hbody => .printed ?_)
    exact (hbody.braced.behind _).append (agree_doTail hname (htest _ List.mem_cons_self))
  | forLoop start init test update body =>
    obtain ⟨hhead, h⟩ := List.forall_mem_append.1 h
    simp only [statement]
    refine .after _ (.bind (agrees_statement hname h _ _ _) fun hbody => .printed ?_)
    exact (((agree_forHead hname hhead mode).behind _).append hbody.braced).line
  | forIn start target value body =>
    obtain ⟨htarget, h⟩ := List.forall_mem_append.1 h
    obtain ⟨hvalue, h⟩ := List.forall_mem_cons.1 h
    simp only [statement]
    refine .after _ (.bind (agrees_statement hname h _ _ _) fun hbody => .printed ?_)
    exact (((agree_forInHead hname htarget hvalue mode).behind _).append hbody.braced).line
  | forOf start isAwait target value body =>
    obtain ⟨htarget, h⟩ := List.forall_mem_append.1 h
    obtain ⟨hvalue, h⟩ := List.forall_mem_cons.1 h
    simp only [statement]
    refine .after _ (.bind (agrees_statement hname h _ _ _) fun hbody => .printed ?_)
    exact (((agree_forOfHead hname htarget hvalue mode isAwait).behind _).append
      hbody.braced).line
  | choice start value clauses =>
    obtain ⟨hvalue, h⟩ := List.forall_mem_cons.1 h
    simp only [statement]
    refine .after _ (.bind (agrees_cases hname h _ _) fun hbody => .printed ?_)
    exact ((agree_headed hname hvalue "switch").append hbody.braced).line
  | attempt start body handler finalizer =>
    obtain ⟨h, hfinalizer⟩ := List.forall_mem_append.1 h
    obtain ⟨hbody, hhandler⟩ := List.forall_mem_append.1 h
    simp only [statement]
    refine .after _ (.bind (agrees_statements hname hbody _ _) fun hbody =>
      .bind (agrees_handlerArm hname hhandler _ _) fun hhandler =>
        .bind (agrees_finalizerArm hname hfinalizer _ _) fun hfinalizer => .printed ?_)
    exact (((hbody.braced.behind _).append hhandler).append hfinalizer).line
  | withObject start object body =>
    obtain ⟨hobject, h⟩ := List.forall_mem_cons.1 h
    simp only [statement]
    refine .after _ (.bind (agrees_statement hname h _ _ _) fun hbody => .printed ?_)
    exact ((agree_headed hname hobject "with").append hbody.braced).line
  | labeled start labels body =>
    have h : AreRead source (body.parts true) := h
    simp only [statement]
    split
    · exact .bind (agrees_statement hname h _ _ _) fun hbody => .printed (hbody.behind _)
    · refine .after _ (.bind (agrees_statement hname h _ _ _) fun hbody => .printed ?_)
      exact hbody.behind _
  | returnValue start value =>
    simp only [statement]
    refine .after _ (.printed (.ended (.write ?_)))
    rw [textOf_append, textOf_append, textOf_optionalValue_known hname h]
  | throwValue start value =>
    simp only [statement]
    refine .after _ (.printed (.ended (.write ?_)))
    rw [textOf_append, textOf_append, textOf_expression_known hname (h _ List.mem_cons_self)]
  | jump start kind label =>
    simp only [statement]
    exact .after _ (.printed (.refl _))
  | expression start value =>
    simp only [statement]
    refine .after _ (.printed (.ended (.write ?_)))
    exact textOf_expression_known hname (h _ List.mem_cons_self)
  | idle start =>
    simp only [statement]
    exact .after _ (.printed (.refl _))
  | declaration start d =>
    simp only [statement]
    exact .after _ (.printed ((agree_variableStatement hname h mode).behind _))
  | function start callable =>
    rw [Statement.parts, callableParts_eq] at h
    obtain ⟨hhead, hbody⟩ := List.forall_mem_append.1 h
    simp only [statement]
    refine .after _ ?_
    cases callable.name with
    | none => exact .refused _
    | some name =>
      refine .bind (agrees_callableBody hname hbody _) fun hbody => ?_
      split
      · exact .printed (((agree_functionHead hname hhead false).behind _).append hbody).ended
      · exact .printed ((agree_functionHead hname hhead true).append hbody).line
  | classDeclaration start definition =>
    have h : AreRead source (classParts definition) := h
    simp only [statement]
    refine .after _ ?_
    split
    · cases definition.name with
      | none => exact .refused _
      | some name =>
        refine .bind (agrees_classDefinition hname h _) fun hclass => .printed ?_
        exact (hclass.behind _).ended
    · exact .bind (agrees_classDefinition hname h _) fun hclass => .printed hclass.line
  | moduleItem start =>
    simp only [statement]
    refine .after _ ?_
    split
    · exact .printed (.refl _)
    · exact .refused _

theorem agrees_statements (hname : NameShown filling) {body : List Statement}
    (h : AreRead source (listParts true body)) (mode : ScopeMode) (depth : Nat) :
    Agrees filling source (@statements (.filled filling source) mode depth body)
      (statements mode depth body) := by
  cases body with
  | nil => exact .printed (.refl _)
  | cons s rest =>
    rw [listParts] at h
    obtain ⟨hs, hrest⟩ := List.forall_mem_append.1 h
    simp only [statements]
    exact .bind (agrees_statement hname hs _ _ _) fun hfirst =>
      .bind (agrees_statements hname hrest _ _) fun hrest => .printed (hfirst.append hrest)

theorem agrees_elseArm (hname : NameShown filling) {alternate : Option Statement}
    (h : AreRead source (alternateParts true alternate)) (mode : ScopeMode) (depth : Nat) :
    Agrees filling source (@elseArm (.filled filling source) mode depth alternate)
      (elseArm mode depth alternate) := by
  cases alternate with
  | none => exact .printed (.refl _)
  | some s =>
    cases s with
    | conditional =>
      exact .bind (agrees_statement hname h _ _ _) fun hs => .printed (hs.behind _)
    | _ => exact .bind (agrees_statement hname h _ _ _) fun hs => .printed (hs.braced.behind _)

theorem agrees_cases (hname : NameShown filling) {clauses : List Case}
    (h : AreRead source (clauseParts true clauses)) (mode : ScopeMode) (depth : Nat) :
    Agrees filling source (@cases (.filled filling source) mode depth clauses)
      (cases mode depth clauses) := by
  cases clauses with
  | nil => exact .printed (.refl _)
  | cons clause rest =>
    obtain ⟨test, body⟩ := clause
    rw [clauseParts] at h
    obtain ⟨h, hrest⟩ := List.forall_mem_append.1 h
    obtain ⟨htest, hbody⟩ := List.forall_mem_append.1 h
    simp only [cases]
    refine .bind (agrees_statements hname hbody _ _) fun hbody =>
      .bind (agrees_cases hname hrest _ _) fun hrest => .printed ?_
    have hlabel := (agree_caseLabel hname htest).append (.refl [Step.newline, .indent])
    exact ((hlabel.append hbody).append (.refl [Step.dedent])).append hrest

theorem agrees_handlerArm (hname : NameShown filling) {handler : Option Handler}
    (h : AreRead source (handlerParts true handler)) (mode : ScopeMode) (depth : Nat) :
    Agrees filling source (@handlerArm (.filled filling source) mode depth handler)
      (handlerArm mode depth handler) := by
  cases handler with
  | none => exact .printed (.refl _)
  | some handler =>
    obtain ⟨parameter, body⟩ := handler
    obtain ⟨hparameter, hbody⟩ := List.forall_mem_append.1 h
    simp only [handlerArm]
    refine .bind (agrees_statements hname hbody _ _) fun hbody => .printed ?_
    exact (agree_catchHead hname hparameter).append hbody.braced

theorem agrees_finalizerArm (hname : NameShown filling) {finalizer : Option (List Statement)}
    (h : AreRead source (finalizerParts true finalizer)) (mode : ScopeMode) (depth : Nat) :
    Agrees filling source (@finalizerArm (.filled filling source) mode depth finalizer)
      (finalizerArm mode depth finalizer) := by
  cases finalizer with
  | none => exact .printed (.refl _)
  | some body =>
    simp only [finalizerArm]
    exact .bind (agrees_statements hname h _ _) fun hbody => .printed (hbody.braced.behind _)

theorem agrees_callableBody (hname : NameShown filling) {callable : Callable}
    (h : AreRead source (bodyParts callable.body)) (depth : Nat) :
    Agrees filling source (@callableBody (.filled filling source) depth callable)
      (callableBody depth callable) := by
  obtain ⟨_, _, _, _, _, body⟩ := callable
  exact agrees_functionBody hname h depth

theorem agrees_functionBody (hname : NameShown filling) {body : Body}
    (h : AreRead source (bodyParts body)) (depth : Nat) :
    Agrees filling source (@functionBody (.filled filling source) depth body)
      (functionBody depth body) := by
  obtain ⟨start, directives, statements⟩ := body
  obtain ⟨hdirectives, hstatements⟩ := List.forall_mem_append.1 h
  simp only [functionBody]
  refine .after _ (.bind (agrees_statements hname hstatements _ _) fun hbody => .printed ?_)
  exact ((agree_directives hname hdirectives).append hbody).braced

theorem agrees_classDefinition (hname : NameShown filling) {definition : ClassDefinition}
    (h : AreRead source (classParts definition)) (depth : Nat) :
    Agrees filling source (@classDefinition (.filled filling source) depth definition)
      (classDefinition depth definition) := by
  obtain ⟨start, values, name, heritage, members⟩ := definition
  obtain ⟨h, hmembers⟩ := List.forall_mem_append.1 h
  obtain ⟨hvalues, hheritage⟩ := List.forall_mem_append.1 h
  simp only [classDefinition]
  refine .after _ (.bind (agrees_elements hname hmembers _) fun hinner => .printed ?_)
  exact (agree_classHead hname hvalues hheritage).append hinner.braced

theorem agrees_elements (hname : NameShown filling) {members : List Element}
    (h : AreRead source (elementsParts members)) (depth : Nat) :
    Agrees filling source (@elements (.filled filling source) depth members)
      (elements depth members) := by
  cases members with
  | nil => exact .printed (.refl _)
  | cons member rest =>
    rw [elementsParts] at h
    obtain ⟨hmember, hrest⟩ := List.forall_mem_append.1 h
    simp only [elements]
    exact .bind (agrees_element hname hmember _) fun hfirst =>
      .bind (agrees_elements hname hrest _) fun hrest => .printed (hfirst.append hrest)

theorem agrees_element (hname : NameShown filling) {member : Element}
    (h : AreRead source member.parts) (depth : Nat) :
    Agrees filling source (@element (.filled filling source) depth member)
      (element depth member) := by
  cases member with
  | staticBlock start body =>
    simp only [element]
    refine .after _ (.bind (agrees_statements hname h _ _) fun hbody => .printed ?_)
    exact (hbody.braced.behind _).line
  | method values isStatic kind name callable =>
    rw [Element.parts, callableParts_eq] at h
    obtain ⟨hfront, h⟩ := List.forall_mem_append.1 h
    obtain ⟨hvalues, hkey⟩ := List.forall_mem_append.1 hfront
    obtain ⟨hparameters, hbody⟩ := List.forall_mem_append.1 h
    simp only [element]
    refine .bind (agrees_callableBody hname hbody _) fun hbody => .printed ?_
    exact ((agree_methodHead hname hvalues hkey hparameters isStatic kind).append hbody).line
  | field values isStatic isAccessor name value =>
    obtain ⟨hfront, hvalue⟩ := List.forall_mem_append.1 h
    obtain ⟨hvalues, hkey⟩ := List.forall_mem_append.1 hfront
    exact .printed (agree_field hname hvalues hkey hvalue isStatic isAccessor)

end

/-! ## Snippets -/

theorem agrees_lastStatement (hname : NameShown filling) {s : Statement}
    (h : AreRead source (s.parts true)) (hoist : Bool) :
    Agrees filling source (@lastStatement (.filled filling source) hoist s)
      (lastStatement hoist s) := by
  unfold lastStatement
  split
  · next value =>
    exact .printed (agree_returned (textOf_expression_known hname (h _ List.mem_cons_self)))
  · split
    · exact .printed (.refl _)
    · exact agrees_statement hname h _ _ _

theorem agree_directivesOnly (hname : NameShown filling) {spans : List Span}
    (h : AreRead source (spans.map .verbatim)) :
    Agree filling source (@directivesOnly (.filled filling source) spans)
      (directivesOnly spans) := by
  rcases List.eq_nil_or_concat spans with rfl | ⟨front, last, rfl⟩
  · exact .refl _
  · rw [List.concat_eq_append] at h ⊢
    rw [List.map_append] at h
    obtain ⟨hfront, hlast⟩ := List.forall_mem_append.1 h
    simp only [directivesOnly, List.dropLast_concat, List.getLast?_concat]
    exact (agree_directives hname hfront).append
      (agree_returned (textOf_verbatim_known hname (hlast _ List.mem_cons_self)))

theorem agrees_program (hname : NameShown filling) {p : Program}
    (h : AreRead source (p.directives.map .verbatim ++ listParts true p.statements))
    (hoist : Bool) :
    Agrees filling source (@program (.filled filling source) hoist p) (program hoist p) := by
  obtain ⟨hdirectives, hstatements⟩ := List.forall_mem_append.1 h
  rw [listParts_eq] at hstatements
  have hbody {body : List Statement} (hsub : ∀ s ∈ body, s ∈ p.statements) :
      AreRead source (listParts true body) := by
    rw [listParts_eq]
    intro part hpart
    obtain ⟨s, hs, hpart⟩ := List.mem_flatMap.1 hpart
    exact hstatements part (List.mem_flatMap.2 ⟨s, hsub s hs, hpart⟩)
  unfold program
  cases hlast : p.statements.getLast? with
  | none => exact .printed (agree_directivesOnly hname hdirectives)
  | some last =>
    have hfunctions : AreRead source
        (listParts true (if hoist then p.statements.filter isFunction else [])) := by
      refine hbody fun s hs => ?_
      cases hoist with
      | true => exact List.mem_of_mem_filter hs
      | false => cases hs
    have hothers : AreRead source
        (listParts true (p.statements.dropLast.filter fun s => !(hoist && isFunction s))) :=
      hbody fun s hs => List.dropLast_subset _ (List.mem_of_mem_filter hs)
    have hend : AreRead source (last.parts true) := fun part hpart =>
      hstatements part (List.mem_flatMap.2 ⟨last, List.mem_of_getLast? hlast, hpart⟩)
    refine .bind (agrees_statements hname hfunctions _ _) fun hfunctions =>
      .bind (agrees_statements hname hothers _ _) fun hothers =>
        .bind (agrees_lastStatement hname hend hoist) fun hend => .printed ?_
    exact (((agree_directives hname hdirectives).append hfunctions).append hothers).append hend

end Code

/-- The parts of a snippet are as they are read. -/
theorem Snippet.Program.areRead {source : List Char} {p : Program} (h : parse source = .ok p) :
    AreRead source (p.directives.map .verbatim ++ listParts true p.statements) := by
  obtain ⟨stop, hordered⟩ := Program.parse_ordered h
  intro part hpart
  obtain ⟨-, hlt, -⟩ := hordered.between_of_mem _ (List.mem_map_of_mem hpart)
  exact ⟨hlt, Program.parse_nested h part hpart⟩

/-- What is printed under options is refused with the error of the template, or it agrees with the
template. -/
theorem printed_agrees {options : Options} (source : List Char)
    (hname : isBindingName options.moduleBinding = true) :
    Code.Agrees options.filling source (printed options source)
      (template options.hoistFunctions source) := by
  rw [printed, template]
  cases hp : parse source with
  | error e => exact .refused e
  | ok p =>
    exact Code.agrees_program (nameShown_of_isBindingName hname)
      (Program.areRead (parse_eq_ok.1 hp)) options.hoistFunctions

/-- **Printing under known names is filling a template.** -/
theorem checkedRebind_eq {options : Options} {source : String} (h : options.validate = .ok ()) :
    checkedRebind options source = rebind options source := by
  have hagrees := printed_agrees source.toList (Options.validate_ok.1 h).2.2
  rw [checkedRebind, h, rebind]
  generalize printed options source.toList = known at hagrees ⊢
  generalize template options.hoistFunctions source.toList = opened at hagrees ⊢
  cases hagrees with
  | refused e => rfl
  | @printed t u hagree =>
    have hcode : t.code options.filling source.toList = u.code options.filling source.toList := by
      rw [Template.code_eq_layOut, Template.code_eq_layOut, hagree.layOut]
    have houtput : ({ code := t.code options.filling source.toList, bindings := t.bindings } :
        Output) = { code := u.code options.filling source.toList, bindings := u.bindings } := by
      rw [hcode, hagree.bindings]
    exact congrArg Except.ok houtput

end Rebind
