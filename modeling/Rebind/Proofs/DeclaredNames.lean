import Rebind.Proofs.DeclarationSites

/-!
# The bindings of a snippet

What a snippet declares can be read off its tree without looking at any code.  Variables and
functions count wherever they stand outside functions and classes; constants, lexical variables and
classes count only directly in the snippet.  The bindings made by the code are exactly these names,
each once and in the order in which they are declared first (`bindings_are_declared`).
-/

namespace Rebind

open Rebind.Snippet

/-! ## Declared names -/

namespace Snippet

/-- The names of a declaration that is one of the whole snippet wherever it stands. -/
def Declaration.variableNames (d : Declaration) : List String :=
  if d.kind = .variable then d.names else []

def startVariableNames : Option LoopStart → List String
  | some (.declaration d) => d.variableNames
  | some (.expression _) | none => []

def LoopTarget.variableNames : LoopTarget → List String
  | .declaration d => d.variableNames
  | .place _ => []

mutual

/-- The names of the variables and functions in a statement, outside functions and classes. -/
def Statement.variableNames : Statement → List String
  | .block _ body => listVariableNames body
  | .conditional _ _ consequent alternate =>
    consequent.variableNames ++ alternateVariableNames alternate
  | .whileLoop _ _ body | .doLoop _ body _ | .withObject _ _ body | .labeled _ _ body =>
    body.variableNames
  | .forLoop _ init _ _ body => startVariableNames init ++ body.variableNames
  | .forIn _ target _ body | .forOf _ _ target _ body =>
    target.variableNames ++ body.variableNames
  | .choice _ _ clauses => clauseVariableNames clauses
  | .attempt _ body handler finalizer =>
    listVariableNames body ++ handlerVariableNames handler ++ finalizerVariableNames finalizer
  | .declaration _ d => d.variableNames
  | .function _ callable => callable.name.toList
  | .classDeclaration _ _ | .returnValue _ _ | .throwValue _ _ | .jump _ _ _ | .expression _ _
  | .idle _ | .moduleItem _ => []

def listVariableNames : List Statement → List String
  | [] => []
  | s :: rest => s.variableNames ++ listVariableNames rest

def alternateVariableNames : Option Statement → List String
  | none => []
  | some s => s.variableNames

def clauseVariableNames : List Case → List String
  | [] => []
  | ⟨_, body⟩ :: rest => listVariableNames body ++ clauseVariableNames rest

def handlerVariableNames : Option Handler → List String
  | none => []
  | some ⟨_, body⟩ => listVariableNames body

def finalizerVariableNames : Option (List Statement) → List String
  | none => []
  | some body => listVariableNames body

end

/-- The names that a statement of the snippet itself declares lexically. -/
def Statement.lexicalNames : Statement → List String
  | .declaration _ d => if d.kind = .lexical ∨ d.kind = .constant then d.names else []
  | .classDeclaration _ definition => definition.name.toList
  | _ => []

/-- Those of the lexically declared names that are constants. -/
def Statement.constantNames : Statement → List String
  | .declaration _ d => if d.kind = .constant then d.names else []
  | _ => []

/-- What a snippet declares, each name once. -/
def Program.declared (hoist : Bool) (p : Program) : Bindings where
  global := (listVariableNames (Code.written hoist p)).eraseDups
  scope := ((Code.written hoist p).flatMap Statement.lexicalNames).eraseDups
  constants := ((Code.written hoist p).flatMap Statement.constantNames).eraseDups

end Snippet

/-! ## Entered names -/

/-- The names in a register after some entries, as often as they are entered. -/
def namesIn (register : Register) (entries : List (Register × List String)) : List String :=
  entries.flatMap fun entry => if entry.1 = register then entry.2 else []

namespace Template

variable {register : Register}

/-- Names that are known already are passed over. -/
theorem foldl_known (names known : List String) :
    names.foldl (fun known name => if known.contains name then known else known ++ [name]) known =
      known ++ (names.filter fun name => !known.contains name).eraseDups := by
  induction names generalizing known with
  | nil => simp
  | cons name names ih =>
    rw [List.foldl_cons, ih, List.filter_cons]
    cases hname : known.contains name with
    | true => rfl
    | false =>
      have hfilter : (names.filter fun other => !(known ++ [name]).contains other) =
          (names.filter fun other => !known.contains other).filter fun other => !other == name := by
        rw [List.filter_filter]
        refine List.filter_congr fun other _ => ?_
        rw [List.contains_append, Bool.not_or, Bool.and_comm, List.contains_cons,
          List.contains_nil, Bool.or_false]
      simp only [Bool.false_eq_true, ↓reduceIte, Bool.not_false, List.eraseDups_cons, hfilter,
        List.append_assoc, List.singleton_append]

theorem entered_eq_foldl (t : Template) :
    t.entered register = (namesIn register t.registrations).foldl
      (fun known name => if known.contains name then known else known ++ [name]) [] := by
  unfold entered
  congr 1
  induction t with
  | nil => rfl
  | cons step t ih => cases step <;> simp_all [registrations, namesIn]

theorem entered_eq_eraseDups (t : Template) :
    t.entered register = (namesIn register t.registrations).eraseDups := by
  have hnew (names : List String) :
      names.filter (fun name => !([] : List String).contains name) = names :=
    List.filter_eq_self.2 fun _ _ => rfl
  rw [entered_eq_foldl, foldl_known, hnew, List.nil_append]

end Template

namespace Code

/-! ## Entered names and sites -/

variable {register : Register}

namespace Site

/-- The names that a site enters. -/
theorem namesIn_entries (site : Site) :
    namesIn register site.entries =
      (if site.sink?.map .sink = some register then site.names else []) ++
        (match site.declared with
        | .statement d =>
          if d.kind = .constant ∧ site.mode = .topLevel ∧ register = .constants then d.names else []
        | .function callable =>
          if site.mode ≠ .functionBody ∧ register = .sink .global then callable.name.toList else []
        | _ => []) := by
  rw [entries, namesIn, List.flatMap_append]
  congr 1
  · cases site.sink? with
    | none => rfl
    | some sink => by_cases hnames : site.names = [] <;> simp [hnames]
  · obtain ⟨mode, labels, declared⟩ := site
    cases declared with
    | statement d =>
      by_cases hconstant : d.kind = .constant ∧ mode = .topLevel
      · simp [hconstant, eq_comm]
      · simp only [if_neg hconstant, List.flatMap_nil]
        rw [if_neg fun h => hconstant ⟨h.1, h.2.1⟩]
    | function callable =>
      by_cases hmode : mode = .functionBody <;> cases hname : callable.name <;>
        simp [hmode, hname, eq_comm]
    | _ => rfl

/-- A site in a function enters nothing. -/
theorem namesIn_of_functionBody {site : Site} (h : site.mode = .functionBody) :
    namesIn register site.entries = [] := by
  rw [namesIn_entries]
  obtain ⟨mode, labels, declared⟩ := site
  obtain rfl : mode = .functionBody := h
  cases declared with
  | statement d => cases hkind : d.kind <;> simp [sink?, hkind]
  | _ => simp [sink?]

/-- A site inside a statement of the snippet enters nothing that is declared lexically. -/
theorem namesIn_of_inside {site : Site} (h : site.mode ≠ .topLevel)
    (hregister : register ≠ .sink .global) : namesIn register site.entries = [] := by
  rw [namesIn_entries]
  obtain ⟨mode, labels, declared⟩ := site
  have hmode : mode ≠ .topLevel := h
  have hglobal : ¬ Register.sink Sink.global = register := hregister.symm
  cases declared with
  | statement d =>
    cases hkind : d.kind <;> cases mode <;> simp_all [sink?]
  | _ => cases mode <;> simp_all [sink?]

end Site

/-! ## The modes of sites -/

mutual

/-- Inside a statement of the snippet and inside functions the mode of a statement does not change
but to that of functions. -/
theorem mode_of_mem_sites (s : Statement) {mode : ScopeMode} {labels : List String}
    (hmode : mode.nested = mode) :
    ∀ site ∈ sites mode labels s, site.mode = mode ∨ site.mode = .functionBody := by
  cases s with
  | block _ body =>
    rw [sites, hmode]
    exact mode_of_mem_listSites body hmode
  | conditional _ _ consequent alternate =>
    rw [sites, hmode]
    refine List.forall_mem_append.2 ⟨mode_of_mem_sites consequent hmode, ?_⟩
    exact mode_of_mem_alternateSites alternate hmode
  | whileLoop _ _ body | doLoop _ body _ | withObject _ _ body | labeled _ _ body =>
    rw [sites, hmode]
    exact mode_of_mem_sites body hmode
  | forLoop _ init _ _ body =>
    rw [sites, hmode]
    refine List.forall_mem_append.2 ⟨?_, mode_of_mem_sites body hmode⟩
    unfold startSites
    split <;> simp
  | forIn _ target _ body | forOf _ _ target _ body =>
    rw [sites, hmode]
    refine List.forall_mem_append.2 ⟨?_, mode_of_mem_sites body hmode⟩
    cases target <;> simp [targetSites]
  | choice _ _ clauses =>
    rw [sites, hmode]
    exact mode_of_mem_clauseSites clauses hmode
  | attempt _ body handler finalizer =>
    rw [sites, hmode]
    refine List.forall_mem_append.2 ⟨List.forall_mem_append.2 ⟨?_, ?_⟩, ?_⟩
    · exact mode_of_mem_listSites body hmode
    · exact mode_of_mem_handlerSites handler hmode
    · exact mode_of_mem_finalizerSites finalizer hmode
  | function _ callable =>
    refine List.forall_mem_append.2 ⟨by simp, fun site hsite => .inr ?_⟩
    exact mode_of_mem_callableSites callable site hsite
  | classDeclaration _ definition =>
    obtain ⟨_, _, _, _, members⟩ := definition
    refine List.forall_mem_append.2 ⟨by simp, fun site hsite => .inr ?_⟩
    exact mode_of_mem_elementsSites members site hsite
  | declaration => simp [sites]
  | _ => nofun

theorem mode_of_mem_listSites (body : List Statement) {mode : ScopeMode}
    (hmode : mode.nested = mode) :
    ∀ site ∈ listSites mode body, site.mode = mode ∨ site.mode = .functionBody := by
  cases body with
  | nil => nofun
  | cons s rest =>
    exact List.forall_mem_append.2 ⟨mode_of_mem_sites s hmode, mode_of_mem_listSites rest hmode⟩

theorem mode_of_mem_alternateSites (alternate : Option Statement) {mode : ScopeMode}
    (hmode : mode.nested = mode) :
    ∀ site ∈ alternateSites mode alternate, site.mode = mode ∨ site.mode = .functionBody := by
  cases alternate with
  | none => nofun
  | some s => exact mode_of_mem_sites s hmode

theorem mode_of_mem_clauseSites (clauses : List Case) {mode : ScopeMode}
    (hmode : mode.nested = mode) :
    ∀ site ∈ clauseSites mode clauses, site.mode = mode ∨ site.mode = .functionBody := by
  cases clauses with
  | nil => nofun
  | cons clause rest =>
    obtain ⟨_, body⟩ := clause
    refine List.forall_mem_append.2 ⟨mode_of_mem_listSites body hmode, ?_⟩
    exact mode_of_mem_clauseSites rest hmode

theorem mode_of_mem_handlerSites (handler : Option Handler) {mode : ScopeMode}
    (hmode : mode.nested = mode) :
    ∀ site ∈ handlerSites mode handler, site.mode = mode ∨ site.mode = .functionBody := by
  cases handler with
  | none => nofun
  | some handler =>
    obtain ⟨_, body⟩ := handler
    exact mode_of_mem_listSites body hmode

theorem mode_of_mem_finalizerSites (finalizer : Option (List Statement)) {mode : ScopeMode}
    (hmode : mode.nested = mode) :
    ∀ site ∈ finalizerSites mode finalizer, site.mode = mode ∨ site.mode = .functionBody := by
  cases finalizer with
  | none => nofun
  | some body => exact mode_of_mem_listSites body hmode

theorem mode_of_mem_callableSites (callable : Callable) :
    ∀ site ∈ callableSites callable, site.mode = .functionBody := by
  obtain ⟨_, _, _, _, _, ⟨_, _, body⟩⟩ := callable
  intro site hsite
  simpa using mode_of_mem_listSites body rfl site hsite

theorem mode_of_mem_elementsSites (members : List Element) :
    ∀ site ∈ elementsSites members, site.mode = .functionBody := by
  cases members with
  | nil => nofun
  | cons e rest =>
    refine List.forall_mem_append.2 ⟨?_, mode_of_mem_elementsSites rest⟩
    cases e with
    | staticBlock _ body =>
      intro site hsite
      simpa using mode_of_mem_listSites body rfl site hsite
    | method _ _ _ _ callable => exact mode_of_mem_callableSites callable
    | field => nofun

end

/-! ## Names of the whole snippet -/

/-- The names that the code of sites enters in a register. -/
def enteredAt (register : Register) (sites : List Site) : List String :=
  sites.flatMap fun site => namesIn register site.entries

@[simp] theorem enteredAt_append (xs ys : List Site) :
    enteredAt register (xs ++ ys) = enteredAt register xs ++ enteredAt register ys :=
  List.flatMap_append

theorem enteredAt_of_functionBody {sites : List Site}
    (h : ∀ site ∈ sites, site.mode = .functionBody) : enteredAt register sites = [] :=
  List.flatMap_eq_nil_iff.2 fun site hsite => Site.namesIn_of_functionBody (h site hsite)

section Global

variable {mode : ScopeMode} {labels : List String}

/-- A declaration of variables outside functions enters those of the whole snippet. -/
theorem enteredAt_declaration (hmode : mode ≠ .functionBody) (d : Declaration) :
    enteredAt (.sink .global) [⟨mode, labels, .statement d⟩] = d.variableNames := by
  simp only [enteredAt, List.flatMap_singleton, Site.namesIn_entries, Site.sink?, Site.names,
    Declaration.variableNames]
  obtain ⟨kind, declarators⟩ := d
  cases kind <;> cases mode <;> simp_all

theorem enteredAt_startSites (hmode : mode ≠ .functionBody) (init : Option LoopStart) :
    enteredAt (.sink .global) (startSites mode labels init) = startVariableNames init := by
  unfold startSites startVariableNames
  split
  · next d =>
    simp only [enteredAt, List.flatMap_singleton, Site.namesIn_entries, Site.sink?, Site.names,
      Declaration.variableNames]
    by_cases hkind : d.kind = .variable <;> simp [hkind, hmode]
  all_goals rfl

theorem enteredAt_targetSites {declared : Declaration → Declared}
    (hdeclared : declared = .keys ∨ ∃ isAwait, declared = .values isAwait)
    (hmode : mode ≠ .functionBody) (target : LoopTarget) :
    enteredAt (.sink .global) (targetSites mode labels declared target) =
      target.variableNames := by
  cases target with
  | place => rfl
  | declaration d =>
    rcases hdeclared with rfl | ⟨isAwait, rfl⟩ <;>
    · simp only [targetSites, enteredAt, List.flatMap_singleton, Site.namesIn_entries, Site.sink?,
        Site.names, LoopTarget.variableNames, Declaration.variableNames]
      by_cases hkind : d.kind = .variable <;> simp [hkind, hmode]

end Global

mutual

/-- The sites of a statement outside functions enter its variables and functions. -/
theorem enteredAt_sites (s : Statement) {mode : ScopeMode} {labels : List String}
    (hmode : mode ≠ .functionBody) :
    enteredAt (.sink .global) (sites mode labels s) = s.variableNames := by
  have hnested : mode.nested ≠ .functionBody := by
    cases mode <;> simp_all [ScopeMode.nested]
  cases s with
  | block _ body => exact enteredAt_listSites body hnested
  | conditional _ _ consequent alternate =>
    rw [sites, Statement.variableNames, enteredAt_append, enteredAt_sites consequent hnested,
      enteredAt_alternateSites alternate hnested]
  | whileLoop _ _ body | doLoop _ body _ | withObject _ _ body | labeled _ _ body =>
    exact enteredAt_sites body hnested
  | forLoop _ init _ _ body =>
    rw [sites, Statement.variableNames, enteredAt_append, enteredAt_startSites hmode,
      enteredAt_sites body hnested]
  | forIn _ target _ body =>
    rw [sites, Statement.variableNames, enteredAt_append, enteredAt_targetSites (.inl rfl) hmode,
      enteredAt_sites body hnested]
  | forOf _ isAwait target _ body =>
    rw [sites, Statement.variableNames, enteredAt_append,
      enteredAt_targetSites (.inr ⟨isAwait, rfl⟩) hmode, enteredAt_sites body hnested]
  | choice _ _ clauses => exact enteredAt_clauseSites clauses hnested
  | attempt _ body handler finalizer =>
    rw [sites, Statement.variableNames, enteredAt_append, enteredAt_append,
      enteredAt_listSites body hnested, enteredAt_handlerSites handler hnested,
      enteredAt_finalizerSites finalizer hnested]
  | declaration _ d => exact enteredAt_declaration hmode d
  | function _ callable =>
    rw [sites, enteredAt_append, enteredAt_of_functionBody (mode_of_mem_callableSites callable)]
    simp [enteredAt, Site.namesIn_entries, Site.sink?, Statement.variableNames, hmode]
  | classDeclaration _ definition =>
    obtain ⟨_, _, _, _, members⟩ := definition
    rw [sites, memberSites, enteredAt_append,
      enteredAt_of_functionBody (mode_of_mem_elementsSites members)]
    simp only [enteredAt, List.flatMap_singleton, Site.namesIn_entries, Site.sink?]
    split <;> simp [Statement.variableNames]
  | _ => rfl

theorem enteredAt_listSites (body : List Statement) {mode : ScopeMode}
    (hmode : mode ≠ .functionBody) :
    enteredAt (.sink .global) (listSites mode body) = listVariableNames body := by
  cases body with
  | nil => rfl
  | cons s rest =>
    rw [listSites, listVariableNames, enteredAt_append, enteredAt_sites s hmode,
      enteredAt_listSites rest hmode]

theorem enteredAt_alternateSites (alternate : Option Statement) {mode : ScopeMode}
    (hmode : mode ≠ .functionBody) :
    enteredAt (.sink .global) (alternateSites mode alternate) =
      alternateVariableNames alternate := by
  cases alternate with
  | none => rfl
  | some s => exact enteredAt_sites s hmode

theorem enteredAt_clauseSites (clauses : List Case) {mode : ScopeMode}
    (hmode : mode ≠ .functionBody) :
    enteredAt (.sink .global) (clauseSites mode clauses) = clauseVariableNames clauses := by
  cases clauses with
  | nil => rfl
  | cons clause rest =>
    obtain ⟨_, body⟩ := clause
    rw [clauseSites, clauseVariableNames, enteredAt_append, enteredAt_listSites body hmode,
      enteredAt_clauseSites rest hmode]

theorem enteredAt_handlerSites (handler : Option Handler) {mode : ScopeMode}
    (hmode : mode ≠ .functionBody) :
    enteredAt (.sink .global) (handlerSites mode handler) = handlerVariableNames handler := by
  cases handler with
  | none => rfl
  | some handler =>
    obtain ⟨_, body⟩ := handler
    exact enteredAt_listSites body hmode

theorem enteredAt_finalizerSites (finalizer : Option (List Statement)) {mode : ScopeMode}
    (hmode : mode ≠ .functionBody) :
    enteredAt (.sink .global) (finalizerSites mode finalizer) =
      finalizerVariableNames finalizer := by
  cases finalizer with
  | none => rfl
  | some body => exact enteredAt_listSites body hmode

end

/-! ## Names declared lexically -/

/-- Inside a statement of the snippet nothing is entered that is declared lexically. -/
theorem enteredAt_of_inside {sites : List Site} (hregister : register ≠ .sink .global)
    (h : ∀ site ∈ sites, site.mode = .topLevelBlock ∨ site.mode = .functionBody) :
    enteredAt register sites = [] := by
  refine List.flatMap_eq_nil_iff.2 fun site hsite => Site.namesIn_of_inside ?_ hregister
  rcases h site hsite with hmode | hmode <;> simp [hmode]

/-- What a statement of the snippet enters as declared lexically, or as constant. -/
theorem enteredAt_topLevel (hregister : register ≠ .sink .global) (s : Statement) :
    enteredAt register (sites .topLevel [] s) =
      match s with
      | .declaration _ d => enteredAt register [⟨.topLevel, [], .statement d⟩]
      | .classDeclaration _ definition =>
        enteredAt register [⟨.topLevel, [], .classDefinition definition⟩]
      | _ => [] := by
  have hinside (s : Statement) : enteredAt register (sites .topLevelBlock [] s) = [] :=
    enteredAt_of_inside hregister (mode_of_mem_sites s rfl)
  have hs := hinside s
  cases s with
  | declaration => rfl
  | classDeclaration _ definition =>
    obtain ⟨_, _, _, _, members⟩ := definition
    rw [sites, enteredAt_append, memberSites,
      enteredAt_of_functionBody (mode_of_mem_elementsSites members), List.append_nil]
  | function _ callable =>
    rw [sites, enteredAt_append, enteredAt_of_functionBody (mode_of_mem_callableSites callable)]
    simp [enteredAt, Site.namesIn_entries, Site.sink?, hregister]
  | forLoop _ init _ _ body =>
    rw [sites, enteredAt_append, ScopeMode.nested, hinside body, List.append_nil]
    unfold startSites
    split
    -- Only a variable is entered from the head of a loop, and not in this register.
    · next d =>
      by_cases hkind : d.kind = .variable <;>
        simp [enteredAt, Site.namesIn_entries, Site.sink?, hkind, hregister.symm]
    all_goals rfl
  | forIn _ target _ body | forOf _ _ target _ body =>
    rw [sites, enteredAt_append, ScopeMode.nested, hinside body, List.append_nil]
    cases target with
    | place => rfl
    | declaration d =>
      by_cases hkind : d.kind = .variable <;>
        simp [targetSites, enteredAt, Site.namesIn_entries, Site.sink?, hkind, hregister.symm]
  -- What stands inside the other statements stands inside the snippet's own as well.
  | _ => exact hs

theorem enteredAt_scope (s : Statement) :
    enteredAt (.sink .scope) (sites .topLevel [] s) = s.lexicalNames := by
  rw [enteredAt_topLevel (by simp)]
  split
  · next d =>
    simp only [enteredAt, List.flatMap_singleton, Site.namesIn_entries, Site.sink?, Site.names,
      Statement.lexicalNames]
    obtain ⟨kind, declarators⟩ := d
    cases kind <;> simp
  · simp [enteredAt, Site.namesIn_entries, Site.sink?, Site.names, Statement.lexicalNames]
  · next hdeclaration hclass =>
    unfold Statement.lexicalNames
    split <;> simp_all

theorem enteredAt_constants (s : Statement) :
    enteredAt .constants (sites .topLevel [] s) = s.constantNames := by
  rw [enteredAt_topLevel (by simp)]
  split
  · next d =>
    simp only [enteredAt, List.flatMap_singleton, Site.namesIn_entries, Site.sink?, Site.names,
      Statement.constantNames]
    obtain ⟨kind, declarators⟩ := d
    cases kind <;> simp
  · simp [enteredAt, Site.namesIn_entries, Site.sink?, Statement.constantNames]
  · next hdeclaration hclass =>
    unfold Statement.constantNames
    split <;> simp_all

/-- The snippet's own statements, one after the other. -/
theorem enteredAt_listSites_topLevel {names : Statement → List String}
    (h : ∀ s, enteredAt register (sites .topLevel [] s) = names s) (body : List Statement) :
    enteredAt register (listSites .topLevel body) = body.flatMap names := by
  induction body with
  | nil => rfl
  | cons s body ih => rw [listSites, enteredAt_append, h, ih, List.flatMap_cons]

/-- The bindings of the code of a snippet are what the snippet declares. -/
theorem bindings_program {hoist : Bool} {p : Program} {t : Template}
    (h : program hoist p = .ok t) : t.bindings = p.declared hoist := by
  have hentries (register : Register) :
      namesIn register t.registrations = enteredAt register (programSites hoist p) := by
    rw [(woven_program h).registrations fun _ => registrations_of_mem_phrases]
    exact List.flatMap_assoc
  simp only [Template.bindings, Program.declared, Template.entered_eq_eraseDups, hentries,
    programSites]
  rw [enteredAt_listSites _ (by simp), enteredAt_listSites_topLevel enteredAt_scope,
    enteredAt_listSites_topLevel enteredAt_constants]

end Code

/-! ## Bindings -/

/-- A constant is declared lexically. -/
theorem constantNames_subset (s : Statement) : s.constantNames ⊆ s.lexicalNames := by
  cases s with
  | declaration _ d =>
    simp only [Statement.constantNames, Statement.lexicalNames]
    split
    · next hkind => simp [hkind]
    · exact List.nil_subset _
  | _ => exact List.nil_subset _

theorem constants_subset_scope (hoist : Bool) (p : Program) :
    (p.declared hoist).constants ⊆ (p.declared hoist).scope := by
  intro name hname
  rw [Program.declared, List.mem_eraseDups, List.mem_flatMap] at hname ⊢
  obtain ⟨s, hs, hname⟩ := hname
  exact ⟨s, hs, constantNames_subset s hname⟩

/-- **The bindings are what the snippet declares.**  They are the names of its variables and
functions outside functions and classes, of what it declares lexically itself, and of its own
constants, each once and in the order in which the code declares them. -/
theorem bindings_are_declared {options : Options} {source : String} {out : Output}
    (h : rebind options source = .ok out) :
    ∃ p, parse source.toList = .ok p ∧ out.bindings = p.declared options.hoistFunctions ∧
      out.bindings.constants ⊆ out.bindings.scope := by
  obtain ⟨t, ht, hout⟩ := Code.bind_eq_ok.1 h
  obtain ⟨p, hp, ht⟩ := Code.bind_eq_ok.1 ht
  obtain rfl := Code.pure_eq_ok.1 hout
  have hbindings := Code.bindings_program ht
  refine ⟨p, hp, hbindings, ?_⟩
  simp only [hbindings]
  exact constants_subset_scope options.hoistFunctions p

/-- Duplicates, hoisting, and declarations inside a block and inside a function. -/
theorem mixed_declarations_are_bound :
    let source := "const k = 1; class C \x7b\x7d\nfor (var [x, x] of xs) \x7b let z; " ++
      "function f() \x7b var w; \x7d \x7d\nvar x; function g() \x7b\x7d"
    ∃ out, rebind {} source = .ok out ∧
      out.bindings = { global := ["g", "x", "f"], scope := ["k", "C"], constants := ["k"] } ∧
      ∃ p, parse source.toList = .ok p ∧ out.bindings = p.declared true ∧
        out.bindings.constants ⊆ out.bindings.scope := by
  intro source
  have hbindings : (rebind {} source).toOption.map Output.bindings =
      some { global := ["g", "x", "f"], scope := ["k", "C"], constants := ["k"] } := by
    decide +kernel
  obtain ⟨out, hout, hbindings⟩ := Option.map_eq_some_iff.1 hbindings
  have h := Code.eq_ok_of_toOption hout
  exact ⟨out, h, hbindings, bindings_are_declared h⟩

end Rebind
