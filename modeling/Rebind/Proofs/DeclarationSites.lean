import Rebind.Code
import Rebind.Proofs.Sites

/-!
# Declarations and their registration

The template of a snippet is woven from its sites and the phrases of its statements.  So a
declaration is written as assignments exactly if its names are registered by the call right before
it, and nothing else is registered (`declarations_are_registered`).

The sites and the code depend on the tree in the same way but for labels: the labeled statement
writes the call for the statement after its labels, and the labels, before that statement is
written.  `lead` is what stands there already.
-/

namespace Rebind

open Rebind.Snippet

namespace Code

/-! ## The sites of statements -/

theorem redirects_iff {mode : ScopeMode} {d : Declaration} :
    redirects mode d = true ↔ d.kind = .variable ∧ mode ≠ .functionBody := by
  simp [redirects, ScopeMode.redirectsVar]

@[simp] theorem nested_nested (mode : ScopeMode) : mode.nested.nested = mode.nested := by
  cases mode <;> rfl

variable {known : List Template}

/-- All phrases of some nodes are known. -/
def Known (known : List Template) (nodes : List Node) : Prop :=
  ∀ node ∈ nodes, nodePhrases node ⊆ known

theorem known_cons {node : Node} {nodes : List Node} :
    Known known (node :: nodes) ↔ nodePhrases node ⊆ known ∧ Known known nodes :=
  List.forall_mem_cons

theorem known_append {front back : List Node} :
    Known known (front ++ back) ↔ Known known front ∧ Known known back :=
  List.forall_mem_append

/-- Labels of the snippet. -/
def KnownLabels (known : List Template) (labels : List String) : Prop :=
  ∀ label ∈ labels, Template.fixed (label ++ ": ") ∈ known

theorem KnownLabels.plain {labels : List String} (h : KnownLabels known labels) :
    Plain known (labelsBefore labels) := by
  induction labels with
  | nil => exact .nil
  | cons label labels ih =>
    obtain ⟨hlabel, hlabels⟩ := List.forall_mem_cons.1 h
    exact .append (.phrase hlabel) (ih hlabels)

theorem plain_directives {directives : List Text.Span} (h : directives.map copiedLine ⊆ known) :
    Plain known (directives.flatMap directive) := by
  induction directives with
  | nil => exact .nil
  | cons span directives ih =>
    obtain ⟨hspan, hdirectives⟩ := List.cons_subset.1 h
    exact .append (.phrase hspan) (ih hdirectives)

/-- A declaration whose names are registered for the whole snippet, from the call on. -/
theorem woven_registered (site : Site) (s : Statement) {d : Declaration}
    (hs : registeredNames site.mode s = if redirects site.mode d then d.names else [])
    (hsink : site.sink? = if redirects site.mode d then some .global else none)
    (hnames : site.names = d.names) (hconstants : site.constants = []) :
    Woven known [site] (registration site.mode s ++ labelsBefore site.labels ++ site.head) := by
  have hcall : registration site.mode s = site.call := by
    unfold registration Site.call
    rw [hs, hsink, hnames]
    split <;> rfl
  have hcode : site.code = registration site.mode s ++ labelsBefore site.labels ++ site.head := by
    rw [Site.code, hconstants, hcall, List.append_nil]
  exact hcode ▸ Woven.of_code site

/-- The labels that a statement can have, by its role.  One after labels stands inside another
statement. -/
def Fits (mode : ScopeMode) (labels : List String) : Role → Prop
  | .afterLabels => mode.nested = mode
  | .listed | .inBraces | .afterElse => labels = []

/-- What stands before the template of a statement: after labels, the labels themselves and the
registration before them, which the labeled statement has written. -/
def lead (mode : ScopeMode) (labels : List String) (s : Statement) : Role → Template
  | .afterLabels => registration mode (unlabeled s) ++ labelsBefore labels
  | .listed | .inBraces | .afterElse => []

section Lead

variable {mode : ScopeMode} {role : Role} {labels : List String} {s : Statement} {t : Template}

theorem plain_lead (hlabels : KnownLabels known labels)
    (h : registeredNames mode (unlabeled s) = []) : Plain known (lead mode labels s role) := by
  cases role with
  | afterLabels =>
    rw [lead, registration, h]
    exact .append .nil hlabels.plain
  | _ => exact .nil

/-- Directly in the snippet there are no labels before a statement. -/
theorem Fits.labels_eq_nil (hfits : Fits mode labels role) (hmode : mode = .topLevel) :
    labels = [] := by
  subst hmode
  cases role with
  | afterLabels => cases hfits
  | _ => exact hfits

/-- A statement that registers its own names has written the call before its labels. -/
theorem lead_append (hfits : Fits mode labels role) (hs : unlabeled s = s) :
    lead mode labels s role ++ (registrationUnless role mode s ++ t) =
      registration mode s ++ labelsBefore labels ++ t := by
  cases role with
  | afterLabels => simp [lead, registrationUnless, hs]
  | _ =>
    obtain rfl : labels = [] := hfits
    simp [lead, registrationUnless, labelsBefore, Template.write]

theorem lead_eq_labels (hfits : Fits mode labels role)
    (h : registeredNames mode (unlabeled s) = []) :
    lead mode labels s role = labelsBefore labels := by
  cases role with
  | afterLabels => rw [lead, registration, h]; rfl
  | _ =>
    obtain rfl : labels = [] := hfits
    rfl

end Lead

/-! ## Heads and declarations -/

section Heads

variable (mode : ScopeMode) {labels : List String}

/-- The head of a counting loop after the call and the labels. -/
theorem woven_forHead (start : Nat) (init : Option LoopStart) (test update : Option Expression)
    (body : Statement)
    (hlabels : declares (.forLoop start init test update body) = false → KnownLabels known labels)
    (hphrase : forPhrase init test update ∈ known) :
    Woven known (startSites mode labels init)
      (registration mode (.forLoop start init test update body) ++ labelsBefore labels ++
        forHead mode init test update) := by
  rw [forHead]
  match init, hphrase with
  | none, hphrase => exact .plain (.append (.append .nil (hlabels rfl).plain) (.phrase hphrase))
  | some (.expression value), hphrase =>
    exact .plain (.append (.append .nil (hlabels rfl).plain) (.phrase hphrase))
  | some (.declaration d), hphrase =>
    rw [Template.write_append, ← List.append_assoc]
    refine .append_plain ?_ (.phrase hphrase)
    have hsink : Site.sink? ⟨mode, labels, .counters d⟩ =
        if redirects mode d then some .global else none := by
      simp only [Site.sink?, redirects_iff]
    have hhead : Site.head ⟨mode, labels, .counters d⟩ =
        Template.fixed "for (" ++ Template.write (loopStart mode (.declaration d)) := by
      simp only [Site.head, hsink, loopStart]
      cases redirects mode d <;> rfl
    have h : Woven known [⟨mode, labels, .counters d⟩] _ :=
      woven_registered _ (.forLoop start (some (.declaration d)) test update body) rfl hsink rfl rfl
    rw [hhead] at h
    exact h

/-- The head of a loop over keys after the call and the labels. -/
theorem woven_forIn (start : Nat) (target : LoopTarget) (object : Expression) (body : Statement)
    (hlabels : declares (.forIn start target object body) = false → KnownLabels known labels)
    (hphrase : targetPhrase "for (" " in " target object ∈ known) :
    Woven known (targetSites mode labels .keys target)
      (registration mode (.forIn start target object body) ++ labelsBefore labels ++
        forInHead mode target object) := by
  rw [forInHead]
  cases target with
  | place value => exact .plain (.append (.append .nil (hlabels rfl).plain) (.phrase hphrase))
  | declaration d =>
    rw [Template.write_append, ← List.append_assoc]
    refine .append_plain ?_ (.phrase hphrase)
    have hsink : Site.sink? ⟨mode, labels, .keys d⟩ =
        if redirects mode d then some .global else none := by
      simp only [Site.sink?, redirects_iff]
    have hhead : Site.head ⟨mode, labels, .keys d⟩ =
        Template.fixed "for (" ++ Template.write (loopTarget mode false (.declaration d)) := by
      simp only [Site.head, hsink, loopTarget]
      cases redirects mode d <;> rfl
    have h : Woven known [⟨mode, labels, .keys d⟩] _ :=
      woven_registered _ (.forIn start (.declaration d) object body) rfl hsink rfl rfl
    rw [hhead] at h
    exact h

/-- The head of a loop over values after the call and the labels. -/
theorem woven_forOf (start : Nat) (isAwait : Bool) (target : LoopTarget) (values : Expression)
    (body : Statement)
    (hlabels :
      declares (.forOf start isAwait target values body) = false → KnownLabels known labels)
    (hphrase :
      targetPhrase (if isAwait then "for await (" else "for (") " of " target values ∈ known) :
    Woven known (targetSites mode labels (.values isAwait) target)
      (registration mode (.forOf start isAwait target values body) ++ labelsBefore labels ++
        forOfHead mode isAwait target values) := by
  rw [forOfHead]
  cases target with
  | place value => exact .plain (.append (.append .nil (hlabels rfl).plain) (.phrase hphrase))
  | declaration d =>
    rw [Template.write_append, ← List.append_assoc]
    refine .append_plain ?_ (.phrase hphrase)
    have hsink : Site.sink? ⟨mode, labels, .values isAwait d⟩ =
        if redirects mode d then some .global else none := by
      simp only [Site.sink?, redirects_iff]
    have hhead : Site.head ⟨mode, labels, .values isAwait d⟩ =
        Template.fixed (if isAwait then "for await (" else "for (") ++
          Template.write (loopTarget mode true (.declaration d)) := by
      simp only [Site.head, hsink, loopTarget]
      cases redirects mode d <;> rfl
    have h : Woven known [⟨mode, labels, .values isAwait d⟩] _ :=
      woven_registered _ (.forOf start isAwait (.declaration d) values body) rfl hsink rfl rfl
    rw [hhead] at h
    exact h

/-- A declaration of variables after its labels, of which one directly in the snippet has none. -/
theorem woven_declaration {mode : ScopeMode} {labels : List String} (start : Nat)
    (d : Declaration) (hlabels : mode = .topLevel → labels = []) :
    Woven known [⟨mode, labels, .statement d⟩]
      (registration mode (.declaration start d) ++ labelsBefore labels ++
        variableStatement mode d) := by
  by_cases hlexical : (d.kind = .lexical ∨ d.kind = .constant) ∧ mode = .topLevel
  · obtain ⟨hkind, rfl⟩ := hlexical
    have hcode : Site.code ⟨.topLevel, labels, .statement d⟩ =
        registration .topLevel (.declaration start d) ++ labelsBefore labels ++
          variableStatement .topLevel d := by
      rcases hkind with hkind | hkind <;>
        simp [Site.code, Site.call, Site.constants, Site.head, Site.sink?, Site.names,
          registration, registeredNames, redirects, variableStatement, hkind, hlabels rfl,
          ScopeMode.redirectsLexical, labelsBefore, Template.write, Template.registration]
    exact hcode ▸ Woven.of_code _
  · have hsink : Site.sink? ⟨mode, labels, .statement d⟩ =
        if redirects mode d then some .global else none := by
      have hnot : mode = .topLevel → d.kind ≠ .lexical ∧ d.kind ≠ .constant :=
        fun hmode => ⟨fun h => hlexical ⟨.inl h, hmode⟩, fun h => hlexical ⟨.inr h, hmode⟩⟩
      simp only [Site.sink?, redirects_iff]
      cases hkind : d.kind <;> cases mode <;> simp_all
    have hconstants : Site.constants ⟨mode, labels, .statement d⟩ = [] :=
      if_neg fun h => hlexical ⟨.inr h.1, h.2⟩
    have hhead : Site.head ⟨mode, labels, .statement d⟩ = variableStatement mode d := by
      have hnot :
          ((d.kind == .lexical || d.kind == .constant) && mode.redirectsLexical) = false := by
        simpa [ScopeMode.redirectsLexical] using hlexical
      simp only [Site.head, hsink, variableStatement, hnot]
      cases redirects mode d <;> rfl
    have h : Woven known [⟨mode, labels, .statement d⟩] _ :=
      woven_registered _ (.declaration start d) rfl hsink rfl hconstants
    rw [hhead] at h
    exact h

theorem woven_functionHead (labels : List String) (callable : Callable) {name : String}
    (hname : callable.name = some name) :
    Woven known [⟨mode, labels, .function callable⟩]
      (labelsBefore labels ++ if mode.redirectsVar then
        functionTarget name ++ functionHead callable false
      else functionHead callable true) := by
  have hcode : Site.code ⟨mode, labels, .function callable⟩ = labelsBefore labels ++
      if mode.redirectsVar then functionTarget name ++ functionHead callable false
      else functionHead callable true := by
    simp only [Site.code, Site.call, Site.constants, Site.head, Site.sink?, hname]
    cases mode <;> rfl
  exact hcode ▸ Woven.of_code _

/-- The head of a class that stays a declaration, after its labels. -/
theorem woven_classHead (labels : List String) (definition : ClassDefinition)
    (hmode : mode ≠ .topLevel) :
    Woven known [⟨mode, labels, .classDefinition definition⟩]
      (labelsBefore labels ++ classHead definition) := by
  have hcode : Site.code ⟨mode, labels, .classDefinition definition⟩ =
      labelsBefore labels ++ classHead definition := by
    simp [Site.code, Site.call, Site.constants, Site.head, Site.sink?, hmode]
  exact hcode ▸ Woven.of_code _

/-- The head of a class directly in the snippet. -/
theorem woven_classHead_topLevel (definition : ClassDefinition) {name : String}
    (hname : definition.name = some name) :
    Woven known [⟨.topLevel, [], .classDefinition definition⟩]
      (Template.registration .scope [name] ++ Template.fixed (name ++ " = ") ++
        classHead definition) := by
  have hcode : Site.code ⟨.topLevel, [], .classDefinition definition⟩ =
      Template.registration .scope [name] ++ Template.fixed (name ++ " = ") ++
        classHead definition := by
    simp [Site.code, Site.call, Site.constants, Site.head, Site.sink?, Site.names, hname,
      labelsBefore, Template.write]
  exact hcode ▸ Woven.of_code _

end Heads

/-! ## Statements and their parts -/

/-- A body between braces on lines of their own, after what stands before it. -/
theorem woven_braced {xs : List Site} {front inner : Template} (hfront : Plain known front)
    (h : Woven known xs inner) : Woven known xs (front ++ Template.braced inner) :=
  .plain_append hfront h.braced

/-- A loop with its head and its body. -/
theorem woven_loop {mode : ScopeMode} {role : Role} {labels : List String} {s : Statement}
    {xs ys : List Site} {head inner : Template} (hfits : Fits mode labels role)
    (hs : unlabeled s = s)
    (hhead : Woven known xs (registration mode s ++ labelsBefore labels ++ head))
    (hbody : Woven known ys inner) :
    Woven known (xs ++ ys) (lead mode labels s role ++
      (registrationUnless role mode s ++ head ++ Template.braced inner ++ [Step.newline])) := by
  rw [← lead_append hfits hs] at hhead
  have hloop := (hhead.append hbody.braced).append_plain .newline
  simpa only [List.append_assoc] using hloop

/-- A conditional after `else` has the sites it has as a statement of its own. -/
theorem sites_nested_conditional (mode : ScopeMode) (start : Nat) (test : Expression)
    (body : Statement) (alternate : Option Statement) :
    sites mode.nested [] (.conditional start test body alternate) =
      sites mode [] (.conditional start test body alternate) := by
  simp only [sites, nested_nested]

theorem KnownLabels.nil : KnownLabels known [] := List.forall_mem_nil _

/-- What the statement after labels knows of them. -/
theorem KnownLabels.more {labels more : List String} {start : Nat} {body : Statement}
    (hlabels : KnownLabels known labels)
    (hs : nodePhrases (.statement (.labeled start more body)) ⊆ known)
    (hbody : declares (unlabeled body) = false) : KnownLabels known (labels ++ more) := by
  refine List.forall_mem_append.2 ⟨hlabels, fun label hlabel => hs ?_⟩
  rw [nodePhrases, statementPhrases, if_neg (Bool.eq_false_iff.1 hbody)]
  exact List.mem_map.2 ⟨label, hlabel, rfl⟩

mutual

/-- The code of a statement with the labels before it is woven from the sites in it.  The labels are
phrases unless they are those of a site. -/
theorem woven_statement (s : Statement) {mode : ScopeMode} {depth : Nat} {role : Role}
    {labels : List String} {t : Template} (hknown : Known known s.nodes)
    (hlabels : declares (unlabeled s) = false → KnownLabels known labels)
    (h : statement mode depth role s = .ok t)
    (hfits : Fits mode labels role) :
    Woven known (sites mode labels s) (lead mode labels s role ++ t) := by
  obtain ⟨hown, hinside⟩ := known_cons.1 hknown
  cases s with
  | block start body =>
    refine .plain_append (plain_lead (hlabels rfl) rfl) ?_
    rw [statement_block_ok] at h
    split at h
    · exact woven_statements body hinside h
    · obtain ⟨-, inner, hinner, rfl⟩ := h
      exact (woven_statements body hinside hinner).braced.append_plain .newline
  | conditional start test consequent alternate =>
    obtain ⟨-, inner, hinner, arm, harm, rfl⟩ := statement_conditional_ok.1 h
    obtain ⟨hconsequent, halternate⟩ := known_append.1 hinside
    refine .plain_append (plain_lead (hlabels rfl) rfl) (.append_plain (.append ?_ ?_) ?_)
    · exact woven_braced (.phrase (hown List.mem_cons_self))
        (woven_statement consequent hconsequent (fun _ => .nil) hinner rfl)
    · exact woven_elseArm alternate halternate
        (hown (List.mem_cons_of_mem _ List.mem_cons_self)) harm
    · split
      · exact .nil
      · exact .newline
  | whileLoop start test body =>
    obtain ⟨-, inner, hinner, rfl⟩ := statement_whileLoop_ok.1 h
    refine .plain_append (plain_lead (hlabels rfl) rfl) (.append_plain ?_ .newline)
    exact woven_braced (.phrase (hown List.mem_cons_self))
      (woven_statement body hinside (fun _ => .nil) hinner rfl)
  | doLoop start body test =>
    obtain ⟨-, inner, hinner, rfl⟩ := statement_doLoop_ok.1 h
    refine .plain_append (plain_lead (hlabels rfl) rfl) (.append_plain ?_ (.phrase ?_))
    · exact woven_braced (.phrase (hown List.mem_cons_self))
        (woven_statement body hinside (fun _ => .nil) hinner rfl)
    · exact hown (List.mem_cons_of_mem _ List.mem_cons_self)
  | forLoop start init test update body =>
    obtain ⟨-, inner, hinner, rfl⟩ := statement_forLoop_ok.1 h
    refine woven_loop hfits rfl ?_ (woven_statement body hinside (fun _ => .nil) hinner rfl)
    exact woven_forHead mode start init test update body hlabels (hown List.mem_cons_self)
  | forIn start target object body =>
    obtain ⟨-, inner, hinner, rfl⟩ := statement_forIn_ok.1 h
    refine woven_loop hfits rfl ?_ (woven_statement body hinside (fun _ => .nil) hinner rfl)
    exact woven_forIn mode start target object body hlabels (hown List.mem_cons_self)
  | forOf start isAwait target values body =>
    obtain ⟨-, inner, hinner, rfl⟩ := statement_forOf_ok.1 h
    refine woven_loop hfits rfl ?_ (woven_statement body hinside (fun _ => .nil) hinner rfl)
    exact woven_forOf mode start isAwait target values body hlabels (hown List.mem_cons_self)
  | choice start value clauses =>
    obtain ⟨-, inner, hinner, rfl⟩ := statement_choice_ok.1 h
    obtain ⟨hvalue, hclauses⟩ := List.cons_subset.1 hown
    refine .plain_append (plain_lead (hlabels rfl) rfl) (.append_plain ?_ .newline)
    exact woven_braced (.phrase hvalue) (woven_cases clauses hinside hclauses hinner)
  | attempt start body handler finalizer =>
    obtain ⟨-, inner, hinner, caught, hcaught, final, hfinal, rfl⟩ := statement_attempt_ok.1 h
    obtain ⟨hinside, hfinalizer⟩ := known_append.1 hinside
    obtain ⟨hbody, hhandler⟩ := known_append.1 hinside
    refine .plain_append (plain_lead (hlabels rfl) rfl)
      (.append_plain (.append (.append ?_ ?_) ?_) .newline)
    · exact woven_braced (.phrase (hown List.mem_cons_self)) (woven_statements body hbody hinner)
    · refine woven_handlerArm handler hhandler (fun t ht => hown ?_) hcaught
      exact List.mem_append_right _ ht
    · exact woven_finalizerArm finalizer hfinalizer
        (hown (List.mem_cons_of_mem _ List.mem_cons_self)) hfinal
  | withObject start object body =>
    obtain ⟨-, inner, hinner, rfl⟩ := statement_withObject_ok.1 h
    refine .plain_append (plain_lead (hlabels rfl) rfl) (.append_plain ?_ .newline)
    exact woven_braced (.phrase (hown List.mem_cons_self))
      (woven_statement body hinside (fun _ => .nil) hinner rfl)
  | labeled start more body =>
    -- The names of the statement are registered once, before the first of all its labels.
    obtain ⟨depth, inner, hinner, ht⟩ : ∃ depth inner,
        statement mode.nested depth .afterLabels body = .ok inner ∧
        lead mode labels (.labeled start more body) role ++ t =
          lead mode.nested (labels ++ more) body .afterLabels ++ inner := by
      rw [statement_labeled_ok] at h
      split at h
      · next hrole =>
        subst hrole
        obtain ⟨inner, hinner, rfl⟩ := h
        have hmode : mode.nested = mode := hfits
        refine ⟨depth, inner, hinner, ?_⟩
        simp [lead, hmode, unlabeled, labelsBefore, Template.write]
      · next hrole =>
        obtain ⟨-, inner, hinner, rfl⟩ := h
        refine ⟨depth + 1, inner, hinner, ?_⟩
        cases role with
        | afterLabels => exact absurd rfl hrole
        | _ =>
          obtain rfl : labels = [] := hfits
          simp [lead]
    rw [ht]
    exact woven_statement body hinside (fun hbody => (hlabels hbody).more hown hbody) hinner
      (nested_nested mode)
  | returnValue start value =>
    obtain ⟨-, rfl⟩ := statement_returnValue_ok.1 h
    exact .plain ((plain_lead (hlabels rfl) rfl).append (.phrase (hown List.mem_cons_self)))
  | throwValue start value =>
    obtain ⟨-, rfl⟩ := statement_throwValue_ok.1 h
    exact .plain ((plain_lead (hlabels rfl) rfl).append (.phrase (hown List.mem_cons_self)))
  | jump start kind label =>
    obtain ⟨-, rfl⟩ := statement_jump_ok.1 h
    exact .plain ((plain_lead (hlabels rfl) rfl).append (.phrase (hown List.mem_cons_self)))
  | expression start value =>
    obtain ⟨-, rfl⟩ := statement_expression_ok.1 h
    exact .plain ((plain_lead (hlabels rfl) rfl).append (.phrase (hown List.mem_cons_self)))
  | idle start =>
    obtain ⟨-, rfl⟩ := statement_idle_ok.1 h
    exact .plain_append (plain_lead (hlabels rfl) rfl) (.plain .nil)
  | declaration start d =>
    obtain ⟨-, rfl⟩ := statement_declaration_ok.1 h
    rw [lead_append hfits rfl]
    exact woven_declaration start d fun htop => hfits.labels_eq_nil htop
  | function start callable =>
    obtain ⟨-, name, hname, body, hbody, rfl⟩ := statement_function_ok.1 h
    have hhead : Woven known [⟨mode, labels, .function callable⟩] _ :=
      woven_functionHead mode labels callable hname
    rw [lead_eq_labels hfits rfl]
    split
    · next hvar =>
      rw [if_pos hvar] at hhead
      have hfunction :=
        (hhead.append (woven_callableBody callable hinside hbody)).append_plain .endStatement
      simpa only [sites, List.append_assoc] using hfunction
    · next hvar =>
      rw [if_neg hvar] at hhead
      have hfunction :=
        (hhead.append (woven_callableBody callable hinside hbody)).append_plain .newline
      simpa only [sites, List.append_assoc] using hfunction
  | classDeclaration start definition =>
    obtain ⟨start, decorators, name, heritage, members⟩ := definition
    obtain ⟨-, hmembers⟩ := known_cons.1 hinside
    obtain ⟨-, hclass⟩ := statement_classDeclaration_ok.1 h
    rw [lead_eq_labels hfits rfl]
    split at hclass
    · next htop =>
      obtain rfl : mode = .topLevel := by simpa [ScopeMode.redirectsLexical] using htop
      obtain rfl : labels = [] := hfits.labels_eq_nil rfl
      obtain ⟨_, hname, inner, hbody, rfl⟩ := hclass
      obtain ⟨-, inner, hinner, rfl⟩ := classDefinition_ok.1 hbody
      have hhead : Woven known [_] _ := woven_classHead_topLevel _ hname
      have hclass :=
        (hhead.append (woven_elements members hmembers hinner).braced).append_plain .endStatement
      simpa only [sites, memberSites, classTarget, labelsBefore, Template.write, List.map_nil,
        List.nil_append, List.append_assoc] using hclass
    · next htop =>
      obtain ⟨inner, hbody, rfl⟩ := hclass
      obtain ⟨-, inner, hinner, rfl⟩ := classDefinition_ok.1 hbody
      have hmode : mode ≠ .topLevel := by simpa [ScopeMode.redirectsLexical] using htop
      have hhead : Woven known [_] _ := woven_classHead _ labels
        ⟨start, decorators, name, heritage, members⟩ hmode
      have hclass :=
        (hhead.append (woven_elements members hmembers hinner).braced).append_plain .newline
      simpa only [sites, memberSites, List.append_assoc] using hclass
  | moduleItem start =>
    obtain ⟨-, -, rfl⟩ := statement_moduleItem_ok.1 h
    exact .plain_append (plain_lead (hlabels rfl) rfl) (.plain .nil)

theorem woven_statements (body : List Statement) {mode : ScopeMode} {depth : Nat} {t : Template}
    (hknown : Known known (listNodes body)) (h : statements mode depth body = .ok t) :
    Woven known (listSites mode body) t := by
  cases body with
  | nil =>
    rw [statements, ok_eq_ok] at h
    exact h ▸ .plain .nil
  | cons s rest =>
    obtain ⟨first, hfirst, others, hothers, rfl⟩ := statements_cons_ok.1 h
    obtain ⟨hs, hrest⟩ := known_append.1 hknown
    exact .append (woven_statement s hs (fun _ => .nil) hfirst rfl)
      (woven_statements rest hrest hothers)

theorem woven_elseArm (alternate : Option Statement) {mode : ScopeMode} {depth : Nat}
    {t : Template} (hknown : Known known (alternateNodes alternate))
    (helse : Template.fixed " else " ∈ known) (h : elseArm mode depth alternate = .ok t) :
    Woven known (alternateSites mode.nested alternate) t := by
  cases alternate with
  | none =>
    rw [elseArm, ok_eq_ok] at h
    exact h ▸ .plain .nil
  | some s =>
    cases s with
    | conditional start test body alternate =>
      -- It is written in the mode of the first conditional, but its sites are counted as nested.
      obtain ⟨inner, hinner, rfl⟩ := elseArm_conditional_ok.1 h
      have hs := woven_statement (.conditional start test body alternate) hknown
        (fun _ => .nil) hinner rfl
      rw [← sites_nested_conditional] at hs
      exact .plain_append (.phrase helse) hs
    | _ =>
      obtain ⟨inner, hinner, rfl⟩ := (elseArm_body_ok (by simp)).1 h
      exact woven_braced (.phrase helse) (woven_statement _ hknown (fun _ => .nil) hinner rfl)

theorem woven_cases (clauses : List Case) {mode : ScopeMode} {depth : Nat} {t : Template}
    (hknown : Known known (clauseNodes clauses))
    (hlabels : clauses.map (fun c => caseLabel c.test) ⊆ known)
    (h : cases mode depth clauses = .ok t) : Woven known (clauseSites mode clauses) t := by
  cases clauses with
  | nil =>
    rw [cases, ok_eq_ok] at h
    exact h ▸ .plain .nil
  | cons clause rest =>
    obtain ⟨test, body⟩ := clause
    obtain ⟨inner, hinner, others, hothers, rfl⟩ := cases_cons_ok.1 h
    obtain ⟨hbody, hrest⟩ := known_append.1 hknown
    obtain ⟨hlabel, hlabels⟩ := List.cons_subset.1 hlabels
    refine .append (.append_plain (.plain_append ?_ ?_) .dedent) ?_
    · exact .append (.phrase hlabel) (.append .newline .indent)
    · exact woven_statements body hbody hinner
    · exact woven_cases rest hrest hlabels hothers

theorem woven_handlerArm (handler : Option Handler) {mode : ScopeMode} {depth : Nat} {t : Template}
    (hknown : Known known (handlerNodes handler))
    (hcatch : (handler.toList.map fun h => catchHead h.parameter) ⊆ known)
    (h : handlerArm mode depth handler = .ok t) : Woven known (handlerSites mode handler) t := by
  cases handler with
  | none =>
    rw [handlerArm, ok_eq_ok] at h
    exact h ▸ .plain .nil
  | some handler =>
    obtain ⟨parameter, body⟩ := handler
    obtain ⟨inner, hinner, rfl⟩ := handlerArm_some_ok.1 h
    exact woven_braced (.phrase (hcatch List.mem_cons_self)) (woven_statements body hknown hinner)

theorem woven_finalizerArm (finalizer : Option (List Statement)) {mode : ScopeMode} {depth : Nat}
    {t : Template} (hknown : Known known (finalizerNodes finalizer))
    (hfinally : Template.fixed " finally " ∈ known)
    (h : finalizerArm mode depth finalizer = .ok t) :
    Woven known (finalizerSites mode finalizer) t := by
  cases finalizer with
  | none =>
    rw [finalizerArm, ok_eq_ok] at h
    exact h ▸ .plain .nil
  | some body =>
    obtain ⟨inner, hinner, rfl⟩ := finalizerArm_some_ok.1 h
    exact woven_braced (.phrase hfinally) (woven_statements body hknown hinner)

theorem woven_callableBody (callable : Callable) {depth : Nat} {t : Template}
    (hknown : Known known (callableNodes callable)) (h : callableBody depth callable = .ok t) :
    Woven known (callableSites callable) t := by
  obtain ⟨isAsync, isGenerator, name, parameters, rest, body⟩ := callable
  exact woven_functionBody body (known_cons.1 hknown).2 h

theorem woven_functionBody (body : Body) {depth : Nat} {t : Template}
    (hknown : Known known (bodyNodes body)) (h : functionBody depth body = .ok t) :
    Woven known (bodySites body) t := by
  obtain ⟨start, directives, body⟩ := body
  obtain ⟨-, inner, hinner, rfl⟩ := functionBody_ok.1 h
  obtain ⟨hdirectives, hbody⟩ := known_cons.1 hknown
  exact (Woven.plain_append (plain_directives hdirectives)
    (woven_statements body hbody hinner)).braced

theorem woven_elements (members : List Element) {depth : Nat} {t : Template}
    (hknown : Known known (elementsNodes members)) (h : elements depth members = .ok t) :
    Woven known (elementsSites members) t := by
  cases members with
  | nil =>
    rw [elements, ok_eq_ok] at h
    exact h ▸ .plain .nil
  | cons e rest =>
    obtain ⟨first, hfirst, others, hothers, rfl⟩ := elements_cons_ok.1 h
    obtain ⟨he, hrest⟩ := known_append.1 hknown
    exact (woven_element e he hfirst).append (woven_elements rest hrest hothers)

theorem woven_element (e : Element) {depth : Nat} {t : Template} (hknown : Known known e.nodes)
    (h : element depth e = .ok t) : Woven known (elementSites e) t := by
  obtain ⟨hown, hinside⟩ := known_cons.1 hknown
  have hhead {u : Template} (hu : u ∈ memberPhrases e) : Plain known u := .phrase (hown hu)
  cases e with
  | staticBlock start body =>
    obtain ⟨-, inner, hinner, rfl⟩ := element_staticBlock_ok.1 h
    exact .append_plain (woven_braced (hhead List.mem_cons_self)
      (woven_statements body hinside hinner)) .newline
  | method values isStatic kind name callable =>
    obtain ⟨body, hbody, rfl⟩ := element_method_ok.1 h
    exact .append_plain (.plain_append (hhead List.mem_cons_self)
      (woven_callableBody callable hinside hbody)) .newline
  | field values isStatic isAccessor name value =>
    obtain rfl := element_field_ok.1 h
    exact .plain (hhead List.mem_cons_self)

end

/-! ## Snippets -/

theorem listSites_append (mode : ScopeMode) (body rest : List Statement) :
    listSites mode (body ++ rest) = listSites mode body ++ listSites mode rest := by
  induction body with
  | nil => rfl
  | cons s body ih => rw [List.cons_append, listSites, listSites, ih, List.append_assoc]

theorem written_eq (hoist : Bool) (p : Program) :
    written hoist p = (if hoist then p.statements.filter isFunction else []) ++
      p.statements.filter fun s => !(hoist && isFunction s) := by
  cases hoist
  · simp [written, List.filter_eq_self.2]
  · simp [written]

theorem Known.of_subset {some all : List Statement} (hall : Known known (listNodes all))
    (h : some ⊆ all) : Known known (listNodes some) := by
  rw [listNodes_eq] at hall ⊢
  intro node hnode
  obtain ⟨s, hs, hnode⟩ := List.mem_flatMap.1 hnode
  exact hall node (List.mem_flatMap.2 ⟨s, h hs, hnode⟩)

theorem known_phrases (p : Program) : Known (phrases p) (listNodes p.statements) :=
  fun node hnode _ ht => List.mem_append_right _ (List.mem_flatMap.2 ⟨node, hnode, ht⟩)

theorem directives_subset_phrases (p : Program) : p.directives.map copiedLine ⊆ phrases p :=
  fun _ h => List.mem_append_left _ (List.mem_append_left _ h)

theorem valuePhrases_subset_phrases (p : Program) : valuePhrases p ⊆ phrases p :=
  fun _ h => List.mem_append_left _ (List.mem_append_right _ h)

/-- Without statements, the directives of a snippet are all of its code. -/
theorem plain_directivesOnly {p : Program} (hp : p.statements = []) :
    Plain (phrases p) (directivesOnly p.directives) := by
  have hdirectives : p.directives.dropLast.map copiedLine ⊆ phrases p :=
    List.Subset.trans (List.map_subset _ (List.dropLast_subset _)) (directives_subset_phrases p)
  refine .append (plain_directives hdirectives) ?_
  cases hlast : p.directives.getLast? with
  | none => exact .nil
  | some last =>
    refine .phrase (valuePhrases_subset_phrases p ?_)
    rw [valuePhrases, hp, List.getLast?_nil, hlast]
    exact List.mem_cons_self

/-- The last statement has its sites where it stands, unless it is a function that comes first. -/
theorem woven_lastStatement {hoist : Bool} {p : Program} {s : Statement} {t : Template}
    (hs : p.statements.getLast? = some s) (h : lastStatement hoist s = .ok t) :
    Woven (phrases p) (listSites .topLevel ([s].filter fun s => !(hoist && isFunction s))) t := by
  have hknown : Known (phrases p) (listNodes [s]) :=
    (known_phrases p).of_subset (List.cons_subset.2 ⟨List.mem_of_getLast? hs, List.nil_subset _⟩)
  unfold lastStatement at h
  split at h
  · next start value =>
    obtain rfl := ok_eq_ok.1 h
    have hfilter : [Statement.expression start value].filter
        (fun s => !(hoist && isFunction s)) = [.expression start value] := by simp [isFunction]
    rw [hfilter]
    refine .plain (.phrase (valuePhrases_subset_phrases p ?_))
    rw [valuePhrases, hs]
    exact List.mem_cons_self
  · split at h
    · next hmoves =>
      obtain rfl := ok_eq_ok.1 h
      rw [List.filter_cons_of_neg (by simp only [hmoves]; decide)]
      exact .plain .nil
    · next hstays =>
      rw [List.filter_cons_of_pos (by rw [Bool.eq_false_iff.2 hstays]; rfl)]
      exact woven_statements _ hknown
        (statements_cons_ok.2 ⟨t, h, [], rfl, (List.append_nil t).symm⟩)

theorem woven_program {hoist : Bool} {p : Program} {t : Template} (h : program hoist p = .ok t) :
    Woven (phrases p) (programSites hoist p) t := by
  unfold program at h
  split at h
  · next hnone =>
    obtain rfl := ok_eq_ok.1 h
    have hp := List.getLast?_eq_none_iff.1 hnone
    rw [programSites, written_eq, hp]
    cases hoist <;> exact .plain (plain_directivesOnly hp)
  · next last hlast =>
    simp only [bind_eq_ok, pure_eq_ok] at h
    obtain ⟨functions, hfunctions, others, hothers, final, hfinal, rfl⟩ := h
    have hsplit : p.statements = p.statements.dropLast ++ [last] := by
      obtain ⟨others, hp⟩ := List.getLast?_eq_some_iff.1 hlast
      rw [hp, List.dropLast_concat]
    have hrest : p.statements.filter (fun s => !(hoist && isFunction s)) =
        p.statements.dropLast.filter (fun s => !(hoist && isFunction s)) ++
          [last].filter fun s => !(hoist && isFunction s) := by
      rw [← List.filter_append, ← hsplit]
    rw [programSites, written_eq, hrest, ← List.append_assoc, listSites_append, listSites_append]
    have hmoved :
        (if hoist then p.statements.filter isFunction else []) ⊆ p.statements := by
      split
      · exact List.filter_sublist.subset
      · exact List.nil_subset _
    have hothersSubset :
        (p.statements.dropLast.filter fun s => !(hoist && isFunction s)) ⊆ p.statements :=
      List.Subset.trans (List.filter_sublist.subset) (List.dropLast_subset _)
    refine .append (.append (.plain_append ?_ ?_) ?_) ?_
    · exact plain_directives (directives_subset_phrases p)
    · exact woven_statements _ ((known_phrases p).of_subset hmoved) hfunctions
    · exact woven_statements _ ((known_phrases p).of_subset hothersSubset) hothers
    · exact woven_lastStatement hlast hfinal

end Code

/-- **Registration agrees with redirection.**  The code of a snippet is that of its declarations,
each with exactly the call and the form that its kind and its place ask for, and with nothing
between its call, its labels and itself.  Between the declarations stand only phrases of the other
statements, such as their heads and expressions.  So the declarations register their names once
each and in order, and nothing else is registered. -/
theorem declarations_are_registered {options : Options} {source : String} {out : Output}
    (h : rebind options source = .ok out) :
    ∃ p t, parse source.toList = .ok p ∧ Code.program options.hoistFunctions p = .ok t ∧
      out.code = t.code options.filling source.toList ∧
      Code.Woven (Code.phrases p) (Code.programSites options.hoistFunctions p) t ∧
      t.registrations =
        (Code.programSites options.hoistFunctions p).flatMap Code.Site.entries := by
  obtain ⟨t, ht, hout⟩ := Code.bind_eq_ok.1 h
  obtain ⟨p, hp, ht⟩ := Code.bind_eq_ok.1 ht
  obtain rfl := Code.pure_eq_ok.1 hout
  have hwoven := Code.woven_program ht
  exact ⟨p, t, hp, ht, rfl, hwoven,
    hwoven.registrations fun _ => Code.registrations_of_mem_phrases⟩

/-- A labeled loop registers the names in its head before its label; in its body nothing is
redirected. -/
theorem labeled_loop_is_registered :
    let source := "a: for (var [x, y] of xs) \x7b let z; \x7d\nconst k = 2;"
    ∃ out, rebind {} source = .ok out ∧
      out.code = "__module__.global(\"x\", \"y\");\n" ++
        "a: for ([x, y] of xs) \x7b\n    let z;\n\x7d\n__module__.scope(\"k\");\nk = 2;\n" ∧
      ∃ p t, parse source.toList = .ok p ∧ Code.program true p = .ok t ∧
        out.code = t.code (Options.filling {}) source.toList ∧
        Code.Woven (Code.phrases p) (Code.programSites true p) t ∧
        t.registrations = (Code.programSites true p).flatMap Code.Site.entries := by
  intro source
  have h : rebind {} source = .ok ⟨"__module__.global(\"x\", \"y\");\n" ++
      "a: for ([x, y] of xs) \x7b\n    let z;\n\x7d\n__module__.scope(\"k\");\nk = 2;\n",
      ⟨["x", "y"], ["k"], ["k"]⟩⟩ := Code.eq_ok_of_toOption (by decide +kernel)
  exact ⟨_, h, by decide, declarations_are_registered h⟩

end Rebind
