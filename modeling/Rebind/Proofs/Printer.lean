import Rebind.Proofs.Emission
import Rebind.Proofs.Layout

/-!
# Printers that are told what to do

A template is laid out at once, and the depth of its parts is an argument where it is made.  A
printer that writes as it goes keeps the depth in a counter instead, which it raises and lowers by
hand, as it does with the level of indentation.  `Command` is what such a printer is told to do.

Commands in which every raise has its counterpart are `Balanced`: they give back the depth and the
level that they found, and on the way neither counter falls below its value at the start.  An
`Emission` ties such commands to the template that they write.
-/

namespace Rebind

open Rebind.Layout
open Rebind.Snippet

/-! ## Printers -/

/-- Enters names in a register, each of them once. -/
def Bindings.enter (b : Bindings) (register : Register) (names : List String) : Bindings :=
  let add (known : List String) : List String :=
    names.foldl (fun known name => if known.contains name then known else known ++ [name]) known
  match register with
  | .sink .global => { b with global := add b.global }
  | .sink .scope => { b with scope := add b.scope }
  | .constants => { b with constants := add b.constants }

/-- A printer: what it has written, the bindings it has made and how deep it is. -/
structure Printer where
  layout : Layout.State := {}
  bindings : Bindings := {}
  depth : Nat := 0

/-- What a printer is told to do. -/
inductive Command where
  | step (step : Step)
  /-- Goes one deeper, into a part that starts at an offset. -/
  | enter (start : Nat)
  | leave
  | refuse (error : RebindError)
  deriving DecidableEq

namespace Printer

section Obey

variable (filling : Filling) (source : List Char)

def step (p : Printer) (s : Step) : Printer where
  layout := (s.fill filling source).foldl (State.run filling.indentWidth) p.layout
  bindings := match s with
    | .enter register names => p.bindings.enter register names
    | _ => p.bindings
  depth := p.depth

def write (p : Printer) (t : Template) : Printer :=
  t.foldl (step filling source) p

def obey (p : Printer) : Command → Except RebindError Printer
  | .step s => pure (p.step filling source s)
  | .enter start => do
    Code.enter p.depth start
    return { p with depth := p.depth + 1 }
  | .leave => pure { p with depth := p.depth - 1 }
  | .refuse e => throw e

def run (p : Printer) (commands : List Command) : Except RebindError Printer :=
  commands.foldlM (obey filling source) p

/-- Something holds before each command that the printer comes to. -/
def Along (P : Printer → Command → Prop) : Printer → List Command → Prop
  | _, [] => True
  | p, c :: commands =>
    P p c ∧ ∀ q, p.obey filling source c = .ok q → Along P q commands

end Obey

variable {filling : Filling} {source : List Char} {p q : Printer}

/-! ## Running commands -/

theorem run_cons (c : Command) (commands : List Command) :
    p.run filling source (c :: commands) =
      p.obey filling source c >>= fun q => q.run filling source commands :=
  List.foldlM_cons

theorem run_step (s : Step) (commands : List Command) :
    p.run filling source (.step s :: commands) =
      (p.step filling source s).run filling source commands :=
  rfl

theorem run_leave (commands : List Command) :
    p.run filling source (.leave :: commands) =
      ({ p with depth := p.depth - 1 } : Printer).run filling source commands :=
  rfl

theorem run_enter (start : Nat) (commands : List Command) :
    p.run filling source (.enter start :: commands) = Code.enter p.depth start >>= fun _ =>
      ({ p with depth := p.depth + 1 } : Printer).run filling source commands := by
  rw [run_cons, obey, bind_assoc]
  rfl

theorem run_append (front back : List Command) :
    p.run filling source (front ++ back) =
      p.run filling source front >>= fun q => q.run filling source back :=
  List.foldlM_append

theorem Along.mono {P Q : Printer → Command → Prop} (h : ∀ p c, P p c → Q p c)
    {commands : List Command} (hP : p.Along filling source P commands) :
    p.Along filling source Q commands := by
  induction commands generalizing p with
  | nil => trivial
  | cons c commands ih => exact ⟨h p c hP.1, fun q hq => ih (hP.2 q hq)⟩

theorem Along.append {P : Printer → Command → Prop} {front back : List Command}
    (hfront : p.Along filling source P front)
    (hback : ∀ q, p.run filling source front = .ok q → q.Along filling source P back) :
    p.Along filling source P (front ++ back) := by
  induction front generalizing p with
  | nil => exact hback p rfl
  | cons c front ih =>
    refine ⟨hfront.1, fun r hr => ih (hfront.2 r hr) fun q hq => hback q ?_⟩
    rw [run_cons, hr]
    exact hq

/-! ## Writing templates -/

theorem write_append (t u : Template) :
    p.write filling source (t ++ u) = (p.write filling source t).write filling source u :=
  List.foldl_append

theorem write_depth (t : Template) : (p.write filling source t).depth = p.depth := by
  induction t generalizing p with
  | nil => rfl
  | cons s t ih => exact ih (p := p.step filling source s)

theorem write_layout (t : Template) :
    (p.write filling source t).layout = t.layOut filling source p.layout := by
  induction t generalizing p with
  | nil => rfl
  | cons s t ih =>
    have hstep :
        (p.step filling source s).layout = Template.layOut filling source p.layout [s] := by
      simp only [step, Template.layOut, List.flatMap_singleton]
    rw [← List.singleton_append, Template.layOut_append, ← hstep]
    exact ih

/-- The depth of a printer plays no part in what it writes. -/
theorem write_deeper (depth : Nat) (t : Template) :
    ({ p with depth := depth } : Printer).write filling source t =
      { p.write filling source t with depth := depth } := by
  induction t generalizing p with
  | nil => rfl
  | cons s t ih => exact ih (p := p.step filling source s)

end Printer

/-! ## Registrations -/

namespace Template

/-- What a template enters in registers, in order. -/
def registrations (t : Template) : List (Register × List String) :=
  t.filterMap fun
    | .enter register names => some (register, names)
    | _ => none

end Template

/-- Enters several lists of names one after the other. -/
def Bindings.enterAll (b : Bindings) (entries : List (Register × List String)) : Bindings :=
  entries.foldl (fun b entry => b.enter entry.1 entry.2) b

/-- The lists of names grow at their ends. -/
structure Bindings.Extends (b earlier : Bindings) : Prop where
  global : earlier.global <+: b.global
  scope : earlier.scope <+: b.scope
  constants : earlier.constants <+: b.constants

namespace Bindings

theorem prefix_foldl_known (names known : List String) :
    known <+: names.foldl
      (fun known name => if known.contains name then known else known ++ [name]) known := by
  induction names generalizing known with
  | nil => exact List.prefix_refl known
  | cons name names ih =>
    refine List.IsPrefix.trans ?_ (ih _)
    dsimp only
    split
    · exact List.prefix_refl known
    · exact List.prefix_append known [name]

theorem extends_enter (b : Bindings) (register : Register) (names : List String) :
    (b.enter register names).Extends b := by
  rcases register with (_ | _) | _
  · exact ⟨prefix_foldl_known _ _, List.prefix_refl _, List.prefix_refl _⟩
  · exact ⟨List.prefix_refl _, prefix_foldl_known _ _, List.prefix_refl _⟩
  · exact ⟨List.prefix_refl _, List.prefix_refl _, prefix_foldl_known _ _⟩

theorem Extends.trans {b c d : Bindings} (hcd : d.Extends c) (hbc : c.Extends b) : d.Extends b where
  global := hbc.global.trans hcd.global
  scope := hbc.scope.trans hcd.scope
  constants := hbc.constants.trans hcd.constants

theorem extends_enterAll (b : Bindings) (entries : List (Register × List String)) :
    (b.enterAll entries).Extends b := by
  induction entries generalizing b with
  | nil => exact ⟨List.prefix_refl _, List.prefix_refl _, List.prefix_refl _⟩
  | cons entry entries ih => exact (ih _).trans (extends_enter b entry.1 entry.2)

end Bindings

namespace Printer

variable {filling : Filling} {source : List Char} {p : Printer}

theorem write_bindings (t : Template) :
    (p.write filling source t).bindings = p.bindings.enterAll t.registrations := by
  induction t generalizing p with
  | nil => rfl
  | cons s t ih =>
    have hstep := ih (p := p.step filling source s)
    cases s with
    | enter register names => exact hstep
    | _ => exact hstep

end Printer

/-- What a register holds after several entries depends only on the names entered in it. -/
private theorem enterAll_registrations (t : Template) (b : Bindings) :
    b.enterAll t.registrations = {
      global := (t.flatMap fun
        | .enter r names => if r = .sink .global then names else []
        | _ => []).foldl
          (fun known name => if known.contains name then known else known ++ [name]) b.global
      scope := (t.flatMap fun
        | .enter r names => if r = .sink .scope then names else []
        | _ => []).foldl
          (fun known name => if known.contains name then known else known ++ [name]) b.scope
      constants := (t.flatMap fun
        | .enter r names => if r = .constants then names else []
        | _ => []).foldl
          (fun known name => if known.contains name then known else known ++ [name])
          b.constants } := by
  induction t generalizing b with
  | nil => rfl
  | cons s t ih =>
    cases s with
    | enter register names =>
      have hrest := ih (b.enter register names)
      simp only [List.flatMap_cons, List.foldl_append]
      refine Eq.trans hrest ?_
      rcases register with (_ | _) | _ <;> rfl
    | _ => exact ih b

/-- What a new printer writes is the code and the bindings of the template. -/
theorem Printer.write_new (filling : Filling) (source : List Char) (t : Template) :
    (({} : Printer).write filling source t).layout.text = t.code filling source ∧
      (({} : Printer).write filling source t).bindings = t.bindings := by
  rw [write_layout, write_bindings, enterAll_registrations]
  exact ⟨rfl, rfl⟩

/-! ## What is appended depends on the level and the line only -/

/-- Two texts under construction to which the same can be appended. -/
def Layout.State.Alike (s u : State) : Prop :=
  s.level = u.level ∧ s.atLineStart = u.atLineStart

theorem Layout.State.Alike.run {s u : State} (h : s.Alike u) (width : UInt64) (action : Action) :
    (s.run width action).Alike (u.run width action) ∧
      ∃ out, (s.run width action).text = s.text ++ out ∧
        (u.run width action).text = u.text ++ out := by
  obtain ⟨hlevel, hline⟩ := h
  cases action with
  | write text =>
    simp only [State.run, hline, hlevel]
    split
    · exact ⟨⟨hlevel, hline⟩, "", by simp, by simp⟩
    · split
      · exact ⟨⟨rfl, rfl⟩, _, String.append_assoc, String.append_assoc⟩
      · exact ⟨⟨rfl, rfl⟩, text, rfl, rfl⟩
  | newline => exact ⟨⟨hlevel, rfl⟩, "\n", rfl, rfl⟩
  | freshLine =>
    simp only [State.run, hline]
    split
    · exact ⟨⟨hlevel, hline⟩, "", by simp, by simp⟩
    · exact ⟨⟨hlevel, rfl⟩, "\n", rfl, rfl⟩
  | indent => exact ⟨⟨congrArg (· + 1) hlevel, hline⟩, "", by simp [State.run], by simp [State.run]⟩
  | dedent => exact ⟨⟨congrArg (· - 1) hlevel, hline⟩, "", by simp [State.run], by simp [State.run]⟩

theorem Template.layOut_alike {s u : State} (h : s.Alike u) (filling : Filling)
    (source : List Char) (t : Template) :
    (t.layOut filling source s).Alike (t.layOut filling source u) ∧
      ∃ out, (t.layOut filling source s).text = s.text ++ out ∧
        (t.layOut filling source u).text = u.text ++ out := by
  unfold layOut
  generalize t.flatMap (Step.fill filling source) = actions
  induction actions generalizing s u with
  | nil => exact ⟨h, "", by simp, by simp⟩
  | cons action actions ih =>
    obtain ⟨hrun, first, hs, hu⟩ := h.run filling.indentWidth action
    obtain ⟨hrest, rest, hs', hu'⟩ := ih hrun
    refine ⟨hrest, first ++ rest, ?_, ?_⟩
    · rw [List.foldl_cons, hs', hs, String.append_assoc]
    · rw [List.foldl_cons, hu', hu, String.append_assoc]

/-! ## Blocks of commands -/

namespace Command

/-- Writes a template. -/
def written (t : Template) : List Command :=
  t.map .step

/-- Carries out commands one deeper. -/
def within (start : Nat) (inner : List Command) : List Command :=
  .enter start :: (inner ++ [.leave])

/-- Carries out commands one level to the right. -/
def indented (inner : List Command) : List Command :=
  .step .indent :: (inner ++ [.step .dedent])

/-- Carries out commands between braces on lines of their own. -/
def braced (inner : List Command) : List Command :=
  written [.write (.text "\x7b"), .newline] ++
    (indented (inner ++ written [.freshLine]) ++ written [.write (.text "\x7d")])

end Command

open Command Code

/-! ## Templates that stay on their level -/

namespace Template

/-- No step changes the level of indentation. -/
def Flat (t : Template) : Prop :=
  ∀ s ∈ t, s ≠ .indent ∧ s ≠ .dedent

@[simp] theorem flat_nil : Flat [] := by simp [Flat]

@[simp] theorem flat_newline : Flat [Step.newline] := by simp [Flat]

@[simp] theorem flat_append {t u : Template} : Flat (t ++ u) ↔ Flat t ∧ Flat u :=
  List.forall_mem_append

@[simp] theorem flat_write (fragment : Fragment) : Flat (write fragment) := by
  simp [Flat, write]

@[simp] theorem flat_fixed (text : String) : Flat (fixed text) := by
  simp [Flat, fixed]

@[simp] theorem flat_endStatement : Flat endStatement := by
  simp [Flat, endStatement]

@[simp] theorem flat_registration (sink : Sink) (names : List String) :
    Flat (registration sink names) := by
  unfold registration
  split
  · exact flat_nil
  · simp [Flat, endStatement]

theorem flat_directives (directives : List Text.Span) : Flat (directives.flatMap directive) := by
  intro s hs
  obtain ⟨span, -, hs⟩ := List.mem_flatMap.1 hs
  simp only [directive_eq, endStatement, List.mem_cons, List.not_mem_nil, or_false] at hs
  rcases hs with rfl | rfl | rfl <;> simp

/-! The heads of statements -/

@[simp] theorem flat_labelsBefore (labels : List String) : Flat (labelsBefore labels) :=
  flat_write _

@[simp] theorem flat_jumpLine (kind : Jump) (label : Option String) :
    Flat (jumpLine kind label) :=
  flat_append.2 ⟨flat_fixed _, flat_endStatement⟩

@[simp] theorem flat_returnLine (value : Option Expression) : Flat (returnLine value) :=
  flat_append.2 ⟨flat_write _, flat_endStatement⟩

@[simp] theorem flat_throwLine (value : Expression) : Flat (throwLine value) :=
  flat_append.2 ⟨flat_write _, flat_endStatement⟩

@[simp] theorem flat_expressionLine (value : Expression) : Flat (expressionLine value) :=
  flat_append.2 ⟨flat_write _, flat_endStatement⟩

@[simp] theorem flat_registrationUnless (role : Role) (mode : ScopeMode) (s : Statement) :
    Flat (registrationUnless role mode s) := by
  unfold registrationUnless
  split
  · exact flat_nil
  · exact flat_registration _ _

@[simp] theorem flat_headed (word : String) (value : Expression) : Flat (headed word value) :=
  flat_write _

@[simp] theorem flat_doTail (test : Expression) : Flat (doTail test) :=
  flat_append.2 ⟨flat_write _, flat_endStatement⟩

@[simp] theorem flat_forHead (mode : ScopeMode) (init : Option LoopStart)
    (test update : Option Expression) : Flat (forHead mode init test update) :=
  flat_append.2 ⟨flat_write _, flat_write _⟩

@[simp] theorem flat_forInHead (mode : ScopeMode) (target : LoopTarget) (object : Expression) :
    Flat (forInHead mode target object) :=
  flat_append.2 ⟨flat_write _, flat_write _⟩

@[simp] theorem flat_forOfHead (mode : ScopeMode) (isAwait : Bool) (target : LoopTarget)
    (values : Expression) : Flat (forOfHead mode isAwait target values) :=
  flat_append.2 ⟨flat_write _, flat_write _⟩

@[simp] theorem flat_caseLabel (test : Option Expression) : Flat (caseLabel test) := by
  cases test with
  | none => exact flat_fixed _
  | some test => exact flat_write _

@[simp] theorem flat_catchHead (parameter : Option Pattern) : Flat (catchHead parameter) :=
  flat_write _

@[simp] theorem flat_functionTarget (name : String) : Flat (functionTarget name) := by
  simp [Flat, functionTarget]

@[simp] theorem flat_classTarget (name : String) : Flat (classTarget name) :=
  flat_append.2 ⟨flat_registration _ _, flat_fixed _⟩

@[simp] theorem flat_functionHead (callable : Callable) (isNamed : Bool) :
    Flat (functionHead callable isNamed) :=
  flat_write _

@[simp] theorem flat_methodHead (values : List Expression) (isStatic : Bool) (kind : MethodKind)
    (name : Key) (callable : Callable) : Flat (methodHead values isStatic kind name callable) :=
  flat_write _

@[simp] theorem flat_classHead (definition : ClassDefinition) : Flat (classHead definition) :=
  flat_write _

@[simp] theorem flat_field (values : List Expression) (isStatic isAccessor : Bool) (name : Key)
    (value : Option Expression) : Flat (field values isStatic isAccessor name value) :=
  flat_append.2 ⟨flat_write _, flat_endStatement⟩

theorem flat_variableStatement (mode : ScopeMode) (d : Declaration) :
    Flat (variableStatement mode d) := by
  unfold variableStatement
  split
  · simp only [flat_append, flat_registration, flat_write, flat_endStatement, and_true, true_and]
    split <;> simp [Flat]
  · split <;> simp

end Template

open Template (Flat)

/-! ## Well bracketed commands -/

/-- Every command that goes deeper or indents has its counterpart. -/
inductive Balanced : List Command → Prop
  | nil : Balanced []
  | step {s : Step} {commands : List Command} (hindent : s ≠ .indent) (hdedent : s ≠ .dedent) :
      Balanced commands → Balanced (.step s :: commands)
  | refuse (e : RebindError) {commands : List Command} :
      Balanced commands → Balanced (.refuse e :: commands)
  | indented {inner commands : List Command} : Balanced inner → Balanced commands →
      Balanced (.step .indent :: (inner ++ .step .dedent :: commands))
  | within (start : Nat) {inner commands : List Command} : Balanced inner → Balanced commands →
      Balanced (.enter start :: (inner ++ .leave :: commands))

namespace Balanced

variable {commands : List Command} {filling : Filling} {source : List Char} {p q : Printer}

theorem append {front back : List Command} (hfront : Balanced front) (hback : Balanced back) :
    Balanced (front ++ back) := by
  induction hfront with
  | nil => exact hback
  | step hindent hdedent _ ih => exact .step hindent hdedent ih
  | refuse e _ ih => exact .refuse e ih
  | indented hinner _ _ ih =>
    rw [List.cons_append, List.append_assoc, List.cons_append]
    exact .indented hinner ih
  | within start hinner _ _ ih =>
    rw [List.cons_append, List.append_assoc, List.cons_append]
    exact .within start hinner ih

theorem written {t : Template} (ht : Flat t) : Balanced (written t) := by
  induction t with
  | nil => exact .nil
  | cons s t ih =>
    obtain ⟨⟨hindent, hdedent⟩, ht⟩ := List.forall_mem_cons.1 ht
    exact .step hindent hdedent (ih ht)

theorem step_level {s : Step} (hindent : s ≠ .indent) (hdedent : s ≠ .dedent) :
    (p.step filling source s).layout.level = p.layout.level := by
  cases s with
  | indent => exact absurd rfl hindent
  | dedent => exact absurd rfl hdedent
  | write piece =>
    simp only [Printer.step, Step.fill, List.foldl_cons, List.foldl_nil, State.run]
    split
    · rfl
    · split <;> rfl
  | freshLine =>
    simp only [Printer.step, Step.fill, List.foldl_cons, List.foldl_nil, State.run]
    split <;> rfl
  | newline => rfl
  | enter register names => rfl

/-- Balanced commands give back the depth and the level that they found. -/
theorem restores (h : Balanced commands) (hrun : p.run filling source commands = .ok q) :
    q.depth = p.depth ∧ q.layout.level = p.layout.level := by
  induction h generalizing p q with
  | nil =>
    cases hrun
    exact ⟨rfl, rfl⟩
  | step hindent hdedent _ ih =>
    obtain ⟨hdepth, hlevel⟩ := ih hrun
    exact ⟨hdepth, hlevel.trans (step_level hindent hdedent)⟩
  | refuse => cases hrun
  | indented _ _ ihinner ih =>
    rw [Printer.run_step, Printer.run_append] at hrun
    obtain ⟨r, hr, hrest⟩ := bind_eq_ok.1 hrun
    obtain ⟨hdepth, hlevel⟩ := ihinner hr
    obtain ⟨hdepth', hlevel'⟩ := ih hrest
    refine ⟨hdepth'.trans hdepth, hlevel'.trans ?_⟩
    show r.layout.level - 1 = p.layout.level
    rw [hlevel]
    rfl
  | within start _ _ ihinner ih =>
    rw [Printer.run_enter, Printer.run_append] at hrun
    obtain ⟨-, -, hrun⟩ := bind_eq_ok.1 hrun
    obtain ⟨r, hr, hrest⟩ := bind_eq_ok.1 hrun
    obtain ⟨hdepth, hlevel⟩ := ihinner hr
    obtain ⟨hdepth', hlevel'⟩ := ih hrest
    refine ⟨hdepth'.trans ?_, hlevel'.trans hlevel⟩
    show r.depth - 1 = p.depth
    rw [hdepth]
    rfl

end Balanced

/-- What the printer's counters keep to between entering and leaving something: they do not fall
below their values at its start, so nothing is taken from a counter at zero, and the depth is at
most the limit once anything is entered. -/
structure Printer.Kept (p q : Printer) (c : Command) : Prop where
  depth_le : q.depth ≤ max p.depth depthLimit
  level_le : p.layout.level ≤ q.layout.level
  dedent : c = .step .dedent → p.layout.level < q.layout.level
  leave : c = .leave → p.depth < q.depth

namespace Printer.Kept

variable {p q r : Printer} {c : Command}

theorem refl (hdedent : c ≠ .step .dedent) (hleave : c ≠ .leave) : p.Kept p c :=
  ⟨Nat.le_max_left .., Nat.le_refl _, fun h => absurd h hdedent, fun h => absurd h hleave⟩

theorem of_eq (h : q.Kept r c) (hdepth : q.depth = p.depth)
    (hlevel : q.layout.level = p.layout.level) : p.Kept r c :=
  ⟨hdepth ▸ h.depth_le, hlevel ▸ h.level_le, fun hc => hlevel ▸ h.dedent hc,
    fun hc => hdepth ▸ h.leave hc⟩

theorem of_indented (h : q.Kept r c) (hdepth : q.depth = p.depth)
    (hlevel : q.layout.level = p.layout.level + 1) : p.Kept r c where
  depth_le := hdepth ▸ h.depth_le
  level_le := by have := h.level_le; omega
  dedent hc := by have := h.dedent hc; omega
  leave hc := hdepth ▸ h.leave hc

theorem of_entered (h : q.Kept r c) (hlimit : p.depth < depthLimit)
    (hdepth : q.depth = p.depth + 1) (hlevel : q.layout.level = p.layout.level) :
    p.Kept r c where
  depth_le := by have := h.depth_le; omega
  level_le := hlevel ▸ h.level_le
  dedent hc := hlevel ▸ h.dedent hc
  leave hc := by have := h.leave hc; omega

end Printer.Kept

namespace Balanced

variable {commands : List Command} {filling : Filling} {source : List Char} {p q : Printer}

/-- At every command between, the counters are kept. -/
theorem along (h : Balanced commands) : p.Along filling source p.Kept commands := by
  induction h generalizing p with
  | nil => trivial
  | step hindent hdedent _ ih =>
    refine ⟨.refl (by simpa using hdedent) (by simp), fun q hq => ?_⟩
    cases hq
    exact ih.mono fun r c hr => hr.of_eq rfl (step_level hindent hdedent)
  | refuse e _ ih =>
    refine ⟨.refl (by simp) (by simp), fun q hq => ?_⟩
    cases hq
  | indented hinner _ ihinner ih =>
    refine ⟨.refl (by simp) (by simp), fun q hq => ?_⟩
    cases hq
    refine Printer.Along.append (ihinner.mono fun r c hr => hr.of_indented rfl rfl) fun r hr => ?_
    obtain ⟨hdepth, hlevel⟩ := hinner.restores hr
    have hlevel : r.layout.level = p.layout.level + 1 := hlevel
    have hback : (r.step filling source .dedent).layout.level = p.layout.level := by
      show r.layout.level - 1 = p.layout.level
      omega
    have hkept : p.Kept r (.step .dedent) :=
      ⟨hdepth ▸ Nat.le_max_left .., by omega, fun _ => by omega, nofun⟩
    refine ⟨hkept, fun q hq => ?_⟩
    cases hq
    exact ih.mono fun r' c hr' => hr'.of_eq hdepth hback
  | within start hinner _ ihinner ih =>
    refine ⟨.refl (by simp) (by simp), fun q hq => ?_⟩
    obtain ⟨_, henter, hq⟩ := bind_eq_ok.1 (show Code.enter p.depth start >>= _ = _ from hq)
    have hlimit : p.depth < depthLimit := enter_eq_ok.1 henter
    cases hq
    refine Printer.Along.append (ihinner.mono fun r c hr => hr.of_entered hlimit rfl rfl)
      fun r hr => ?_
    obtain ⟨hdepth, hlevel⟩ := hinner.restores hr
    have hdepth : r.depth = p.depth + 1 := hdepth
    have hkept : p.Kept r .leave := ⟨by omega, hlevel ▸ Nat.le_refl _, nofun, fun _ => by omega⟩
    refine ⟨hkept, fun q hq => ?_⟩
    cases hq
    exact ih.mono fun r' c hr' => hr'.of_eq (by show r.depth - 1 = p.depth; omega) hlevel

end Balanced

/-! ## Commands and templates -/

/-- The commands are well bracketed, and a printer that obeys them writes the template that there is
at its depth, or refuses with the same error. -/
structure Emission (commands : List Command) (template : Nat → Result) : Prop where
  balanced : Balanced commands
  run_eq : ∀ (filling : Filling) (source : List Char) (p : Printer),
    p.run filling source commands =
      template p.depth >>= fun t => pure (p.write filling source t)

namespace Emission

variable {commands front back : List Command} {x y : Nat → Result} {start : Nat}

theorem of_eq (h : Emission commands x) (hxy : ∀ depth, x depth = y depth) :
    Emission commands y :=
  (funext hxy : x = y) ▸ h

theorem written {t : Template} (ht : Flat t) : Emission (written t) fun _ => pure t where
  balanced := .written ht
  run_eq filling source p := by
    rw [pure_bind]
    clear ht
    induction t generalizing p with
    | nil => rfl
    | cons s t ih => exact ih (p.step filling source s)

theorem append (hfront : Emission front x) (hback : Emission back y) :
    Emission (front ++ back)
      fun depth => x depth >>= fun t => y depth >>= fun u => pure (t ++ u) where
  balanced := hfront.balanced.append hback.balanced
  run_eq filling source p := by
    simp only [Printer.run_append, hfront.run_eq, hback.run_eq, bind_assoc, pure_bind,
      Printer.write_depth, Printer.write_append]

theorem within (h : Emission commands x) :
    Emission (within start commands)
      fun depth => Code.enter depth start >>= fun _ => x (depth + 1) where
  balanced := .within start h.balanced .nil
  run_eq filling source p := by
    have hback (t : Template) : ({ p.write filling source t with depth := p.depth + 1 - 1 } :
        Printer) = p.write filling source t := by
      rw [Nat.add_sub_cancel, ← Printer.write_depth t]
    simp only [Command.within, Printer.run_enter, Printer.run_append, h.run_eq, bind_assoc,
      pure_bind, Printer.run_leave, Printer.write_deeper, hback]
    rfl

theorem indented (h : Emission commands x) :
    Emission (indented commands)
      fun depth => x depth >>= fun t => pure ([Step.indent] ++ t ++ [Step.dedent]) where
  balanced := .indented h.balanced .nil
  run_eq filling source p := by
    simp only [Command.indented, Printer.run_step, Printer.run_append, h.run_eq, bind_assoc,
      pure_bind, Printer.write_append]
    rfl

theorem refuse (e : RebindError) : Emission [.refuse e] fun _ => throw e :=
  ⟨.refuse e .nil, fun _ _ _ => rfl⟩

theorem braced (h : Emission commands x) :
    Emission (braced commands) fun depth => x depth >>= fun t => pure (Template.braced t) :=
  ((written (t := [.write (.text "\x7b"), .newline]) (by simp [Flat])).append
    ((h.append (written (t := [.freshLine]) (by simp [Flat]))).indented.append
      (written (t := [.write (.text "\x7d")]) (by simp [Flat])))).of_eq fun depth => by
    simp [Template.braced]

end Emission

end Rebind
