import Rebind.Proofs.Bookkeeping
import Rebind.Proofs.Hoisting

/-!
# How far lines are indented

The blanks before a line are counted by a word of 64 bits, the product of its level and the width
of one level.  The width is any word, so no bound on the levels keeps the product a word for all
widths: at level two a width of `2 ^ 63` is too much already.

But a printer gets to a level only past a line that it has written one level lower (`Opened`).  If
the product at a level is no word, the blanks of that line alone are `2 ^ 63` or more, and a text
as long as this cannot be held.  So the printer has stopped before it
(`indentation_never_overflows`).
-/

namespace Rebind

open Rebind.Layout
open Rebind.Snippet

/-! ## Texts that can be held -/

/-- The number of bytes that no text has, half the number of words: what would write so many of
them ends before. -/
def byteLimit : Nat :=
  UInt64.size / 2

namespace Layout.State

/-- The text can be held. -/
def Fits (state : State) : Prop :=
  state.text.utf8ByteSize < byteLimit

/-- The product for a line at the level of the state is a word, and there are as many blanks. -/
def IsExact (width : UInt64) (state : State) : Prop :=
  state.level * width.toNat < UInt64.size ∧
    indentation width state.level = "".pushn ' ' (state.level * width.toNat)

/-- The text has the blanks of a line one level lower, and those of its own line once this has a
text. -/
structure Grounded (width : UInt64) (state : State) : Prop where
  below : (state.level - 1) * width.toNat ≤ state.text.utf8ByteSize
  here : state.atLineStart = false → state.level * width.toNat ≤ state.text.utf8ByteSize

/-- If its text can be held, the state is grounded. -/
def Sound (width : UInt64) (state : State) : Prop :=
  state.Fits → state.Grounded width

section Sound

variable {width : UInt64} {state : State}

theorem sound_new (width : UInt64) : ({} : State).Sound width :=
  fun _ => ⟨by simp, nofun⟩

theorem Fits.of_run {action : Action} (h : (state.run width action).Fits) : state.Fits := by
  obtain ⟨out, hout⟩ := State.run_text width state action
  rw [Fits, hout, String.utf8ByteSize_append] at h
  exact Nat.lt_of_le_of_lt (Nat.le_add_right _ _) h

/-- The product at a level past the first one is at most twice that at the level below. -/
theorem Grounded.level_mul_lt (h : state.Grounded width) (hfits : state.Fits) :
    state.level * width.toNat < UInt64.size := by
  have hbelow := Nat.lt_of_le_of_lt h.below hfits
  have hwidth : width.toNat < UInt64.size := width.toNat_lt_size
  have htwo : UInt64.size = 2 * byteLimit := rfl
  match hlevel : state.level with
  | 0 => simp
  | 1 => simpa using hwidth
  | n + 2 =>
    have hbelow : (n + 1) * width.toNat < byteLimit := by simpa [hlevel] using hbelow
    have htwice : (n + 2) * width.toNat ≤ 2 * ((n + 1) * width.toNat) := by
      rw [← Nat.mul_assoc]
      exact Nat.mul_le_mul_right _ (by omega)
    omega

theorem Grounded.write (h : state.Grounded width) (hfits : state.Fits) (text : String) :
    (state.run width (.write text)).Grounded width := by
  obtain ⟨hbelow, hhere⟩ := h
  by_cases htext : text.isEmpty = true
  · simpa [State.run, htext] using ⟨hbelow, hhere⟩
  · cases hline : state.atLineStart with
    | false =>
      have hhere := hhere hline
      constructor <;> simp [State.run, htext, hline] <;> omega
    | true =>
      have hblanks : (indentation width state.level).utf8ByteSize =
          state.level * width.toNat := by
        rw [indentation_eq (Grounded.level_mul_lt ⟨hbelow, hhere⟩ hfits),
          Text.utf8ByteSize_pushn_blank]
      constructor <;> simp [State.run, htext, hline, hblanks] <;> omega

/-- Every action but an indent keeps a state sound. -/
theorem Sound.run (h : state.Sound width) (action : Action) (hindent : action ≠ .indent) :
    (state.run width action).Sound width := by
  intro hfits
  have hbefore : state.Fits := hfits.of_run
  obtain ⟨hbelow, hhere⟩ := h hbefore
  cases action with
  | write text => exact Grounded.write ⟨hbelow, hhere⟩ hbefore text
  | newline => exact ⟨by simp [State.run]; omega, nofun⟩
  | freshLine =>
    cases hline : state.atLineStart with
    | true => simpa [State.run, hline] using ⟨hbelow, hhere⟩
    | false => exact ⟨by simp [State.run, hline]; omega, by simp [State.run, hline]⟩
  | indent => exact absurd rfl hindent
  | dedent =>
    have hlower (n : Nat) : (n - 1) * width.toNat ≤ n * width.toNat :=
      Nat.mul_le_mul_right _ (Nat.sub_le n 1)
    exact ⟨Nat.le_trans (hlower _) hbelow, fun hline => Nat.le_trans (hlower _) (hhere hline)⟩

/-- An indent past a line with text keeps a state sound. -/
theorem Sound.line (h : state.Sound width) {text : String} (htext : text ≠ "") :
    (((state.run width (.write text)).run width .newline).run width .indent).Sound width := by
  intro hfits
  have hwrite : Action.write text ≠ .indent := by simp
  have hwritten := h.run (.write text) hwrite hfits.of_run.of_run
  have hbegun : (state.run width (.write text)).atLineStart = false := by
    cases hline : state.atLineStart <;> simp [State.run, htext, hline]
  have hhere := hwritten.here hbegun
  refine ⟨?_, fun hline => by cases hline⟩
  show ((state.run width (.write text)).level + 1 - 1) * width.toNat ≤
    ((state.run width (.write text)).text ++ "\n").utf8ByteSize
  rw [Nat.add_sub_cancel, String.utf8ByteSize_append]
  exact Nat.le_trans hhere (Nat.le_add_right _ _)

end Sound

end Layout.State

/-! ## Levels past written lines -/

open Command Code
open Template (Flat)

/-- Balanced commands in which every indent comes right past a line with text.  At most `room`
levels are opened between two commands that enter something, and two inside of what is entered. -/
inductive Opened : Nat → List Command → Prop
  | nil {room : Nat} : Opened room []
  | step {room : Nat} {s : Step} {commands : List Command} (hindent : s ≠ .indent)
      (hdedent : s ≠ .dedent) : Opened room commands → Opened room (.step s :: commands)
  | refuse {room : Nat} (e : RebindError) {commands : List Command} :
      Opened room commands → Opened room (.refuse e :: commands)
  | line {room : Nat} {text : String} {inner commands : List Command} (htext : text ≠ "") :
      Opened room inner → Opened (room + 1) commands →
      Opened (room + 1) (.step (.write (.text text)) :: .step .newline :: .step .indent ::
        (inner ++ .step .dedent :: commands))
  | within {room : Nat} (start : Nat) {inner commands : List Command} :
      Opened 2 inner → Opened room commands →
      Opened room (.enter start :: (inner ++ .leave :: commands))

namespace Opened

variable {room : Nat} {commands front back inner : List Command}

theorem mono {more : Nat} (h : Opened room commands) (hmore : room ≤ more) :
    Opened more commands := by
  induction h generalizing more with
  | nil => exact .nil
  | step hindent hdedent _ ih => exact .step hindent hdedent (ih hmore)
  | refuse e _ ih => exact .refuse e (ih hmore)
  | line htext _ _ ihinner ih =>
    obtain ⟨n, rfl⟩ := Nat.exists_eq_add_one.2 (Nat.lt_of_lt_of_le (Nat.succ_pos _) hmore)
    exact .line htext (ihinner (Nat.le_of_succ_le_succ hmore)) (ih hmore)
  | within start hinner _ _ ih => exact .within start hinner (ih hmore)

theorem append (hfront : Opened room front) (hback : Opened room back) :
    Opened room (front ++ back) := by
  induction hfront with
  | nil => exact hback
  | step hindent hdedent _ ih => exact .step hindent hdedent (ih hback)
  | refuse e _ ih => exact .refuse e (ih hback)
  | line htext hinner _ _ ih =>
    simp only [List.cons_append, List.append_assoc]
    exact .line htext hinner (ih hback)
  | within start hinner _ _ ih =>
    rw [List.cons_append, List.append_assoc, List.cons_append]
    exact .within start hinner (ih hback)

theorem written {t : Template} (ht : Flat t) : Opened room (written t) := by
  induction t with
  | nil => exact .nil
  | cons s t ih =>
    obtain ⟨⟨hindent, hdedent⟩, ht⟩ := List.forall_mem_cons.1 ht
    exact .step hindent hdedent (ih ht)

theorem entered (start : Nat) (h : Opened 2 inner) : Opened room (Command.within start inner) :=
  .within start h .nil

/-- What is indented past a mark at the end of its line. -/
theorem indented {text : String} (htext : text ≠ "") (h : Opened room inner) :
    Opened (room + 1) (Command.written [.write (.text text), .newline] ++
      Command.indented inner) :=
  .line htext h .nil

theorem braced (h : Opened room inner) : Opened (room + 1) (braced inner) := by
  have hend : Opened room (Command.written [Step.freshLine]) := .written (by simp [Flat])
  have hclose : Opened (room + 1) (Command.written [Step.write (.text "\x7d")]) :=
    .written (by simp [Flat])
  rw [Command.braced, ← List.append_assoc]
  exact (indented (by decide) (h.append hend)).append hclose

theorem balanced (h : Opened room commands) : Balanced commands := by
  induction h with
  | nil => exact .nil
  | step hindent hdedent _ ih => exact .step hindent hdedent ih
  | refuse e _ ih => exact .refuse e ih
  | line htext _ _ ihinner ih =>
    exact .step (by simp) (by simp) (.step (by simp) (by simp) (.indented ihinner ih))
  | within start _ _ ihinner ih => exact .within start ihinner ih

end Opened

/-! ## What a printer keeps -/

namespace Printer

variable {filling : Filling} {source : List Char} {p q : Printer}

theorem Along.and {P Q : Printer → Command → Prop} {commands : List Command}
    (hP : p.Along filling source P commands) (hQ : p.Along filling source Q commands) :
    p.Along filling source (fun p c => P p c ∧ Q p c) commands := by
  induction commands generalizing p with
  | nil => trivial
  | cons c commands ih => exact ⟨⟨hP.1, hQ.1⟩, fun q hq => ih (hP.2 q hq) (hQ.2 q hq)⟩

/-- What a printer has written at a command is still there in the end. -/
theorem along_of_run {commands : List Command} {r : Printer}
    (hrun : p.run filling source commands = .ok r) :
    p.Along filling source (fun q _ => ∃ out, r.layout.text = q.layout.text ++ out) commands ∧
      ∃ out, r.layout.text = p.layout.text ++ out := by
  induction commands generalizing p with
  | nil =>
    cases hrun
    exact ⟨trivial, "", by simp⟩
  | cons c commands ih =>
    rw [run_cons] at hrun
    obtain ⟨q, hq, hrun⟩ := bind_eq_ok.1 hrun
    have hstep : ∃ out, q.layout.text = p.layout.text ++ out := by
      cases c with
      | step s =>
        cases hq
        exact State.foldl_run_text filling.indentWidth p.layout _
      | enter start =>
        obtain ⟨_, -, hq⟩ := bind_eq_ok.1 (show Code.enter p.depth start >>= _ = _ from hq)
        cases hq
        exact ⟨"", by simp⟩
      | leave =>
        cases hq
        exact ⟨"", by simp⟩
      | refuse e => cases hq
    obtain ⟨first, hfirst⟩ := hstep
    obtain ⟨hrest, rest, hend⟩ := ih hrun
    have hwhole : r.layout.text = p.layout.text ++ (first ++ rest) := by
      rw [hend, hfirst, String.append_assoc]
    refine ⟨⟨⟨_, hwhole⟩, fun q' hq' => ?_⟩, _, hwhole⟩
    cases hq.symm.trans hq'
    exact hrest

/-- Something holds of a printer wherever commands bring it, at their end too. -/
def Throughout (filling : Filling) (source : List Char) (P : Printer → Prop) (p : Printer)
    (commands : List Command) : Prop :=
  p.Along filling source (fun q _ => P q) commands ∧
    ∀ q, p.run filling source commands = .ok q → P q

namespace Throughout

variable {P Q : Printer → Prop} {c : Command} {s : Step} {front back commands : List Command}

theorem nil (hp : P p) : p.Throughout filling source P [] := by
  refine ⟨trivial, fun q hq => ?_⟩
  cases hq
  exact hp

theorem cons (hp : P p)
    (h : ∀ q, p.obey filling source c = .ok q → q.Throughout filling source P commands) :
    p.Throughout filling source P (c :: commands) := by
  refine ⟨⟨hp, fun q hq => (h q hq).1⟩, fun r hr => ?_⟩
  rw [run_cons] at hr
  obtain ⟨q, hq, hr⟩ := bind_eq_ok.1 hr
  exact (h q hq).2 r hr

theorem step (hp : P p)
    (h : (p.step filling source s).Throughout filling source P commands) :
    p.Throughout filling source P (.step s :: commands) := by
  refine cons hp fun q hq => ?_
  cases hq
  exact h

theorem append (hfront : p.Throughout filling source P front)
    (hback : ∀ q, P q → p.run filling source front = .ok q →
      q.Throughout filling source P back) :
    p.Throughout filling source P (front ++ back) := by
  refine ⟨hfront.1.append fun q hq => (hback q (hfront.2 q hq) hq).1, fun r hr => ?_⟩
  rw [run_append] at hr
  obtain ⟨q, hq, hr⟩ := bind_eq_ok.1 hr
  exact (hback q (hfront.2 q hq) hq).2 r hr

theorem mono (h : ∀ q, P q → Q q) (hP : p.Throughout filling source P commands) :
    p.Throughout filling source Q commands :=
  ⟨hP.1.mono fun q _ => h q, fun q hq => h q (hP.2 q hq)⟩

theorem within {start : Nat} (hp : P p)
    (hinner : ({ p with depth := p.depth + 1 } : Printer).Throughout filling source P front)
    (hback : ∀ q, P q →
      ({ p with depth := p.depth + 1 } : Printer).run filling source front = .ok q →
      ({ q with depth := q.depth - 1 } : Printer).Throughout filling source P back) :
    p.Throughout filling source P (.enter start :: (front ++ .leave :: back)) := by
  refine cons hp fun q hq => ?_
  obtain ⟨_, -, hq⟩ := bind_eq_ok.1 (show Code.enter p.depth start >>= _ = _ from hq)
  cases hq
  refine hinner.append fun q hPq hq => cons hPq fun r hr => ?_
  cases hr
  exact hback q hPq hq

end Throughout

end Printer

namespace Opened

variable {room : Nat} {commands : List Command} {filling : Filling} {source : List Char}
  {p : Printer}

/-- The level rises by two at most for each part that is entered. -/
theorem level_le (h : Opened room commands) :
    p.Throughout filling source (fun q =>
      q.layout.level + 2 * p.depth ≤ p.layout.level + room + 2 * q.depth) commands := by
  have hstep {p : Printer} {s : Step} (hindent : s ≠ .indent) (hdedent : s ≠ .dedent) :
      (p.step filling source s).layout.level = p.layout.level :=
    Balanced.step_level hindent hdedent
  induction h generalizing p with
  | nil => exact .nil (by omega)
  | step hindent hdedent _ ih =>
    refine .step (by omega) (ih.mono fun r hr => ?_)
    rwa [hstep hindent hdedent] at hr
  | refuse e _ ih => exact .cons (by omega) nofun
  | @line room text inner commands htext hinner _ ihinner ih =>
    have hwrite := hstep (p := p) (s := .write (.text text)) nofun nofun
    have hline : (((p.step filling source (.write (.text text))).step filling source .newline).step
        filling source .indent).layout.level = p.layout.level + 1 :=
      congrArg (· + 1) hwrite
    have hstays (r : Printer) (hdepth : r.depth = p.depth)
        (hlevel : r.layout.level = p.layout.level) :
        r.layout.level + 2 * p.depth ≤ p.layout.level + (room + 1) + 2 * r.depth := by
      omega
    refine .step (hstays p rfl rfl) (.step (hstays _ rfl hwrite) (.step (hstays _ rfl hwrite)
      (.append (ihinner.mono fun r hr => ?_)
        fun r hr hrun => .step hr (ih.mono fun r' hr' => ?_))))
    · rw [hline] at hr
      have hr : r.layout.level + 2 * p.depth ≤ p.layout.level + 1 + room + 2 * r.depth := hr
      omega
    · obtain ⟨hdepth, hlevel⟩ := hinner.balanced.restores hrun
      have hdepth : r.depth = p.depth := hdepth
      have hlevel : r.layout.level = p.layout.level + 1 := hlevel.trans hline
      have hr' : r'.layout.level + 2 * r.depth ≤ r.layout.level - 1 + (room + 1) + 2 * r'.depth :=
        hr'
      omega
  | @within room start inner commands hinner _ ihinner ih =>
    refine .within (by omega) (ihinner.mono fun r hr => ?_) fun r _ hr => ?_
    · have hr : r.layout.level + 2 * (p.depth + 1) ≤ p.layout.level + 2 + 2 * r.depth := hr
      omega
    · obtain ⟨hdepth, hlevel⟩ := hinner.balanced.restores hr
      have hdepth : r.depth = p.depth + 1 := hdepth
      have hlevel : r.layout.level = p.layout.level := hlevel
      refine ih.mono fun r' hr' => ?_
      have hr' : r'.layout.level + 2 * (r.depth - 1) ≤ r.layout.level + room + 2 * r'.depth := hr'
      omega

/-- A printer stays sound. -/
theorem sound (h : Opened room commands) (hp : p.layout.Sound filling.indentWidth) :
    p.Throughout filling source (fun q => q.layout.Sound filling.indentWidth) commands := by
  have hstep {p : Printer} {s : Step} (hindent : s ≠ .indent)
      (h : p.layout.Sound filling.indentWidth) :
      (p.step filling source s).layout.Sound filling.indentWidth := by
    cases s with
    | indent => exact absurd rfl hindent
    | enter register names => exact h
    | write piece => exact h.run (.write (piece.fill filling source)) nofun
    | newline => exact h.run .newline nofun
    | freshLine => exact h.run .freshLine nofun
    | dedent => exact h.run .dedent nofun
  induction h generalizing p with
  | nil => exact .nil hp
  | step hindent hdedent _ ih => exact .step hp (ih (hstep hindent hp))
  | refuse e _ ih => exact .cons hp nofun
  | @line room text inner commands htext _ _ ihinner ih =>
    have hwrite := hstep (s := .write (.text text)) nofun hp
    have hline := hstep (s := .newline) nofun hwrite
    exact .step hp (.step hwrite (.step hline ((ihinner (hp.line htext)).append
      fun r hr _ => .step hr (ih (hstep nofun hr)))))
  | within start _ _ ihinner ih =>
    exact .within hp (ihinner hp) fun r hr _ => ih (p := { r with depth := r.depth - 1 }) hr

end Opened

/-! ## Every part of a snippet -/

/-- A head, a body between braces and an end, inside of what is entered. -/
private theorem opened_headed {inner : List Command} {front back : Template} (start : Nat)
    (hfront : Flat front) (hback : Flat back) (h : Opened 1 inner) :
    Opened 0 (Command.within start (written front ++ braced inner ++ written back)) :=
  .entered start (((Opened.written hfront).append h.braced).append (.written hback))

mutual

theorem opened_statement (s : Statement) (mode : ScopeMode) (role : Role) :
    Opened 0 (s.commands mode role) := by
  cases s with
  | block start body =>
    have hbody := opened_statements body mode.nested
    rw [Statement.commands]
    split
    · exact hbody
    · exact .entered start ((hbody.braced.mono (by decide)).append (.written Template.flat_newline))
  | conditional start test consequent alternate =>
    have hconsequent := (opened_statement consequent mode.nested .inBraces).braced
    have harm := opened_elseArm alternate mode
    have hend : Flat (if role = .afterElse then [] else [Step.newline]) :=
      flat_unless _ Template.flat_newline
    rw [Statement.commands]
    exact .entered start ((((Opened.written (Template.flat_write _)).append
      (hconsequent.mono (by decide))).append (harm.mono (by decide))).append (.written hend))
  | whileLoop start test body | withObject start test body =>
    rw [Statement.commands]
    exact opened_headed start (Template.flat_write _) Template.flat_newline
      ((opened_statement body mode.nested .inBraces).mono (by decide))
  | doLoop start body test =>
    rw [Statement.commands]
    exact opened_headed start (Template.flat_fixed _) (by simp)
      ((opened_statement body mode.nested .inBraces).mono (by decide))
  | forLoop start init test update body | forIn start target object body
  | forOf start isAwait target values body =>
    rw [Statement.commands]
    exact opened_headed start (flat_registered _ _ _ (by simp))
      Template.flat_newline ((opened_statement body mode.nested .inBraces).mono (by decide))
  | choice start value clauses =>
    rw [Statement.commands]
    exact opened_headed start (Template.flat_write _) Template.flat_newline
      (opened_cases clauses mode.nested)
  | attempt start body handler finalizer =>
    have hbody := (opened_statements body mode.nested).braced
    have hhandler := opened_handlerArm handler mode.nested
    have hfinalizer := opened_finalizerArm finalizer mode.nested
    rw [Statement.commands]
    exact .entered start (((((Opened.written (Template.flat_fixed _)).append
      (hbody.mono (by decide))).append (hhandler.mono (by decide))).append
      (hfinalizer.mono (by decide))).append (.written Template.flat_newline))
  | labeled start labels body =>
    have hbody := opened_statement body mode.nested .afterLabels
    rw [Statement.commands]
    split
    · exact (Opened.written (Template.flat_write _)).append hbody
    · have hfront : Flat (registration mode.nested (unlabeled body) ++ labelsBefore labels) :=
        Template.flat_append.2 ⟨Template.flat_registration _ _, Template.flat_write _⟩
      exact .entered start ((Opened.written hfront).append (hbody.mono (by decide)))
  | returnValue | throwValue | expression =>
    simp only [Statement.commands]
    exact .entered _ (.written (Template.flat_append.2
      ⟨Template.flat_write _, Template.flat_endStatement⟩))
  | jump start kind label =>
    simp only [Statement.commands]
    exact .entered start (.written (Template.flat_append.2
      ⟨Template.flat_fixed _, Template.flat_endStatement⟩))
  | idle start =>
    rw [Statement.commands]
    exact .entered start .nil
  | declaration start d =>
    rw [Statement.commands]
    exact .entered start (.written (flat_registered _ _ _
      (Template.flat_variableStatement mode d)))
  | function start callable =>
    have hbody := opened_callableBody callable
    rw [Statement.commands]
    refine .entered start ((?_ : Opened 0 _).mono (by decide))
    split
    · exact .refuse _ .nil
    · split
      · exact ((Opened.written (Template.flat_append.2
          ⟨Template.flat_functionTarget _, Template.flat_write _⟩)).append hbody).append
          (.written Template.flat_endStatement)
      · exact ((Opened.written (Template.flat_write _)).append hbody).append
          (.written Template.flat_newline)
  | classDeclaration start definition =>
    have hclass := opened_classDefinition definition
    rw [Statement.commands]
    refine .entered start ((?_ : Opened 0 _).mono (by decide))
    split
    · split
      · exact .refuse _ .nil
      · exact ((Opened.written (Template.flat_append.2
          ⟨Template.flat_registration _ _, Template.flat_fixed _⟩)).append hclass).append
          (.written Template.flat_endStatement)
    · exact hclass.append (.written Template.flat_newline)
  | moduleItem start =>
    rw [Statement.commands]
    refine .entered start ?_
    split
    · exact .nil
    · exact .refuse _ .nil

theorem opened_statements (body : List Statement) (mode : ScopeMode) :
    Opened 0 (listCommands mode body) := by
  cases body with
  | nil =>
    rw [listCommands]
    exact .nil
  | cons s rest =>
    rw [listCommands]
    exact (opened_statement s mode .listed).append (opened_statements rest mode)

theorem opened_elseArm (alternate : Option Statement) (mode : ScopeMode) :
    Opened 1 (elseCommands mode alternate) := by
  cases alternate with
  | none =>
    rw [elseCommands]
    exact .nil
  | some s =>
    have hword : Opened 1 (written (Template.fixed " else ")) := .written (Template.flat_fixed _)
    have hbody := (opened_statement s mode.nested .inBraces).braced
    cases s with
    | conditional start test consequent more =>
      rw [elseCommands]
      exact hword.append ((opened_statement _ mode .afterElse).mono (by decide))
    | _ =>
      simp only [elseCommands, Bool.false_eq_true, ↓reduceIte]
      exact hword.append hbody

theorem opened_cases (clauses : List Case) (mode : ScopeMode) :
    Opened 1 (clauseCommands mode clauses) := by
  cases clauses with
  | nil =>
    rw [clauseCommands]
    exact .nil
  | cons clause rest =>
    obtain ⟨test, body⟩ := clause
    have hbody := opened_statements body mode
    have hrest := opened_cases rest mode
    -- What is indented comes past the mark that ends the label.
    cases test with
    | none =>
      rw [clauseCommands, ← List.append_assoc]
      exact (Opened.indented (by decide) hbody).append hrest
    | some value =>
      have hlabel : Command.written (caseLabel (some value) ++ [Step.newline]) =
          Command.written (Template.write ([Piece.text "case "] ++ expression value)) ++
            Command.written [.write (.text ":"), .newline] := by
        simp [Command.written, Template.write, caseLabel]
      rw [clauseCommands, hlabel, List.append_assoc, ← List.append_assoc (Command.written [_, _])]
      exact (Opened.written (Template.flat_write _)).append
        ((Opened.indented (by decide) hbody).append hrest)

theorem opened_handlerArm (handler : Option Handler) (mode : ScopeMode) :
    Opened 1 (handlerCommands mode handler) := by
  cases handler with
  | none =>
    rw [handlerCommands]
    exact .nil
  | some h =>
    obtain ⟨parameter, body⟩ := h
    simp only [handlerCommands]
    exact (Opened.written (Template.flat_write _)).append (opened_statements body mode).braced

theorem opened_finalizerArm (finalizer : Option (List Statement)) (mode : ScopeMode) :
    Opened 1 (finalizerCommands mode finalizer) := by
  cases finalizer with
  | none =>
    rw [finalizerCommands]
    exact .nil
  | some body =>
    rw [finalizerCommands]
    exact (Opened.written (Template.flat_fixed _)).append (opened_statements body mode).braced

theorem opened_callableBody (callable : Callable) : Opened 0 (callableCommands callable) := by
  obtain ⟨_, _, _, _, _, body⟩ := callable
  rw [callableCommands]
  exact opened_functionBody body

theorem opened_functionBody (body : Body) : Opened 0 (bodyCommands body) := by
  obtain ⟨start, directives, inner⟩ := body
  rw [bodyCommands]
  exact .entered start (((Opened.written (Template.flat_directives _)).append
    ((opened_statements inner .functionBody).mono (by decide))).braced)

theorem opened_classDefinition (definition : ClassDefinition) :
    Opened 0 (classCommands definition) := by
  obtain ⟨start, decorators, name, heritage, members⟩ := definition
  rw [classCommands]
  exact .entered start ((Opened.written (Template.flat_write _)).append
    ((opened_elements members).mono (by decide)).braced)

theorem opened_elements (members : List Element) : Opened 0 (memberCommands members) := by
  cases members with
  | nil =>
    rw [memberCommands]
    exact .nil
  | cons e rest =>
    rw [memberCommands]
    exact (opened_element e).append (opened_elements rest)

theorem opened_element (e : Element) : Opened 0 e.commands := by
  cases e with
  | staticBlock start body =>
    rw [Element.commands]
    exact opened_headed start (Template.flat_fixed _) Template.flat_newline
      ((opened_statements body .functionBody).mono (by decide))
  | method values isStatic kind name callable =>
    rw [Element.commands]
    exact ((Opened.written (Template.flat_write _)).append (opened_callableBody callable)).append
      (.written Template.flat_newline)
  | field values isStatic isAccessor name value =>
    rw [Element.commands]
    exact .written (Template.flat_append.2 ⟨Template.flat_write _, Template.flat_endStatement⟩)

end

/-! ## Snippets -/

/-- The walk through one of a snippet's own statements. -/
def Code.OwnStatement.commands : OwnStatement → List Command
  | ⟨.expression start value, isLast⟩ =>
    if isLast then Command.written (returned (expression value))
    else Statement.commands .topLevel .listed (.expression start value)
  | ⟨s, _⟩ => s.commands .topLevel .listed

/-- The walk through a snippet. -/
def Snippet.Program.commands (hoist : Bool) (program : Program) : List Command :=
  if program.statements = [] then Command.written (directivesOnly program.directives)
  else
    Command.written (program.directives.flatMap directive) ++
      (ownWritten hoist program).flatMap OwnStatement.commands

theorem flat_returned (value : Fragment) : Flat (returned value) :=
  Template.flat_append.2 ⟨Template.flat_write _, Template.flat_endStatement⟩

theorem flat_directivesOnly (directives : List Text.Span) : Flat (directivesOnly directives) := by
  refine Template.flat_append.2 ⟨Template.flat_directives _, ?_⟩
  split
  · exact flat_returned _
  · exact Template.flat_nil

namespace Code.OwnStatement

theorem opened (own : OwnStatement) : Opened 0 own.commands := by
  obtain ⟨s, isLast⟩ := own
  have hlisted := opened_statement s .topLevel .listed
  cases s with
  | expression start value =>
    rw [commands]
    split
    · exact .written (flat_returned _)
    · exact hlisted
  | _ => exact hlisted

theorem run_commands (filling : Filling) (source : List Char) (own : OwnStatement) {p : Printer}
    (hp : p.depth = 0) :
    p.run filling source own.commands =
      own.template >>= fun t => pure (p.write filling source t) := by
  obtain ⟨s, isLast⟩ := own
  have hlisted := (emission_statement s .topLevel .listed).run_eq filling source p
  rw [hp] at hlisted
  cases s with
  | expression start value =>
    cases isLast with
    | false => exact hlisted
    | true => exact (Emission.written (flat_returned _)).run_eq filling source p
  | _ => exact hlisted

end Code.OwnStatement

theorem Printer.run_ownCommands (filling : Filling) (source : List Char)
    (own : List OwnStatement) {p : Printer} (hp : p.depth = 0) :
    p.run filling source (own.flatMap OwnStatement.commands) =
      ownTemplates own >>= fun t => pure (p.write filling source t) := by
  induction own generalizing p with
  | nil => rfl
  | cons s own ih =>
    have hfirst := s.run_commands filling source hp
    have hrest (t : Template) := ih (p := p.write filling source t) ((write_depth t).trans hp)
    rw [List.flatMap_cons, run_append, hfirst, ← List.singleton_append, ownTemplates_append,
      ownTemplates_singleton]
    simp only [bind_assoc, pure_bind, hrest, write_append]

namespace Snippet.Program

variable (hoist : Bool) (program : Program)

theorem opened : Opened 0 (program.commands hoist) := by
  have hown (own : List OwnStatement) : Opened 0 (own.flatMap OwnStatement.commands) := by
    induction own with
    | nil => exact .nil
    | cons s own ih => exact s.opened.append ih
  unfold commands
  split
  · exact .written (flat_directivesOnly _)
  · exact (Opened.written (Template.flat_directives _)).append (hown _)

/-- A new printer that obeys the walk through a snippet writes its template, or refuses as the
snippet is refused. -/
theorem run_commands (filling : Filling) (source : List Char) :
    ({} : Printer).run filling source (program.commands hoist) =
      Code.program hoist program >>= fun t => pure (({} : Printer).write filling source t) := by
  unfold commands
  split
  · next hnone =>
    have hprogram : Code.program hoist program = .ok (directivesOnly program.directives) := by
      simp [Code.program, hnone]
    rw [hprogram, (Emission.written (flat_directivesOnly _)).run_eq]
    rfl
  · next hsome =>
    have hdirectives := (Emission.written (Template.flat_directives program.directives)).run_eq
      filling source {}
    rw [Printer.run_append, hdirectives, program_eq hoist hsome]
    simp only [bind_assoc, pure_bind, Printer.write_append]
    exact Printer.run_ownCommands filling source _ (Printer.write_depth _)

end Snippet.Program

/-- **Indentation never overflows.**  Rebinding a snippet is obeying the commands for it.  At each
command that a printer comes to, also on the way to a refusal, it is indented by two levels at most
for each of the parts that may lie around one another; and as long as the text that is written so
far can be held, the product of the level and the width is a word, whatever word the width is.  So
if a snippet gives a code that can be held, no product of a level and the width has overflowed. -/
theorem indentation_never_overflows (options : Options) (source : String) (program : Program)
    (hparse : parse source.toList = .ok program) :
    let commands := program.commands options.hoistFunctions
    let width := options.indentWidth
    rebind options source =
      (({} : Printer).run options.filling source.toList commands >>= fun p =>
        pure { code := p.layout.text, bindings := p.bindings }) ∧
    ({} : Printer).Along options.filling source.toList (fun p _ =>
      p.layout.level ≤ 2 * depthLimit ∧ (p.layout.Fits → p.layout.IsExact width)) commands ∧
    (∀ output, rebind options source = .ok output → output.code.utf8ByteSize < byteLimit →
      ({} : Printer).Along options.filling source.toList (fun p _ => p.layout.IsExact width)
        commands) := by
  intro commands width
  have hopened : Opened 0 commands := program.opened options.hoistFunctions
  have hrebind : rebind options source =
      (({} : Printer).run options.filling source.toList commands >>= fun p =>
        pure { code := p.layout.text, bindings := p.bindings }) := by
    rw [program.run_commands, rebind, template, hparse]
    simp only [bind_assoc, pure_bind, Printer.write_new]
    rfl
  have halong : ({} : Printer).Along options.filling source.toList (fun p _ =>
      p.layout.level ≤ 2 * depthLimit ∧ (p.layout.Fits → p.layout.IsExact width)) commands := by
    have hdepth : ({} : Printer).Along options.filling source.toList (Printer.Kept {}) commands :=
      hopened.balanced.along
    have hlevel : ({} : Printer).Throughout options.filling source.toList
        (fun p => p.layout.level ≤ 2 * p.depth) commands :=
      hopened.level_le.mono fun p hp => by simpa using hp
    have hsound : ({} : Printer).Throughout options.filling source.toList
        (fun p => p.layout.Sound width) commands := hopened.sound (Layout.State.sound_new width)
    refine ((hdepth.and hlevel.1).and hsound.1).mono fun p c hp => ?_
    obtain ⟨⟨hkept, hlevel⟩, hsound⟩ := hp
    have hdepth : p.depth ≤ depthLimit := by simpa using hkept.depth_le
    refine ⟨by omega, fun hfits => ?_⟩
    have hlt := (hsound hfits).level_mul_lt hfits
    exact ⟨hlt, indentation_eq hlt⟩
  refine ⟨hrebind, halong, fun output houtput hsize => ?_⟩
  obtain ⟨r, hr, houtput⟩ := bind_eq_ok.1 (hrebind.symm.trans houtput)
  cases houtput
  refine (halong.and (Printer.along_of_run hr).1).mono fun p c hp => hp.1.2 ?_
  obtain ⟨out, hout⟩ := hp.2
  have hsize : r.layout.text.utf8ByteSize < byteLimit := hsize
  rw [hout, String.utf8ByteSize_append] at hsize
  exact Nat.lt_of_le_of_lt (Nat.le_add_right _ _) hsize

/-- A block in a block, with a width that is gone as a word when it is doubled, and with a width
for which there is a code. -/
theorem blocks_do_not_overflow :
    let source := "\x7b \x7b x \x7d \x7d"
    let wide : Options := { indentWidth := 9223372036854775808 }
    let narrow : Options := { indentWidth := 3 }
    let code := "\x7b\n   \x7b\n      x;\n   \x7d\n\x7d\n"
    blanks wide.indentWidth 2 = 0 ∧ rebind narrow source = .ok { code, bindings := {} } ∧
      ∃ program, parse source.toList = .ok program ∧
        ({} : Printer).Along wide.filling source.toList (fun p _ =>
          p.layout.Fits → p.layout.IsExact wide.indentWidth) (program.commands true) ∧
        ({} : Printer).Along narrow.filling source.toList (fun p _ =>
          p.layout.IsExact narrow.indentWidth) (program.commands true) := by
  intro source wide narrow code
  have hsome : (parse source.toList).toOption.isSome = true := by decide +kernel
  obtain ⟨program, hprogram⟩ := Option.isSome_iff_exists.1 hsome
  have hparse := eq_ok_of_toOption hprogram
  have hcode : rebind narrow source = .ok { code, bindings := {} } :=
    eq_ok_of_toOption (by decide +kernel)
  refine ⟨by decide, hcode, program, hparse, ?_, ?_⟩
  · exact (indentation_never_overflows wide source program hparse).2.1.mono fun p _ hp => hp.2
  · exact (indentation_never_overflows narrow source program hparse).2.2 _ hcode (by decide)

end Rebind
