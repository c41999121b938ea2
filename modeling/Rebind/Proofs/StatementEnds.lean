import Rebind.Code
import Rebind.Proofs.Emission
import Rebind.Proofs.Layout

/-!
# Where the code of a statement ends

A statement that starts on a line of its own is written as nothing or as whole lines, the last of
which ends with a semicolon or a closing brace.  The one exception are labels before a statement
for which nothing is written: they are the last on their line, and whatever is written next stands
after them (`statement_completes_iff`).
-/

namespace Rebind

open Rebind.Layout
open Rebind.Snippet

namespace Snippet.Statement

/-- Whether nothing is written for a statement. -/
def isSilent : Statement → Bool
  | .idle _ | .moduleItem _ => true
  | .labeled _ labels body => labels.isEmpty && body.isSilent
  | _ => false

/-- Whether a label is the last that is written for a statement. -/
def leavesLabels : Statement → Bool
  | .labeled _ labels body => body.leavesLabels || (!labels.isEmpty && body.isSilent)
  | _ => false

end Snippet.Statement

/-! ## Templates that end a line -/

namespace Template

/-- The template ends with a mark and the end of its line. -/
def EndsLine (mark : String) (t : Template) : Prop :=
  ∃ front, t = front ++ [Step.write (.text mark), .newline]

/-- The template ends with a closing brace. -/
def ClosesBrace (t : Template) : Prop :=
  ∃ front, t = front ++ [Step.write (.text "\x7d")]

theorem endsLine_endStatement (t : Template) : EndsLine ";" (t ++ endStatement) :=
  ⟨t, rfl⟩

theorem EndsLine.append_left {mark : String} {t : Template} (front : Template)
    (h : EndsLine mark t) : EndsLine mark (front ++ t) := by
  obtain ⟨inner, rfl⟩ := h
  exact ⟨front ++ inner, (List.append_assoc ..).symm⟩

theorem ClosesBrace.append_left {t : Template} (front : Template) (h : ClosesBrace t) :
    ClosesBrace (front ++ t) := by
  obtain ⟨inner, rfl⟩ := h
  exact ⟨front ++ inner, (List.append_assoc ..).symm⟩

theorem closesBrace_braced (inner : Template) : ClosesBrace (braced inner) :=
  ⟨[Step.write (.text "\x7b"), .newline, .indent] ++ inner ++ [Step.freshLine, .dedent],
    by simp [braced]⟩

theorem ClosesBrace.endsLine {t : Template} (h : ClosesBrace t) :
    EndsLine "\x7d" (t ++ [Step.newline]) := by
  obtain ⟨front, rfl⟩ := h
  exact ⟨front, by simp⟩

end Template

namespace Code

open Template

variable {mode : ScopeMode} {depth : Nat} {role : Role} {t : Template}

/-! ## Arms of statements -/

theorem closesBrace_handlerArm {front : Template} (hfront : ClosesBrace front)
    {handler : Option Handler} (h : handlerArm mode depth handler = .ok t) :
    ClosesBrace (front ++ t) := by
  cases handler with
  | none =>
    rw [handlerArm, ok_eq_ok] at h
    simpa [h] using hfront
  | some handler =>
    obtain ⟨parameter, body⟩ := handler
    obtain ⟨inner, -, rfl⟩ := handlerArm_some_ok.1 h
    exact ((closesBrace_braced inner).append_left _).append_left _

theorem closesBrace_finalizerArm {front : Template} (hfront : ClosesBrace front)
    {finalizer : Option (List Statement)} (h : finalizerArm mode depth finalizer = .ok t) :
    ClosesBrace (front ++ t) := by
  cases finalizer with
  | none =>
    rw [finalizerArm, ok_eq_ok] at h
    simpa [h] using hfront
  | some body =>
    obtain ⟨inner, -, rfl⟩ := finalizerArm_some_ok.1 h
    exact ((closesBrace_braced inner).append_left _).append_left _

/-- The arm of a conditional that starts with `else` is empty or ends with a closing brace. -/
theorem closesBrace_elseArm {front : Template} (hfront : ClosesBrace front) :
    ∀ {alternate : Option Statement} {mode : ScopeMode} {depth : Nat} {t : Template},
      elseArm mode depth alternate = .ok t → ClosesBrace (front ++ t)
  | none, mode, depth, t, h => by
    rw [elseArm, ok_eq_ok] at h
    simpa [h] using hfront
  | some s, mode, depth, t, h => by
    cases s with
    | conditional start test body alternate =>
      obtain ⟨inner, hinner, rfl⟩ := elseArm_conditional_ok.1 h
      obtain ⟨-, first, -, arm, harm, rfl⟩ := statement_conditional_ok.1 hinner
      rw [if_pos rfl, List.append_nil]
      have hbody : ClosesBrace (headed "if" test ++ braced first) :=
        (closesBrace_braced first).append_left _
      exact ((closesBrace_elseArm hbody harm).append_left _).append_left _
    | _ =>
      obtain ⟨inner, -, rfl⟩ := (elseArm_body_ok (by simp)).1 h
      exact ((closesBrace_braced inner).append_left _).append_left _

/-! ## Functions and classes -/

theorem closesBrace_callableBody {callable : Callable} (h : callableBody depth callable = .ok t) :
    ClosesBrace t := by
  rw [callableBody_eq] at h
  obtain ⟨-, inner, -, rfl⟩ := functionBody_ok.1 h
  exact closesBrace_braced _

theorem closesBrace_classDefinition {definition : ClassDefinition}
    (h : classDefinition depth definition = .ok t) : ClosesBrace t := by
  obtain ⟨-, inner, -, rfl⟩ := classDefinition_ok.1 h
  exact (closesBrace_braced inner).append_left _

/-! ## Statements -/

/-- A body between braces and a line break after anything end the line. -/
private theorem endsLine_braced (front inner : Template) :
    EndsLine "\x7d" (front ++ braced inner ++ [Step.newline]) :=
  ((closesBrace_braced inner).append_left front).endsLine

/-- Nothing is registered for a statement for which nothing is written. -/
theorem registration_unlabeled_of_isSilent (mode : ScopeMode) (s : Statement)
    (hs : s.isSilent = true) : registration mode (unlabeled s) = [] := by
  cases s with
  | idle => rfl
  | moduleItem => rfl
  | labeled _ labels body =>
    rw [Statement.isSilent, Bool.and_eq_true] at hs
    exact registration_unlabeled_of_isSilent mode body hs.2
  | _ => cases hs

theorem statement_eq_nil_of_isSilent (s : Statement) {mode : ScopeMode} {depth : Nat} {role : Role}
    {t : Template} (h : statement mode depth role s = .ok t) (hs : s.isSilent = true) : t = [] := by
  cases s with
  | idle => exact (statement_idle_ok.1 h).2
  | moduleItem => exact (statement_moduleItem_ok.1 h).2.2
  | labeled _ labels body =>
    rw [Statement.isSilent, Bool.and_eq_true, List.isEmpty_iff] at hs
    obtain ⟨rfl, hs⟩ := hs
    rw [statement_labeled_ok] at h
    split at h
    · obtain ⟨inner, hinner, rfl⟩ := h
      exact statement_eq_nil_of_isSilent body hinner hs
    · obtain ⟨-, inner, hinner, rfl⟩ := h
      rw [statement_eq_nil_of_isSilent body hinner hs, registration_unlabeled_of_isSilent _ body hs]
      rfl
  | _ => cases hs

/-- What labels leave behind if nothing is written for the statement after them. -/
theorem exists_label_of_leavesLabels (s : Statement) {mode : ScopeMode} {depth : Nat} {role : Role}
    {t : Template} (h : statement mode depth role s = .ok t) (hs : s.leavesLabels = true) :
    ∃ front label, t = front ++ [Step.write (.text (label ++ ": "))] := by
  cases s with
  | labeled _ labels body =>
    obtain ⟨front, inner, depth, hinner, rfl⟩ : ∃ front inner depth,
        statement mode.nested depth .afterLabels body = .ok inner ∧
        t = front ++ labelsBefore labels ++ inner := by
      rw [statement_labeled_ok] at h
      split at h
      · obtain ⟨inner, hinner, rfl⟩ := h
        exact ⟨[], inner, depth, hinner, rfl⟩
      · obtain ⟨-, inner, hinner, rfl⟩ := h
        exact ⟨_, inner, depth + 1, hinner, rfl⟩
    rw [Statement.leavesLabels, Bool.or_eq_true, Bool.and_eq_true] at hs
    rcases hs with hs | ⟨hne, hs⟩
    · obtain ⟨last, label, rfl⟩ := exists_label_of_leavesLabels body hinner hs
      exact ⟨_, label, (List.append_assoc ..).symm⟩
    · obtain rfl | ⟨others, label, rfl⟩ := labels.eq_nil_or_concat
      · cases hne
      · rw [statement_eq_nil_of_isSilent body hinner hs]
        refine ⟨front ++ labelsBefore others, label, ?_⟩
        simp [labelsBefore, Template.write]
  | _ => cases hs

/-- A statement for which something is written, and not a label at the end, ends its line. -/
theorem endsLine_statement :
    ∀ {s : Statement} {mode : ScopeMode} {depth : Nat} {role : Role} {t : Template},
      statement mode depth role s = .ok t → role = .listed ∨ role = .afterLabels →
        s.isSilent = false → s.leavesLabels = false →
          ∃ mark, (mark = ";" ∨ mark = "\x7d") ∧ EndsLine mark t
  | .block .., _, _, role, _, h, hrole, _, _ => by
    rw [statement_block_ok, if_neg (by rintro rfl; simp at hrole)] at h
    obtain ⟨-, inner, -, rfl⟩ := h
    exact ⟨_, .inr rfl, endsLine_braced [] inner⟩
  | .conditional .., _, _, role, _, h, hrole, _, _ => by
    obtain ⟨-, inner, -, arm, harm, rfl⟩ := statement_conditional_ok.1 h
    rw [if_neg (by rintro rfl; simp at hrole)]
    exact ⟨_, .inr rfl,
      (closesBrace_elseArm ((closesBrace_braced inner).append_left _) harm).endsLine⟩
  | .whileLoop .., _, _, _, _, h, _, _, _ => by
    obtain ⟨-, inner, -, rfl⟩ := statement_whileLoop_ok.1 h
    exact ⟨_, .inr rfl, endsLine_braced _ inner⟩
  | .doLoop .., _, _, _, _, h, _, _, _ => by
    obtain ⟨-, inner, -, rfl⟩ := statement_doLoop_ok.1 h
    rw [doTail, ← List.append_assoc]
    exact ⟨_, .inl rfl, endsLine_endStatement _⟩
  | .forLoop .., _, _, _, _, h, _, _, _ => by
    obtain ⟨-, inner, -, rfl⟩ := statement_forLoop_ok.1 h
    exact ⟨_, .inr rfl, endsLine_braced _ inner⟩
  | .forIn .., _, _, _, _, h, _, _, _ => by
    obtain ⟨-, inner, -, rfl⟩ := statement_forIn_ok.1 h
    exact ⟨_, .inr rfl, endsLine_braced _ inner⟩
  | .forOf .., _, _, _, _, h, _, _, _ => by
    obtain ⟨-, inner, -, rfl⟩ := statement_forOf_ok.1 h
    exact ⟨_, .inr rfl, endsLine_braced _ inner⟩
  | .choice .., _, _, _, _, h, _, _, _ => by
    obtain ⟨-, inner, -, rfl⟩ := statement_choice_ok.1 h
    exact ⟨_, .inr rfl, endsLine_braced _ inner⟩
  | .attempt .., _, _, _, _, h, _, _, _ => by
    obtain ⟨-, inner, -, caught, hcaught, final, hfinal, rfl⟩ := statement_attempt_ok.1 h
    have hbody := (closesBrace_braced inner).append_left (Template.fixed "try ")
    exact ⟨_, .inr rfl,
      (closesBrace_finalizerArm (closesBrace_handlerArm hbody hcaught) hfinal).endsLine⟩
  | .withObject .., _, _, _, _, h, _, _, _ => by
    obtain ⟨-, inner, -, rfl⟩ := statement_withObject_ok.1 h
    exact ⟨_, .inr rfl, endsLine_braced _ inner⟩
  | .labeled _ labels body, _, _, _, _, h, _, hsilent, hlabels => by
    rw [Statement.leavesLabels, Bool.or_eq_false_iff] at hlabels
    have hbody : body.isSilent = false := by
      rw [Statement.isSilent] at hsilent
      cases hb : body.isSilent <;> simp_all
    rw [statement_labeled_ok] at h
    split at h
    · obtain ⟨inner, hinner, rfl⟩ := h
      obtain ⟨mark, hmark, hends⟩ := endsLine_statement hinner (.inr rfl) hbody hlabels.1
      exact ⟨mark, hmark, hends.append_left _⟩
    · obtain ⟨-, inner, hinner, rfl⟩ := h
      obtain ⟨mark, hmark, hends⟩ := endsLine_statement hinner (.inr rfl) hbody hlabels.1
      exact ⟨mark, hmark, hends.append_left _⟩
  | .returnValue .., _, _, _, _, h, _, _, _ => by
    rw [(statement_returnValue_ok.1 h).2]
    exact ⟨_, .inl rfl, endsLine_endStatement _⟩
  | .throwValue .., _, _, _, _, h, _, _, _ => by
    rw [(statement_throwValue_ok.1 h).2]
    exact ⟨_, .inl rfl, endsLine_endStatement _⟩
  | .jump .., _, _, _, _, h, _, _, _ => by
    rw [(statement_jump_ok.1 h).2]
    exact ⟨_, .inl rfl, endsLine_endStatement _⟩
  | .expression .., _, _, _, _, h, _, _, _ => by
    rw [(statement_expression_ok.1 h).2]
    exact ⟨_, .inl rfl, endsLine_endStatement _⟩
  | .declaration .., _, _, _, _, h, _, _, _ => by
    rw [(statement_declaration_ok.1 h).2]
    refine ⟨_, .inl rfl, EndsLine.append_left _ ?_⟩
    unfold variableStatement
    split
    · exact endsLine_endStatement _
    · split <;> exact endsLine_endStatement _
  | .function .., _, _, _, _, h, _, _, _ => by
    obtain ⟨-, name, -, body, hbody, rfl⟩ := statement_function_ok.1 h
    split
    · exact ⟨_, .inl rfl, endsLine_endStatement _⟩
    · exact ⟨_, .inr rfl, ((closesBrace_callableBody hbody).append_left _).endsLine⟩
  | .classDeclaration .., _, _, _, _, h, _, _, _ => by
    obtain ⟨-, h⟩ := statement_classDeclaration_ok.1 h
    split at h
    · obtain ⟨name, -, inner, -, rfl⟩ := h
      exact ⟨_, .inl rfl, endsLine_endStatement _⟩
    · obtain ⟨inner, hinner, rfl⟩ := h
      exact ⟨_, .inr rfl, (closesBrace_classDefinition hinner).endsLine⟩

end Code

/-! ## The text of a statement -/

/-- What is written between two states is nothing or ends a statement or a block together with its
line, and a new line is begun. -/
structure Completes (before after : State) : Prop where
  atLineStart : after.atLineStart = true
  written : ∃ out, after.text = before.text ++ out ∧
    (out = "" ∨ ∃ front, out = front ++ ";\n" ∨ out = front ++ "\x7d\n")

namespace Template

variable {filling : Filling} {source : List Char} {state : State} {t : Template}

theorem EndsLine.completes {mark : String} (h : EndsLine mark t)
    (hmark : mark = ";" ∨ mark = "\x7d") :
    Completes state (t.layOut filling source state) := by
  obtain ⟨front, rfl⟩ := h
  have hne : mark ≠ "" := by
    rcases hmark with rfl | rfl <;> decide
  obtain ⟨⟨out, hout⟩, hstart⟩ := layOut_mark_newline filling source state front hne
  refine ⟨hstart, _, hout, .inr ⟨out, ?_⟩⟩
  rcases hmark with rfl | rfl
  · exact .inl rfl
  · exact .inr rfl

theorem EndsLine.writes {mark : String} (h : EndsLine mark t) (hmark : mark = ";" ∨ mark = "\x7d") :
    ∃ out, out ≠ "" ∧ (t.layOut filling source state).text = state.text ++ out := by
  obtain ⟨front, rfl⟩ := h
  have hne : mark ≠ "" := by
    rcases hmark with rfl | rfl <;> decide
  obtain ⟨⟨out, hout⟩, -⟩ := layOut_mark_newline filling source state front hne
  exact ⟨_, by simp, hout⟩

/-- A text at the end leaves its line open. -/
theorem not_completes_of_text (front : Template) {text : String} (h : text ≠ "") :
    ¬ Completes state (layOut filling source state (front ++ [Step.write (.text text)])) := by
  intro hcompletes
  have hstart := hcompletes.atLineStart
  rw [layOut_append, (layOut_write_text _ _ _ h).2] at hstart
  cases hstart

end Template

/-- **Statements end where they end.**  From the start of a line, a statement is written as nothing
or as whole lines that end with a semicolon or a closing brace exactly if it does not leave labels
behind.  If it does not, its labels are followed by the code of the statement they name, which is
not empty. -/
theorem statement_completes_iff {mode : ScopeMode} {depth : Nat} {s : Statement} {t : Template}
    (h : Code.statement mode depth .listed s = .ok t) (filling : Filling) (source : List Char)
    {state : State} (hstate : state.atLineStart = true) :
    (Completes state (t.layOut filling source state) ↔ s.leavesLabels = false) ∧
      ∀ start labels body, s = .labeled start labels body → labels ≠ [] →
        s.leavesLabels = false →
        ∃ inner, Code.statement mode.nested (depth + 1) .afterLabels body = .ok inner ∧
          t = Code.registration mode.nested (Code.unlabeled body) ++
            Code.labelsBefore labels ++ inner ∧
          ∀ state, ∃ out, out ≠ "" ∧
            (inner.layOut filling source state).text = state.text ++ out := by
  constructor
  · constructor
    · intro hcompletes
      cases hlabels : s.leavesLabels with
      | false => rfl
      | true =>
        -- The last text that is written is a label, and a label does not end its line.
        obtain ⟨front, label, rfl⟩ := Code.exists_label_of_leavesLabels s h hlabels
        exact absurd hcompletes (Template.not_completes_of_text front (by simp))
    · intro hlabels
      cases hsilent : s.isSilent with
      | true =>
        rw [Code.statement_eq_nil_of_isSilent s h hsilent]
        exact ⟨hstate, "", by simp, .inl rfl⟩
      | false =>
        obtain ⟨mark, hmark, hends⟩ := Code.endsLine_statement h (.inl rfl) hsilent hlabels
        exact hends.completes hmark
  · rintro start labels body rfl hne hlabels
    rw [Statement.leavesLabels, Bool.or_eq_false_iff, Bool.and_eq_false_iff] at hlabels
    have hbody : body.isSilent = false := by simpa [hne] using hlabels.2
    rw [Code.statement_labeled_ok, if_neg (by decide)] at h
    obtain ⟨-, inner, hinner, rfl⟩ := h
    refine ⟨inner, hinner, rfl, fun state => ?_⟩
    obtain ⟨mark, hmark, hends⟩ := Code.endsLine_statement hinner (.inr rfl) hbody hlabels.1
    exact hends.writes hmark

/-- A labeled loop with a variable in its head, inside a block. -/
theorem labeled_loop_completes :
    let loop : Statement := .labeled 2 ["a", "b"] (.forOf 8 false
      (.declaration ⟨.variable, [⟨.name "x" ⟨17, 18⟩, none⟩]⟩) ⟨⟨22, 24⟩, []⟩ (.idle 26))
    ∃ t, Code.statement .topLevelBlock 1 .listed loop = .ok t ∧
      Completes ⟨"\x7b\n", 1, true⟩ (t.layOut ⟨"window", "__module__", 4⟩
        "\x7b a: b: for (var x of xs) ; \x7d".toList ⟨"\x7b\n", 1, true⟩) := by
  intro loop
  have h : Code.statement .topLevelBlock 1 .listed loop = .ok _ := rfl
  exact ⟨_, h, (statement_completes_iff h _ _ rfl).1.2 rfl⟩

/-- The label of an empty statement is all that is written for it, and its line stays open. -/
theorem label_before_nothing_stays_open :
    (rebind {} "a: ;").toOption = some { code := "a: ", bindings := {} } ∧
      ¬ ∀ (mode : ScopeMode) (depth : Nat) (s : Statement) (t : Template) (filling : Filling)
        (source : List Char) (state : State),
        Code.statement mode depth .listed s = .ok t → state.atLineStart = true →
          Completes state (t.layOut filling source state) := by
  refine ⟨by decide +kernel, fun h => ?_⟩
  have hcompletes := h .topLevel 0 (.labeled 0 ["a"] (.idle 3)) _ ⟨"window", "__module__", 4⟩
    "a: ;".toList {} rfl rfl
  cases hcompletes.atLineStart

/-- Labels that are left behind before a closing brace are no statement, so that the code of a
snippet need not be one that can be read again. -/
theorem label_before_brace_cannot_be_read :
    (rebind {} "\x7b a: ; \x7d").toOption =
        some { code := "\x7b\n    a: \n\x7d\n", bindings := {} } ∧
      ¬ ∀ (options : Options) (source : String) (out : Output),
        options.validate = .ok () → rebind options source = .ok out →
          ∃ p, parse (wrap options out.code).toList = .ok p := by
  have hcode : (rebind {} "\x7b a: ; \x7d").toOption =
      some { code := "\x7b\n    a: \n\x7d\n", bindings := {} } := by decide +kernel
  have hparse : (parse (wrap {} "\x7b\n    a: \n\x7d\n").toList).toOption.isNone = true := by
    decide +kernel
  refine ⟨hcode, fun h => ?_⟩
  obtain ⟨p, hp⟩ := h {} _ _ (Code.eq_ok_of_toOption (by decide +kernel))
    (Code.eq_ok_of_toOption hcode)
  rw [hp] at hparse
  cases hparse

end Rebind
