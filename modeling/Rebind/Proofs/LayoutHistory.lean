import Rebind.Proofs.Layout

/-!
# Layouts from their histories

The state of a layout holds a level and a flag beside the text.  What is laid out can be said
without them: the actions before an action, its *history*, decide what it adds (`addition`).  A
text is added as it is, after the blanks of its line if it is the first one on it, whatever line
breaks there are inside of texts.

The flag is about the history and not about the text that is laid out: a text that ends with a line
break has still begun the line of the layout that it stands on (`State.Follows`).
-/

namespace Rebind.Layout

/-! ## What a history says -/

namespace Action

/-- Whether the action writes a text that is not empty. -/
def writesText : Action → Bool
  | .write text => !text.isEmpty
  | _ => false

/-- Whether no text stands on the line past the action. -/
def endsLine : Action → Bool
  | .newline | .freshLine => true
  | _ => false

/-- The level past the action. -/
def levelFrom (level : Nat) : Action → Nat
  | .indent => level + 1
  | .dedent => level - 1
  | _ => level

end Action

/-- The level past a history: the indents in it less the dedents, but those at level zero. -/
def levelAfter (history : List Action) : Nat :=
  history.foldl Action.levelFrom 0

/-- Whether a text that is not empty is written past the last line end of a history.  Before a
`freshLine` that ends no line there is none since the line end before it, so it counts as one. -/
def hasText (history : List Action) : Bool :=
  (history.reverse.takeWhile (!·.endsLine)).any Action.writesText

/-- What an action adds to the text. -/
def addition (width : Nat) (history : List Action) : Action → String
  | .write text =>
    if text.isEmpty || hasText history then text
    else "".pushn ' ' (levelAfter history * width) ++ text
  | .newline => "\n"
  | .freshLine => if hasText history then "\n" else ""
  | .indent | .dedent => ""

/-- What actions add to the text, one after the other. -/
def additions (width : Nat) (history : List Action) : List Action → String
  | [] => ""
  | action :: actions =>
    addition width history action ++ additions width (history ++ [action]) actions

/-- The blanks before each line with a text are as many as a word can count. -/
def FitsWords (width : UInt64) (history actions : List Action) : Prop :=
  ∀ front text back, actions = front ++ .write text :: back → text ≠ "" →
    hasText (history ++ front) = false →
    levelAfter (history ++ front) * width.toNat < UInt64.size

section History

variable (history : List Action) (action : Action)

theorem levelAfter_concat :
    levelAfter (history ++ [action]) = action.levelFrom (levelAfter history) :=
  List.foldl_append

theorem hasText_concat :
    hasText (history ++ [action]) =
      (!action.endsLine && (action.writesText || hasText history)) := by
  rw [hasText, List.reverse_append, List.reverse_singleton, List.singleton_append,
    List.takeWhile_cons]
  cases action.endsLine <;> simp [hasText]

theorem levelAfter_le_length : levelAfter history ≤ history.length := by
  have hfoldl (level : Nat) : history.foldl Action.levelFrom level ≤ level + history.length := by
    induction history generalizing level with
    | nil => exact Nat.le_refl _
    | cons action history ih =>
      have hstep : action.levelFrom level ≤ level + 1 := by
        cases action <;> simp only [Action.levelFrom] <;> omega
      have hrest := ih (action.levelFrom level)
      rw [List.foldl_cons, List.length_cons]
      omega
  simpa [levelAfter] using hfoldl 0

end History

/-- A line that has text keeps it until it is ended. -/
theorem hasText_append {history middle : List Action} (h : hasText history = true)
    (hmiddle : ∀ action ∈ middle, action.endsLine = false) :
    hasText (history ++ middle) = true := by
  induction middle generalizing history with
  | nil => simpa using h
  | cons action middle ih =>
    obtain ⟨haction, hmiddle⟩ := List.forall_mem_cons.1 hmiddle
    rw [← List.singleton_append, ← List.append_assoc]
    exact ih (by simp [hasText_concat, haction, h]) hmiddle

/-- Few actions do not indent far. -/
theorem fitsWords_of_length {width : UInt64} {actions : List Action}
    (h : actions.length * width.toNat < UInt64.size) : FitsWords width [] actions := by
  rintro front text back rfl - -
  refine Nat.lt_of_le_of_lt (Nat.mul_le_mul_right _ ?_) h
  refine Nat.le_trans (levelAfter_le_length _) ?_
  simp

/-! ## The state of a layout -/

/-- The level and the flag of a state are those of a history. -/
structure State.Follows (state : State) (history : List Action) : Prop where
  level : state.level = levelAfter history
  line : state.atLineStart = !hasText history

namespace State.Follows

variable {width : UInt64} {state : State} {history : List Action}

theorem new : ({} : State).Follows [] := ⟨rfl, rfl⟩

/-- An action keeps a state in step with its history. -/
theorem run (h : state.Follows history) (width : UInt64) (action : Action) :
    (state.run width action).Follows (history ++ [action]) := by
  obtain ⟨hlevel, hline⟩ := h
  constructor
  · rw [levelAfter_concat, ← hlevel]
    cases action with
    | write text =>
      simp only [State.run]
      split
      · rfl
      · split <;> rfl
    | freshLine =>
      simp only [State.run]
      split <;> rfl
    | newline | indent | dedent => rfl
  · rw [hasText_concat]
    cases action with
    | write text =>
      cases htext : text.isEmpty <;> cases hstart : state.atLineStart <;>
        simp_all [State.run, Action.endsLine, Action.writesText]
    | freshLine =>
      cases hstart : state.atLineStart <;> simp [State.run, Action.endsLine, hstart]
    | newline => rfl
    | indent | dedent => simpa [State.run, Action.endsLine, Action.writesText] using hline

/-- An action adds what its history decides. -/
theorem run_text (h : state.Follows history) {action : Action}
    (hfit : FitsWords width history [action]) :
    (state.run width action).text = state.text ++ addition width.toNat history action := by
  obtain ⟨hlevel, hline⟩ := h
  cases action with
  | write text =>
    by_cases htext : text = ""
    · simp [State.run, addition, htext]
    · cases htaken : hasText history with
      | true => simp_all [State.run, addition]
      | false =>
        have hfit := hfit [] text [] rfl htext (by simpa using htaken)
        rw [List.append_nil] at hfit
        simp_all [State.run, addition, indentation_eq hfit, String.append_assoc]
  | freshLine => cases htaken : hasText history <;> simp_all [State.run, addition]
  | newline => rfl
  | indent | dedent => simp [State.run, addition]

/-- Actions add what their histories decide. -/
theorem foldl_text (h : state.Follows history) {actions : List Action}
    (hfit : FitsWords width history actions) :
    (actions.foldl (State.run width) state).text =
      state.text ++ additions width.toNat history actions := by
  induction actions generalizing state history with
  | nil => simp [additions]
  | cons action actions ih =>
    have hfirst : FitsWords width history [action] := by
      intro front text back heq
      refine hfit front text (back ++ actions) ?_
      rw [← List.singleton_append, heq, List.append_assoc, List.cons_append]
    have hrest : FitsWords width (history ++ [action]) actions := by
      intro front text back heq
      have := hfit (action :: front) text back (by rw [heq, List.cons_append])
      rwa [← List.singleton_append, ← List.append_assoc] at this
    rw [List.foldl_cons, ih (h.run width action) hrest, h.run_text hfirst, additions,
      String.append_assoc]

end State.Follows

theorem follows_foldl (width : UInt64) (actions : List Action) :
    (actions.foldl (State.run width) {}).Follows actions := by
  have hfoldl {state : State} {history : List Action} (h : state.Follows history) :
      (actions.foldl (State.run width) state).Follows (history ++ actions) := by
    induction actions generalizing state history with
    | nil => simpa using h
    | cons action actions ih =>
      rw [List.foldl_cons, ← List.singleton_append, ← List.append_assoc]
      exact ih (h.run width action)
  exact hfoldl .new

/-! ## Lines -/

namespace State

variable {width : UInt64} {state : State}

/-- On a fresh line nothing is written before there is a text. -/
theorem foldl_quiet (hline : state.atLineStart = true) {actions : List Action}
    (h : ∀ action ∈ actions, action ≠ .newline ∧ action.writesText = false) :
    (actions.foldl (State.run width) state).text = state.text ∧
      (actions.foldl (State.run width) state).atLineStart = true := by
  induction actions generalizing state with
  | nil => exact ⟨rfl, hline⟩
  | cons action actions ih =>
    obtain ⟨⟨hnewline, htext⟩, h⟩ := List.forall_mem_cons.1 h
    have hstep : (state.run width action).text = state.text ∧
        (state.run width action).atLineStart = true := by
      cases action with
      | newline => exact absurd rfl hnewline
      | _ => simp_all [State.run, Action.writesText]
    obtain ⟨hrest, hfresh⟩ := ih hstep.2 h
    exact ⟨hrest.trans hstep.1, hfresh⟩

/-- On a line that has text, a text is added as it is. -/
theorem run_write_of_begun (hline : state.atLineStart = false) (text : String) :
    (state.run width (.write text)).text = state.text ++ text := by
  by_cases htext : text = "" <;> simp [State.run, hline, htext]

theorem run_write_begins {text : String} (h : text ≠ "") :
    (state.run width (.write text)).atLineStart = false := by
  cases hline : state.atLineStart <;> simp [State.run, h, hline]

theorem run_freshLine_freshLine :
    (state.run width .freshLine).run width .freshLine = state.run width .freshLine := by
  cases hline : state.atLineStart <;> simp [State.run, hline]

end State

theorem render_concat (width : UInt64) (actions : List Action) (action : Action) :
    render width (actions ++ [action]) =
      ((actions.foldl (State.run width) {}).run width action).text := by
  rw [render, List.foldl_append]
  rfl

/-- **Layouts are determined by their histories.**  What is laid out is what the actions add, each
by its history: texts as they are, blanks before the first text of a line as many as its level and
the width say, and line ends.  So the text only grows; on a line without text there are no blanks;
past a line break inside a text nothing is put in, neither into this text nor before the next one on
the line; and to make a line fresh twice is to make it fresh. -/
theorem layouts_follow_their_histories (width : UInt64) (actions : List Action) :
    (FitsWords width [] actions → render width actions = additions width.toNat [] actions) ∧
    (∀ more, ∃ out, render width (actions ++ more) = render width actions ++ out) ∧
    (∀ middle, hasText actions = false →
      (∀ action ∈ middle, action ≠ .newline ∧ action.writesText = false) →
      render width (actions ++ middle ++ [.newline]) = render width actions ++ "\n") ∧
    (∀ front back middle next, (∀ action ∈ middle, action.endsLine = false) →
      let begun := actions ++ [Action.write (front ++ "\n" ++ back)]
      render width begun = render width (actions ++ [.write (front ++ "\n")]) ++ back ∧
      render width (begun ++ middle ++ [.write next]) = render width (begun ++ middle) ++ next) ∧
    (∀ more, render width (actions ++ [.freshLine, .freshLine] ++ more) =
      render width (actions ++ [.freshLine] ++ more)) := by
  refine ⟨fun hfit => ?_, fun more => ?_, fun middle hline hquiet => ?_,
    fun front back middle next hmiddle => ⟨?_, ?_⟩, fun more => ?_⟩
  · have htext := State.Follows.new.foldl_text hfit
    rwa [String.empty_append] at htext
  · simp only [render, List.foldl_append]
    exact State.foldl_run_text width _ more
  · have hfresh : (actions.foldl (State.run width) {}).atLineStart = true := by
      rw [(follows_foldl width actions).line, hline]
      rfl
    rw [render_concat, List.foldl_append]
    exact congrArg (· ++ "\n") (State.foldl_quiet hfresh hquiet).1
  · have hbegun : front ++ "\n" ≠ "" := by simp
    rw [render_concat, render_concat, ← State.run_write_append,
      State.run_write_of_begun (State.run_write_begins hbegun)]
  · have hbegun : Action.writesText (.write (front ++ "\n" ++ back)) = true := by
      simp [Action.writesText]
    have htext : hasText (actions ++ [Action.write (front ++ "\n" ++ back)]) = true := by
      simp [hasText_concat, hbegun, Action.endsLine]
    rw [render_concat, State.run_write_of_begun]
    · rfl
    · rw [(follows_foldl width _).line, hasText_append htext hmiddle]
      rfl
  · simp only [render, List.foldl_append, List.foldl_cons, List.foldl_nil,
      State.run_freshLine_freshLine]

/-- A dedent at level zero does not count, and the second line of a text is not indented. -/
theorem layout_of_text_with_lines :
    let actions : List Action := [.dedent, .indent, .write "", .write "a\nb\n", .write "c",
      .freshLine, .freshLine, .indent, .write "d"]
    FitsWords 3 [] actions ∧ render 3 actions = "   a\nb\nc\n      d" := by
  intro actions
  have hfit : FitsWords 3 [] actions := fitsWords_of_length (by decide)
  refine ⟨hfit, ((layouts_follow_their_histories 3 actions).1 hfit).trans ?_⟩
  decide +kernel

end Rebind.Layout
