import Rebind.Template

/-!
# Laying out a template from any state

A template is laid out onto a text under construction.  Steps only ever append, so what a template
adds can be spoken of by itself, and laying out two templates one after the other is laying out
their concatenation (`layOut_append`).
-/

namespace Rebind

open Rebind.Layout

/-! ## Indentation -/

/-- Without an overflow the blanks before a line are as many as the product says. -/
theorem Layout.blanks_eq {width : UInt64} {level : Nat} (h : level * width.toNat < UInt64.size) :
    blanks width level = level * width.toNat := by
  rw [blanks, UInt64.toNat_mul, UInt64.toNat_ofNat', Nat.mod_mul_mod]
  exact Nat.mod_eq_of_lt h

theorem Layout.indentation_eq {width : UInt64} {level : Nat}
    (h : level * width.toNat < UInt64.size) :
    indentation width level = "".pushn ' ' (level * width.toNat) := by
  rw [indentation, blanks_eq h]

/-! ## One action -/

/-- An action only appends to the text. -/
theorem Layout.State.run_text (width : UInt64) (state : State) (action : Action) :
    ∃ out, (state.run width action).text = state.text ++ out := by
  cases action with
  | write text =>
    simp only [State.run]
    split
    · exact ⟨"", by simp⟩
    · split
      · exact ⟨_, String.append_assoc⟩
      · exact ⟨_, rfl⟩
  | newline => exact ⟨_, rfl⟩
  | freshLine =>
    simp only [State.run]
    split
    · exact ⟨"", by simp⟩
    · exact ⟨_, rfl⟩
  | indent => exact ⟨"", by simp [State.run]⟩
  | dedent => exact ⟨"", by simp [State.run]⟩

/-- Actions only append to the text. -/
theorem Layout.State.foldl_run_text (width : UInt64) (state : State) (actions : List Action) :
    ∃ out, (actions.foldl (State.run width) state).text = state.text ++ out := by
  induction actions generalizing state with
  | nil => exact ⟨"", by simp⟩
  | cons action actions ih =>
    obtain ⟨first, hfirst⟩ := State.run_text width state action
    obtain ⟨rest, hrest⟩ := ih (state.run width action)
    refine ⟨first ++ rest, ?_⟩
    rw [List.foldl_cons, hrest, hfirst, String.append_assoc]

/-- The blanks that come before the next text. -/
def Layout.State.margin (width : UInt64) (state : State) : String :=
  if state.atLineStart then indentation width state.level else ""

theorem Layout.State.run_write_of_ne {width : UInt64} {state : State} {text : String}
    (h : text ≠ "") :
    state.run width (.write text) =
      { state with text := state.text ++ (state.margin width ++ text), atLineStart := false } := by
  have hne : text.isEmpty = false := by simpa using h
  cases hstart : state.atLineStart <;>
    simp [State.run, State.margin, hne, hstart, String.append_assoc]

/-- A text is appended after the blanks of its line, if it begins one. -/
theorem Layout.State.run_write (width : UInt64) (state : State) (text : String) :
    ∃ blanks, (state.run width (.write text)).text =
      state.text ++ ("".pushn ' ' blanks ++ text) := by
  have hnone : "".pushn ' ' 0 = "" := rfl
  by_cases htext : text = ""
  · exact ⟨0, by simp [State.run, htext, hnone]⟩
  · rw [State.run_write_of_ne htext]
    unfold State.margin
    split
    · exact ⟨_, rfl⟩
    · exact ⟨0, rfl⟩

/-- Two texts one after the other are one text. -/
theorem Layout.State.run_write_append (width : UInt64) (state : State) (front back : String) :
    (state.run width (.write front)).run width (.write back) =
      state.run width (.write (front ++ back)) := by
  by_cases hfront : front = ""
  · simp [hfront, State.run]
  · by_cases hback : back = ""
    · simp [hback, State.run]
    · cases hstart : state.atLineStart <;>
        simp [State.run, hfront, hback, hstart, String.append_assoc]

namespace Template

theorem write_append (front back : Fragment) :
    write (front ++ back) = write front ++ write back :=
  List.map_append

/-- What becomes of a text under construction when a template is laid out onto it. -/
def layOut (filling : Filling) (source : List Char) (state : State) (template : Template) : State :=
  (template.flatMap (Step.fill filling source)).foldl (State.run filling.indentWidth) state

variable {filling : Filling} {source : List Char} {state : State}

theorem code_eq_layOut (t : Template) : t.code filling source = (t.layOut filling source {}).text :=
  rfl

@[simp] theorem layOut_nil : layOut filling source state [] = state := rfl

theorem layOut_append (t u : Template) :
    layOut filling source state (t ++ u) =
      layOut filling source (layOut filling source state t) u := by
  simp only [layOut, List.flatMap_append, List.foldl_append]

/-- A fragment is laid out as the one text that it stands for. -/
theorem layOut_write (fragment : Fragment) :
    layOut filling source state (write fragment) =
      state.run filling.indentWidth
        (.write (String.join (fragment.map (Piece.fill filling source)))) := by
  induction fragment generalizing state with
  | nil => simp [write, State.run]
  | cons piece fragment ih =>
    rw [List.map_cons, String.join_cons, ← State.run_write_append, ← ih]
    rfl

section Text

variable (filling source state)

/-- A template only appends to the text. -/
theorem layOut_text (t : Template) :
    ∃ out, (t.layOut filling source state).text = state.text ++ out :=
  State.foldl_run_text filling.indentWidth state _

/-- A text that is not empty is appended, after the blanks of its line if nothing is written on the
line yet, and the line is begun. -/
theorem layOut_write_text {text : String} (h : text ≠ "") :
    (∃ blanks, (layOut filling source state [Step.write (.text text)]).text =
        state.text ++ (blanks ++ text)) ∧
      (layOut filling source state [Step.write (.text text)]).atLineStart = false := by
  simp only [layOut, List.flatMap_cons, List.flatMap_nil, Step.fill, Piece.fill, List.append_nil,
    List.foldl_cons, List.foldl_nil, State.run_write_of_ne h]
  exact ⟨⟨_, rfl⟩, trivial⟩

end Text

@[simp] theorem layOut_newline :
    layOut filling source state [Step.newline] =
      { state with text := state.text ++ "\n", atLineStart := true } := rfl

/-- A mark and a line break after anything else end the text with the mark and the line break, and
the line is ended. -/
theorem layOut_mark_newline (filling : Filling) (source : List Char) (state : State) (t : Template)
    {mark : String} (h : mark ≠ "") :
    (∃ front, (layOut filling source state (t ++ [Step.write (.text mark), .newline])).text =
        state.text ++ (front ++ (mark ++ "\n"))) ∧
      (layOut filling source state (t ++ [Step.write (.text mark), .newline])).atLineStart =
        true := by
  obtain ⟨out, hout⟩ := layOut_text filling source state t
  obtain ⟨⟨blanks, htext⟩, -⟩ := layOut_write_text filling source (layOut filling source state t) h
  have hsplit : t ++ [Step.write (.text mark), .newline] =
      t ++ ([Step.write (.text mark)] ++ [Step.newline]) := rfl
  rw [hsplit, layOut_append, layOut_append, layOut_newline]
  refine ⟨⟨out ++ blanks, ?_⟩, rfl⟩
  simp only [htext, hout, String.append_assoc]

end Template

end Rebind
