/-!
# Laying out lines

A text is laid out by a list of actions: pieces of text, line breaks and changes of the level of
indentation.  A line is indented when the first text is written on it, so a line without text
holds no blanks, and a piece of text with line breaks inside keeps them as they are.
-/

namespace Rebind.Layout

/-- One action on a text under construction. -/
inductive Action where
  /-- Writes a piece of text; the empty piece does nothing. -/
  | write (text : String)
  /-- Ends the line. -/
  | newline
  /-- Ends the line unless nothing is written on it yet. -/
  | freshLine
  | indent
  | dedent
  deriving Repr, DecidableEq, Inhabited

/-- A text under construction. -/
structure State where
  text : String := ""
  level : Nat := 0
  /-- Whether nothing is written on the current line. -/
  atLineStart : Bool := true
  deriving Repr, DecidableEq, Inhabited

/-- The number of blanks before a line.  Levels and widths are words of 64 bits. -/
def blanks (width : UInt64) (level : Nat) : Nat :=
  (UInt64.ofNat level * width).toNat

/-- The blanks before a line. -/
def indentation (width : UInt64) (level : Nat) : String :=
  "".pushn ' ' (blanks width level)

/-- Carries out one action. -/
def State.run (width : UInt64) (state : State) : Action → State
  | .write text =>
    if text.isEmpty then state
    else if state.atLineStart then
      { state with text := state.text ++ indentation width state.level ++ text
                   atLineStart := false }
    else { state with text := state.text ++ text }
  | .newline => { state with text := state.text ++ "\n", atLineStart := true }
  | .freshLine =>
    if state.atLineStart then state
    else { state with text := state.text ++ "\n", atLineStart := true }
  | .indent => { state with level := state.level + 1 }
  | .dedent => { state with level := state.level - 1 }

/-- The text that a list of actions lays out. -/
def render (width : UInt64) (actions : List Action) : String :=
  (actions.foldl (State.run width) {}).text

end Rebind.Layout
