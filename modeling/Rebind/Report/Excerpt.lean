import Rebind.Text.Lines

/-!
# Excerpts of a text

An excerpt is the line at which something shows, and below it a row of marks: blanks up to the
first character of the stretch in question and tildes under the characters of it that are on the
line.  A tab takes four marks.
-/

namespace Rebind.Excerpt

open Rebind.Text (LineMap Position)

/-- The number of marks below a character. -/
def markWidth (c : Char) : Nat :=
  if c = '\t' then 4 else 1

/-- The marks below the characters of a line from the character `index` on: blanks before `first`,
tildes from there on, nothing from `last` on. -/
def marks (first last index : Nat) : List Char → List Char
  | [] => []
  | c :: cs =>
    if last ≤ index then []
    else
      List.replicate (markWidth c) (if index < first then ' ' else '~') ++
        marks first last (index + 1) cs

/-- The character past a stretch of `length` characters, at least one, in a word of 32 bits. -/
def lastMark (first : Nat) (length : UInt32) : Nat :=
  (UInt32.ofNat first + max length 1).toNat

/-- The marks below a line.  There is always a tilde, past the line if need be. -/
def underline (first : Nat) (length : UInt32) (line : List Char) : List Char :=
  let row := marks first (lastMark first length) 0 line
  if row.contains '~' then row else row ++ ['~']

/-- A number in at least three columns. -/
def numberColumn (n : Nat) : String :=
  let digits := toString n
  "".pushn ' ' (3 - digits.length) ++ digits

/-- The two rows of an excerpt, each after a line break, with a style for the marks. -/
def rows (style : String → String) (position : Position) (length : UInt32) (line : List Char) :
    String :=
  "\n  " ++ numberColumn position.lineNumber ++ "   " ++ String.ofList line ++
    "\n        " ++ style (String.ofList (underline position.character length line))

/-- The excerpt of a text at a position, if the text has a line there. -/
def ofText? (style : String → String) (map : LineMap) (position : Position) (length : UInt32)
    (text : List Char) : Option String := do
  let line ← map.lineText? position.line text
  return rows style position length line

end Rebind.Excerpt
