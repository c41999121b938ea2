import Rebind.Text.Span

/-!
# Lines and positions

Lines end at `\n`, `\r\n` and a lone `\r`.  A `LineMap` holds the offsets at which the lines of a
text start, and gives the line and the column of an offset.  Columns count characters.
-/

namespace Rebind.Text

/-- A line and a column, both counted from zero. -/
structure Position where
  line : Nat
  character : Nat
  deriving Repr, DecidableEq, Inhabited

namespace Position

/-- The line counted from one. -/
def lineNumber (p : Position) : Nat := p.line + 1

/-- The column counted from one. -/
def columnNumber (p : Position) : Nat := p.character + 1

end Position

/-- The offsets past the line breaks of a text that starts at `offset`. -/
def breakStops (offset : Nat) : List Char → List Nat
  | [] => []
  | '\r' :: '\n' :: cs => (offset + 2) :: breakStops (offset + 2) cs
  | c :: cs =>
    let next := offset + c.utf8Size
    if c = '\n' ∨ c = '\r' then next :: breakStops next cs else breakStops next cs

/-- The offsets at which the lines of a text start. -/
structure LineMap where
  starts : List Nat
  deriving Repr, DecidableEq, Inhabited

namespace LineMap

/-- The line map of a text. -/
def ofText (text : List Char) : LineMap where
  starts := 0 :: breakStops 0 text

/-- The number of lines. -/
def lineCount (map : LineMap) : Nat := map.starts.length

/-- The offset at which a line starts. -/
def lineStart? (map : LineMap) (line : Nat) : Option Nat := map.starts[line]?

/-- The last line that starts at or before an offset. -/
def lineOf (map : LineMap) (offset : Nat) : Nat :=
  (map.starts.takeWhile (· ≤ offset)).length - 1

/-- The position of an offset in the text of the map.  Past the end it is that of the end, and
inside a character the column is zero. -/
def position (map : LineMap) (offset : Nat) (text : List Char) : Position :=
  let line := map.lineOf offset
  let stop := min offset (byteSize text)
  let start := min ((map.lineStart? line).getD 0) stop
  let span : Span := ⟨start, stop⟩
  let character :=
    if isBoundary start text && isBoundary stop text then (span.slice text).length else 0
  ⟨line, character⟩

/-- The text of a line without what ends it, if there is such a line and its ends cut no
character. -/
def lineText? (map : LineMap) (line : Nat) (text : List Char) : Option (List Char) := do
  let start ← map.lineStart? line
  let stop := (map.lineStart? (line + 1)).getD (byteSize text)
  let shown ← Span.slice? ⟨start, stop⟩ text
  return (shown.reverse.dropWhile fun c => c == '\r' || c == '\n').reverse

end LineMap

end Rebind.Text
