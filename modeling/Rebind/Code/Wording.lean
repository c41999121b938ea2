import Rebind.Template

/-!
# The wording of copied code

Three steps of the printer look at the text of what they copy: blanks are taken off its ends, what
follows the pattern of a parameter is left out if it is blank, and the target of a loop is compared
with a word.  That text has names of host objects in it.  A `Wording` says how the steps are taken:
on the text itself, once the names are known, or on a template, in which they are still open.
-/

namespace Rebind.Code

/-- The text of a fragment. -/
def textOf (filling : Filling) (source : List Char) (fragment : Fragment) : List Char :=
  fragment.flatMap fun piece => (piece.fill filling source).toList

/-- A fragment without the blanks at the start of what it copies first. -/
def trimmed : Fragment → Fragment
  | .copy span :: pieces => .copyTrimmed span :: pieces
  | pieces => pieces

/-- How the printer takes the steps that look at the text of a fragment. -/
class Wording where
  /-- A fragment without the blanks at its ends. -/
  stripped : Fragment → Fragment
  /-- A fragment and, after one blank, another one without the blanks at its ends.  If that is
  blank, it is left out. -/
  followed : Fragment → Fragment → Fragment
  /-- Whether a fragment is a word. -/
  reads : Fragment → String → Bool

namespace Wording

/-- The wording of a template.  What is copied goes from the start of a token to the end of one, so
there are no blanks at its ends but those between the pattern of a parameter and its default value,
and it is a word only if it is written as that word. -/
instance template : Wording where
  stripped fragment := fragment
  followed front back := front ++ [Piece.text " "] ++ trimmed back
  reads fragment word := fragment == [Piece.text word]

/-- The wording of code in which the names are known. -/
@[reducible] def filled (filling : Filling) (source : List Char) : Wording where
  stripped fragment := [Piece.text (String.ofList (Text.trim (textOf filling source fragment)))]
  followed front back :=
    let text := Text.trim (textOf filling source back)
    if text.isEmpty then front else front ++ [Piece.text " ", .text (String.ofList text)]
  reads fragment word := textOf filling source fragment == word.toList

@[simp] theorem stripped_template (fragment : Fragment) : stripped fragment = fragment := rfl

end Wording

end Rebind.Code
