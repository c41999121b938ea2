import Rebind.Text.Blank

/-!
# Words written by hand

A word in a setting is read without the blanks around it and without regard to case.
-/

namespace Rebind.Text

/-- The lower case of a Latin letter.  No other character turns into a letter of the words that
are compared in lower case. -/
def lowerLatin (c : Char) : Char :=
  if 'A' ≤ c && c ≤ 'Z' then Char.ofNat (c.toNat + 32) else c

/-- A text without blanks at its ends, in lower case. -/
def normalizedWord (text : String) : String :=
  String.ofList ((trim text.toList).map lowerLatin)

end Rebind.Text
