import Rebind.Unicode.Visible

/-!
# Texts displayed in quotes

A text is displayed in double quotes, with everything that does not show on its own replaced by
an escape.
-/

namespace Rebind.Text

/-- A number in lower-case hexadecimal digits. -/
def hexDigits (n : Nat) : String :=
  String.ofList (Nat.toDigits 16 n)

/-- The display of one character. -/
def displayedChar (c : Char) : String :=
  if c = '"' then "\\\""
  else if c = '\\' then "\\\\"
  else if c = '\n' then "\\n"
  else if c = '\r' then "\\r"
  else if c = '\t' then "\\t"
  else if c.toNat = 0 then "\\0"
  else if Unicode.isVisible c then String.singleton c
  else "\\u\x7b" ++ hexDigits c.toNat ++ "\x7d"

/-- The display of a text. -/
def displayed (text : String) : String :=
  "\"" ++ String.join (text.toList.map displayedChar) ++ "\""

end Rebind.Text
