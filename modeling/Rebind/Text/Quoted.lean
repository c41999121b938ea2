/-!
# String literals in double quotes

The characters that cannot stand in a literal as they are, or would end it, are escaped: the
quote, the backslash and the two separators that end a line.
-/

namespace Rebind.Text

/-- The form of one character inside a literal. -/
def quotedChar (c : Char) : List Char :=
  if c = '"' then ['\\', '"']
  else if c = '\\' then ['\\', '\\']
  else if c = '\u2028' then "\\u2028".toList
  else if c = '\u2029' then "\\u2029".toList
  else [c]

/-- A text as a literal in double quotes. -/
def quoted (text : String) : String :=
  String.ofList ('"' :: (text.toList.flatMap quotedChar ++ ['"']))

theorem toList_quoted (text : String) :
    (quoted text).toList = '"' :: (text.toList.flatMap quotedChar ++ ['"']) :=
  String.toList_ofList

end Rebind.Text
