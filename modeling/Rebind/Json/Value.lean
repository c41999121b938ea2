/-!
# JSON values

A value keeps its numbers as they are written and its members in order.
-/

namespace Rebind.Json

/-- A JSON value. -/
inductive Value where
  | null
  | boolean (value : Bool)
  /-- A number, as it is written. -/
  | number (literal : String)
  | string (value : String)
  | array (items : List Value)
  | object (members : List (String × Value))
  deriving Repr, Inhabited

namespace Value

/-- A natural number. -/
def nat (n : Nat) : Value := .number (toString n)

/-- A list of texts. -/
def strings (texts : List String) : Value := .array (texts.map .string)

/-- The last member of a name. -/
def member? (name : String) : Value → Option Value
  | .object members => (members.reverse.find? (·.1 == name)).map (·.2)
  | _ => none

/-- The text of a string. -/
def string? : Value → Option String
  | .string value => some value
  | _ => none

/-- The value of a boolean. -/
def bool? : Value → Option Bool
  | .boolean value => some value
  | _ => none

/-- The items of an array. -/
def items? : Value → Option (List Value)
  | .array items => some items
  | _ => none

/-- The value of a number that is written as plain digits. -/
def nat? : Value → Option Nat
  | .number literal =>
    if !literal.isEmpty && literal.toList.all (fun c => '0' ≤ c && c ≤ '9') then
      some (literal.toList.foldl (fun n c => n * 10 + (c.toNat - '0'.toNat)) 0)
    else none
  | _ => none

end Value

/-! ## Writing -/

/-- Four hexadecimal digits of a code below `0x10000`. -/
def fourDigits (n : Nat) : String :=
  String.ofList ([n / 4096, n / 256, n / 16, n].map fun d => Nat.digitChar (d % 16))

/-- The form of a character inside a string. -/
def writtenChar (c : Char) : String :=
  if c = '"' then "\\\""
  else if c = '\\' then "\\\\"
  else if c = '\n' then "\\n"
  else if c = '\r' then "\\r"
  else if c = '\t' then "\\t"
  else if c = '\u0008' then "\\b"
  else if c = '\u000c' then "\\f"
  else if c.toNat < 0x20 then "\\u" ++ fourDigits c.toNat
  else String.singleton c

/-- A text as a JSON string. -/
def writtenString (text : String) : String :=
  "\"" ++ String.join (text.toList.map writtenChar) ++ "\""

namespace Value

mutual

/-- The value on one line without blanks. -/
def compact : Value → String
  | .null => "null"
  | .boolean true => "true"
  | .boolean false => "false"
  | .number literal => literal
  | .string value => writtenString value
  | .array items => "[" ++ ",".intercalate (compactItems items) ++ "]"
  | .object members => "\x7b" ++ ",".intercalate (compactMembers members) ++ "\x7d"

/-- The items of an array, each on one line. -/
def compactItems : List Value → List String
  | [] => []
  | item :: items => item.compact :: compactItems items

/-- The members of an object, each on one line. -/
def compactMembers : List (String × Value) → List String
  | [] => []
  | (name, value) :: members =>
    (writtenString name ++ ":" ++ value.compact) :: compactMembers members

end

/-- Lines between two brackets, one level deeper; no lines give the brackets alone. -/
def bracketed (opening closing : String) (level : Nat) (lines : List String) : String :=
  let margin (n : Nat) := "\n" ++ "".pushn ' ' (2 * n)
  if lines.isEmpty then opening ++ closing
  else
    opening ++ margin (level + 1) ++ ("," ++ margin (level + 1)).intercalate lines ++
      margin level ++ closing

mutual

/-- The value with one item or member a line, two blanks a level. -/
def pretty (level : Nat) : Value → String
  | .array items => bracketed "[" "]" level (prettyItems (level + 1) items)
  | .object members => bracketed "\x7b" "\x7d" level (prettyMembers (level + 1) members)
  | value => value.compact

/-- The items of an array at a level. -/
def prettyItems (level : Nat) : List Value → List String
  | [] => []
  | item :: items => item.pretty level :: prettyItems level items

/-- The members of an object at a level. -/
def prettyMembers (level : Nat) : List (String × Value) → List String
  | [] => []
  | (name, value) :: members =>
    (writtenString name ++ ": " ++ value.pretty level) :: prettyMembers level members

end

end Value

end Rebind.Json
