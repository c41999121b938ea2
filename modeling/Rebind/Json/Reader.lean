import Rebind.Json.Value
import Rebind.Text.Surrogate

/-!
# Reading JSON

A reader takes the text from where it starts and gives what it has read with the text that is
left.  A strict reader refuses the escape of half of a surrogate pair; a lenient one, meant for
values that nobody looks at, reads it as the replacement character.
-/

namespace Rebind.Json

open Rebind.Text (isHighSurrogate isLowSurrogate pairedCode)

/-- The text past the blanks at its head. -/
def skipBlanks (cs : List Char) : List Char :=
  cs.dropWhile fun c => c == ' ' || c == '\n' || c == '\r' || c == '\t'

/-- The value of a hexadecimal digit. -/
def hexDigit? (c : Char) : Option Nat :=
  if '0' ≤ c && c ≤ '9' then some (c.toNat - '0'.toNat)
  else if 'a' ≤ c && c ≤ 'f' then some (c.toNat - 'a'.toNat + 10)
  else if 'A' ≤ c && c ≤ 'F' then some (c.toNat - 'A'.toNat + 10)
  else none

/-- The value of four hexadecimal digits. -/
def fourDigits? (a b c d : Char) : Option Nat := do
  return (← hexDigit? a) * 4096 + (← hexDigit? b) * 256 + (← hexDigit? c) * 16 + (← hexDigit? d)

/-- The character that an escape with one letter stands for. -/
def letterEscape? : Char → Option Char
  | '"' => some '"'
  | '\\' => some '\\'
  | '/' => some '/'
  | 'b' => some '\u0008'
  | 'f' => some '\u000c'
  | 'n' => some '\n'
  | 'r' => some '\r'
  | 't' => some '\t'
  | _ => none

/-- The rest of a string past its opening quote; `value` is what was read of it, in reverse, and
`high` the first half of a surrogate pair whose second half has to come next. -/
def stringRest (strict : Bool) (high : Option Nat) (value : List Char) :
    List Char → Option (String × List Char)
  | [] => none
  | '\\' :: 'u' :: a :: b :: c :: d :: cs =>
    match fourDigits? a b c d, high with
    | none, _ => none
    | some n, some h =>
      if isLowSurrogate n then
        stringRest strict none (Char.ofNat (pairedCode h n) :: value) cs
      else if strict then none
      else if isHighSurrogate n then stringRest strict (some n) ('\ufffd' :: value) cs
      else stringRest strict none (Char.ofNat n :: '\ufffd' :: value) cs
    | some n, none =>
      if isHighSurrogate n then stringRest strict (some n) value cs
      else if isLowSurrogate n then
        if strict then none else stringRest strict none ('\ufffd' :: value) cs
      else stringRest strict none (Char.ofNat n :: value) cs
  | c :: cs =>
    let pending := if high.isSome then '\ufffd' :: value else value
    if strict && high.isSome then none
    else if c = '"' then some (String.ofList pending.reverse, cs)
    else if c = '\\' then
      match cs with
      | e :: cs =>
        match letterEscape? e with
        | some c => stringRest strict none (c :: pending) cs
        | none => none
      | [] => none
    else if c.toNat < 0x20 then none
    else stringRest strict none (c :: pending) cs

/-- A string from its opening quote on. -/
def string? (strict : Bool) : List Char → Option (String × List Char)
  | '"' :: cs => stringRest strict none [] cs
  | _ => none

/-- Whether a character is a decimal digit. -/
def isDigit (c : Char) : Bool := '0' ≤ c && c ≤ '9'

/-- The digits at the head of a text, at least one, and the text past them. -/
def digits? (cs : List Char) : Option (List Char × List Char) :=
  match cs.takeWhile isDigit with
  | [] => none
  | digits => some (digits, cs.dropWhile isDigit)

/-- The whole part of a number: a zero alone, or digits that do not start with one. -/
def wholePart? : List Char → Option (List Char × List Char)
  | '0' :: cs => if cs.head?.any isDigit then none else some (['0'], cs)
  | cs => digits? cs

/-- The fraction of a number, if there is one. -/
def fraction? : List Char → Option (List Char × List Char)
  | '.' :: cs => (digits? cs).map fun (digits, rest) => ('.' :: digits, rest)
  | cs => some ([], cs)

/-- The exponent of a number, if there is one. -/
def exponent? : List Char → Option (List Char × List Char)
  | e :: cs =>
    if e = 'e' || e = 'E' then
      match cs with
      | '+' :: more => (digits? more).map fun (digits, rest) => (e :: '+' :: digits, rest)
      | '-' :: more => (digits? more).map fun (digits, rest) => (e :: '-' :: digits, rest)
      | more => (digits? more).map fun (digits, rest) => (e :: digits, rest)
    else some ([], e :: cs)
  | [] => some ([], [])

/-- A number, as it is written. -/
def number? (cs : List Char) : Option (String × List Char) := do
  let (sign, cs) := match cs with
    | '-' :: more => (['-'], more)
    | more => ([], more)
  let (whole, cs) ← wholePart? cs
  let (fraction, cs) ← fraction? cs
  let (exponent, cs) ← exponent? cs
  return (String.ofList (sign ++ whole ++ fraction ++ exponent), cs)

/-- The text past a given word at its head. -/
def skipWord? (word : String) (cs : List Char) : Option (List Char) :=
  if word.toList.isPrefixOf cs then some (cs.drop word.length) else none

mutual

/-- A value at the head of a text, which nests at most `n` deep and long. -/
def valueUpTo (strict : Bool) : Nat → List Char → Option (Value × List Char)
  | 0, _ => none
  | n + 1, cs =>
    match cs with
    | '"' :: _ => (string? strict cs).map fun (text, rest) => (.string text, rest)
    | '[' :: more =>
      match skipBlanks more with
      | ']' :: rest => some (.array [], rest)
      | more => itemsUpTo strict n [] more
    | '{' :: more =>
      match skipBlanks more with
      | '}' :: rest => some (.object [], rest)
      | more => membersUpTo strict n [] more
    | 'n' :: _ => (skipWord? "null" cs).map fun rest => (.null, rest)
    | 't' :: _ => (skipWord? "true" cs).map fun rest => (.boolean true, rest)
    | 'f' :: _ => (skipWord? "false" cs).map fun rest => (.boolean false, rest)
    | _ => (number? cs).map fun (literal, rest) => (.number literal, rest)

/-- The items of an array from an item on, after those in `items`, in reverse. -/
def itemsUpTo (strict : Bool) : Nat → List Value → List Char → Option (Value × List Char)
  | 0, _, _ => none
  | n + 1, items, cs => do
    let (item, rest) ← valueUpTo strict n (skipBlanks cs)
    match skipBlanks rest with
    | ',' :: more => itemsUpTo strict n (item :: items) more
    | ']' :: more => return (.array (item :: items).reverse, more)
    | _ => none

/-- The members of an object from a member on, after those in `members`, in reverse. -/
def membersUpTo (strict : Bool) :
    Nat → List (String × Value) → List Char → Option (Value × List Char)
  | 0, _, _ => none
  | n + 1, members, cs => do
    let (name, rest) ← string? strict (skipBlanks cs)
    match skipBlanks rest with
    | ':' :: more =>
      let (value, rest) ← valueUpTo strict n (skipBlanks more)
      match skipBlanks rest with
      | ',' :: more => membersUpTo strict n ((name, value) :: members) more
      | '}' :: more => return (.object ((name, value) :: members).reverse, more)
      | _ => none
    | _ => none

end

/-- The value at the head of a text, past its blanks, and the text past it.  Every nested value and
every step to the next one takes a character, so the length of the text is depth enough. -/
def value? (strict : Bool) (cs : List Char) : Option (Value × List Char) :=
  valueUpTo strict (2 * cs.length + 2) (skipBlanks cs)

/-- The value that a whole text is. -/
def parse? (text : String) : Option Value := do
  let (value, rest) ← value? true text.toList
  if (skipBlanks rest).isEmpty then return value
  none

end Rebind.Json
