import Rebind.Json.Reader
import Rebind.Options
import Rebind.Text.Word

/-!
# Options as JSON

Options are written as an object with a member for each, or as an array of them in the order of
their declaration.  Options that are left out have their default values.  A text is read from left
to right and refused at the first thing in it that is wrong, so of two faults the first one counts.
-/

namespace Rebind

open Rebind.Json (Value skipBlanks)

/-- Why a text gives no options. -/
inductive OptionsError where
  /-- It is not JSON, or not of the form of options. -/
  | malformed
  /-- A string stands for a boolean and is no word for one. -/
  | invalidBoolean (text : String)
  deriving Repr, DecidableEq, Inhabited

/-- What is said about a string that is no word for a boolean. -/
def OptionsError.cause? : OptionsError → Option String
  | .malformed => none
  | .invalidBoolean text =>
    some ("invalid boolean value: '" ++ text ++ "'. Expected true, false, 'true', or 'false'")

/-- The boolean that a word stands for. -/
def boolOfWord? (text : String) : Option Bool :=
  match Text.normalizedWord text with
  | "true" | "1" | "yes" | "on" => some true
  | "false" | "0" | "no" | "off" => some false
  | _ => none

namespace Options

/-- The options. -/
inductive Field where
  | globalBinding
  | scopeBinding
  | moduleBinding
  | hoistFunctions
  | indentWidth
  deriving Repr, DecidableEq

/-- The options in the order of their declaration. -/
def Field.all : List Field :=
  [.globalBinding, .scopeBinding, .moduleBinding, .hoistFunctions, .indentWidth]

/-- The name of an option. -/
def Field.name : Field → String
  | .globalBinding => "globalBinding"
  | .scopeBinding => "scopeBinding"
  | .moduleBinding => "moduleBinding"
  | .hoistFunctions => "hoistFunctions"
  | .indentWidth => "indentWidth"

/-- The option of a name. -/
def Field.ofName? (name : String) : Option Field :=
  Field.all.find? (·.name == name)

/-- A name given by an option. -/
private def bindingName : Value → Except OptionsError String
  | .string name => .ok name
  | _ => .error .malformed

/-- A boolean, or a word for one. -/
private def switch : Value → Except OptionsError Bool
  | .boolean value => .ok value
  | .string text =>
    match boolOfWord? text with
    | some value => .ok value
    | none => .error (.invalidBoolean text)
  | _ => .error .malformed

/-- A number of blanks that fits a word of 64 bits. -/
private def width (value : Value) : Except OptionsError UInt64 :=
  match value.nat? with
  | some n => if n < UInt64.size then .ok (UInt64.ofNat n) else .error .malformed
  | none => .error .malformed

/-- Gives an option the value that is written. -/
def set (options : Options) (field : Field) (value : Value) : Except OptionsError Options := do
  match field with
  | .globalBinding => return { options with globalBinding := ← bindingName value }
  | .scopeBinding => return { options with scopeBinding := ← bindingName value }
  | .moduleBinding => return { options with moduleBinding := ← bindingName value }
  | .hoistFunctions => return { options with hoistFunctions := ← switch value }
  | .indentWidth => return { options with indentWidth := ← width value }

/-- A string in place of the boolean has to be a word for one. -/
theorem set_hoistFunctions_string (options : Options) (text : String) :
    options.set .hoistFunctions (.string text) =
      match boolOfWord? text with
      | some value => .ok { options with hoistFunctions := value }
      | none => .error (.invalidBoolean text) := by
  simp only [set, switch]
  cases boolOfWord? text <;> rfl

/-- A width is a number below the size of a word. -/
theorem set_indentWidth (options : Options) {value : Value} {n : Nat} (h : value.nat? = some n)
    (hn : n < UInt64.size) :
    options.set .indentWidth value = .ok { options with indentWidth := UInt64.ofNat n } := by
  simp only [set, width, h, if_pos hn]
  rfl

/-- What a reader needs at a place, or the error of a text that does not have it. -/
private def need {α : Type} : Option α → Except OptionsError α
  | some value => .ok value
  | none => .error .malformed

/-- Reads members of an object from one on, for at most so many members.  The options in `seen`
are given already. -/
def decodeMembers (options : Options) (seen : List Field) :
    Nat → List Char → Except OptionsError (Options × List Char)
  | 0, _ => .error .malformed
  | n + 1, cs => do
    let (name, rest) ← need (Json.string? true (skipBlanks cs))
    let field := Field.ofName? name
    if field.any seen.contains then throw .malformed
    match skipBlanks rest with
    | ':' :: more =>
      let (value, rest) ← need (Json.value? field.isSome more)
      let options ← match field with
        | some field => options.set field value
        | none => pure options
      match skipBlanks rest with
      | ',' :: more => decodeMembers options (field.toList ++ seen) n more
      | '\x7d' :: more => return (options, more)
      | _ => throw .malformed
    | _ => throw .malformed

/-- A member is read to its end, then it gives an option its value unless its name is unknown. -/
theorem decodeMembers_succ {options : Options} {seen : List Field} {n : Nat} {name : String}
    {value : Value} {cs rest more left : List Char}
    (hname : Json.string? true (skipBlanks cs) = some (name, rest))
    (hcolon : skipBlanks rest = ':' :: more)
    (hvalue : ∀ strict, Json.value? strict more = some (value, left)) :
    decodeMembers options seen (n + 1) cs = (do
      let field := Field.ofName? name
      if field.any seen.contains then throw .malformed
      let options ← match field with
        | some field => options.set field value
        | none => pure options
      match skipBlanks left with
      | ',' :: more => decodeMembers options (field.toList ++ seen) n more
      | '\x7d' :: more => return (options, more)
      | _ => throw .malformed) := by
  rw [decodeMembers, hname]
  simp only [need, bind, Except.bind, hcolon, hvalue]

/-- Reads items of an array from one on, as the values of the given options. -/
def decodeItems (options : Options) :
    List Field → List Char → Except OptionsError (Options × List Char)
  | [], _ => .error .malformed
  | field :: fields, cs => do
    let (value, rest) ← need (Json.value? true cs)
    let options ← options.set field value
    match skipBlanks rest with
    | ',' :: more => decodeItems options fields more
    | ']' :: more => return (options, more)
    | _ => throw .malformed

/-- The options that a text gives. -/
def decode (text : String) : Except OptionsError Options := do
  let (options, rest) ←
    match skipBlanks text.toList with
    | '{' :: more =>
      match skipBlanks more with
      | '}' :: rest => pure (({} : Options), rest)
      | more => decodeMembers {} [] more.length more
    | '[' :: more =>
      match skipBlanks more with
      | ']' :: rest => pure (({} : Options), rest)
      | more => decodeItems {} Field.all more
    | _ => throw .malformed
  if (skipBlanks rest).isEmpty then return options
  throw .malformed

end Options

end Rebind
