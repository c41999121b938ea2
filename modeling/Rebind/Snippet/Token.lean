import Rebind.Snippet.Fault
import Rebind.Text.Surrogate
import Rebind.Unicode.Identifier

/-!
# Tokens of a snippet

`Lexeme.scan` reads the next token of a text, past blanks and comments.  Two kinds of token depend
on what the grammar is ready for, so they have scans of their own: a slash is a division unless
`Lexeme.scanRegularExpression` rereads it, and a closing brace is a bracket unless
`Lexeme.scanTemplatePart` rereads it as the go-on of a template.
-/

namespace Rebind.Snippet

open Rebind.Text (Span byteSize addCode areCharacters)
open Rebind.Unicode (isNameStart isNamePart isAsciiDigit)

/-- What a token is. -/
inductive Token where
  /-- An identifier name or keyword, decoded, and whether an escape occurs in it. -/
  | word (name : String) (escaped : Bool)
  /-- A name after `#`. -/
  | privateName (name : String)
  | punctuator (text : String)
  | number
  /-- A string literal and its value.  `sound` says that no half of a surrogate pair stands alone
  in it; such a half counts as the character zero in the value. -/
  | string (value : String) (sound : Bool)
  /-- A part of a template, up to a substitution or to the closing mark.  `sound` says that all
  its escapes have a value. -/
  | template (closed sound : Bool)
  | regularExpression
  | endOfInput
  deriving Repr, DecidableEq, Inhabited

/-- A token, where it stands, and the text from it on and past it. -/
structure Lexeme where
  token : Token
  /-- The offset of its first character. -/
  start : Nat
  /-- The offset past its last character. -/
  stop : Nat
  /-- Whether a line break lies between the token before and this one. -/
  afterBreak : Bool
  /-- The text from the token on. -/
  here : List Char
  /-- The text past the token. -/
  rest : List Char
  deriving Repr, Inhabited

/-! ## Classes of characters -/

/-- Whether the character ends a line. -/
def isLineBreak (c : Char) : Bool :=
  c == '\n' || c == '\r' || c == '\u2028' || c == '\u2029'

/-- Whether the character separates tokens without ending a line. -/
def isSpace (c : Char) : Bool :=
  c == ' ' || c == '\t' || c == '\u000b' || c == '\u000c' || c == '\u00a0' || c == '\ufeff' ||
    c == '\u1680' || ('\u2000' ≤ c && c ≤ '\u200a') || c == '\u202f' || c == '\u205f' ||
    c == '\u3000'

/-- The value of a hexadecimal digit. -/
def hexDigit? (c : Char) : Option Nat :=
  if '0' ≤ c && c ≤ '9' then some (c.toNat - '0'.toNat)
  else if 'a' ≤ c && c ≤ 'f' then some (c.toNat - 'a'.toNat + 10)
  else if 'A' ≤ c && c ≤ 'F' then some (c.toNat - 'A'.toNat + 10)
  else none

/-- Whether the character is a hexadecimal digit. -/
def isHexDigit (c : Char) : Bool := (hexDigit? c).isSome

/-- The value of a run of hexadecimal digits. -/
def hexValue (digits : List Char) : Nat :=
  digits.foldl (fun n c => n * 16 + (hexDigit? c).getD 0) 0

/-- Whether the character is an octal digit. -/
def isOctalDigit (c : Char) : Bool := '0' ≤ c && c ≤ '7'

/-! ## Blanks and comments -/

/-- What the reader of blanks is inside of. -/
inductive Gap where
  | blank
  /-- A slash that starts a comment if another slash or a star follows. -/
  | slash
  | lineComment
  /-- A comment that goes on to a star and a slash, with the offset at which it starts and whether
  a star comes last so far. -/
  | blockComment (start : Nat) (afterStar : Bool)

/-- Skips blanks and comments.  The answer is the offset of the next token, whether a line break
was passed, and the text from the token on.  Past a slash `offset` is still that of the slash. -/
def skipGap (gap : Gap) (offset : Nat) (broken : Bool) (cs : List Char) :
    Except LocatedFault (Nat × Bool × List Char) :=
  match cs, gap with
  | [], .blockComment start _ => throw ⟨.unterminatedComment, ⟨start, offset⟩⟩
  | [], .slash => pure (offset, broken, ['/'])
  | [], _ => pure (offset, broken, [])
  | c :: cs, .blank =>
    if isSpace c then skipGap .blank (offset + c.utf8Size) broken cs
    else if isLineBreak c then skipGap .blank (offset + c.utf8Size) true cs
    else if c == '/' then skipGap .slash offset broken cs
    else pure (offset, broken, c :: cs)
  | c :: cs, .slash =>
    if c == '/' then skipGap .lineComment (offset + 2) broken cs
    else if c == '*' then skipGap (.blockComment offset false) (offset + 2) broken cs
    else pure (offset, broken, '/' :: c :: cs)
  | c :: cs, .lineComment =>
    if isLineBreak c then skipGap .blank (offset + c.utf8Size) true cs
    else skipGap .lineComment (offset + c.utf8Size) broken cs
  | c :: cs, .blockComment start afterStar =>
    if afterStar && c == '/' then skipGap .blank (offset + 1) broken cs
    else
      skipGap (.blockComment start (c == '*')) (offset + c.utf8Size) (broken || isLineBreak c) cs

/-! ## Names -/

/-- An escape of a code point, read past its backslash: the code point, the number of characters
read, and the text past them. -/
def codePointEscape? : List Char → Option (Nat × Nat × List Char)
  | 'u' :: '{' :: cs =>
    let digits := cs.takeWhile isHexDigit
    match cs.dropWhile isHexDigit with
    | '}' :: rest =>
      if digits.isEmpty || hexValue digits > 0x10ffff then none
      else some (hexValue digits, digits.length + 3, rest)
    | _ => none
  | 'u' :: a :: b :: c :: d :: rest =>
    if [a, b, c, d].all isHexDigit then some (hexValue [a, b, c, d], 5, rest) else none
  | _ => none

theorem length_lt_of_codePointEscape? {cs rest : List Char} {value width : Nat}
    (h : codePointEscape? cs = some (value, width, rest)) : rest.length < cs.length := by
  unfold codePointEscape? at h
  split at h
  · next cs =>
    simp only at h
    split at h
    · next tail hdrop =>
      split at h
      · simp at h
      · have hle := (List.dropWhile_sublist isHexDigit (l := cs)).length_le
        rw [hdrop] at hle
        cases h
        simp only [List.length_cons] at hle ⊢
        omega
    · simp at h
  · split at h
    · cases h
      simp only [List.length_cons]
      omega
    · simp at h
  · simp at h

/-- The go-on of a name from the offset: the name in reverse, whether an escape occurs, the offset
past it and the text past it.  `none` if an escape in it gives no character of a name. -/
def scanName (offset : Nat) (name : List Char) (escaped : Bool) (cs : List Char) :
    Option (String × Bool × Nat × List Char) :=
  let fits : Char → Bool := if name.isEmpty then isNameStart else isNamePart
  match cs with
  | [] => some (String.ofList name.reverse, escaped, offset, [])
  | '\\' :: more =>
    match h : codePointEscape? more with
    | some (value, width, rest) =>
      let c := Char.ofNat value
      if value == c.toNat && fits c then
        scanName (offset + 1 + width) (c :: name) true rest
      else none
    | none => none
  | c :: more =>
    if fits c then scanName (offset + c.utf8Size) (c :: name) escaped more
    else some (String.ofList name.reverse, escaped, offset, c :: more)
termination_by cs.length
decreasing_by
  · have := length_lt_of_codePointEscape? h
    simp only [List.length_cons]
    omega
  · simp

/-! ## Numbers -/

/-- A run of digits in which single underscores may stand between two digits: the number of
characters read and the text past them. -/
def scanDigits (isDigit : Char → Bool) (afterDigit : Bool) (count : Nat) :
    List Char → Nat × List Char
  | '_' :: c :: cs =>
    if afterDigit && isDigit c then scanDigits isDigit true (count + 2) cs
    else (count, '_' :: c :: cs)
  | c :: cs =>
    if isDigit c then scanDigits isDigit true (count + 1) cs else (count, c :: cs)
  | [] => (count, [])

/-- The exponent of a decimal number, if there is one.  `none` if it has no digits. -/
def scanExponent (count : Nat) : List Char → Option (Nat × List Char)
  | [] => some (count, [])
  | e :: cs =>
    if e == 'e' || e == 'E' then
      let (signs, digits) := match cs with
        | '+' :: more => (1, more)
        | '-' :: more => (1, more)
        | more => (0, more)
      match scanDigits isAsciiDigit false 0 digits with
      | (0, _) => none
      | (n, rest) => some (count + 1 + signs + n, rest)
    else some (count, e :: cs)

/-- The part of a decimal number past its whole digits. -/
def scanFraction (count : Nat) : List Char → Option (Nat × List Char)
  | '.' :: cs =>
    let (n, rest) := scanDigits isAsciiDigit false 0 cs
    scanExponent (count + 1 + n) rest
  | cs => scanExponent count cs

/-- A number with the mark of a big integer allowed after its digits. -/
def scanWhole (isDigit : Char → Bool) (count : Nat) (cs : List Char) :
    Option (Nat × List Char) :=
  match scanDigits isDigit false 0 cs with
  | (0, _) => none
  | (n, 'n' :: rest) => some (count + n + 1, rest)
  | (n, rest) => some (count + n, rest)

/-- The longest beginning of a text that is a number, whatever follows: the number of characters
read, all ASCII, and the text past them. -/
def scanNumeral? (cs : List Char) : Option (Nat × List Char) :=
  match cs with
  | '0' :: 'x' :: more | '0' :: 'X' :: more => scanWhole isHexDigit 2 more
  | '0' :: 'o' :: more | '0' :: 'O' :: more => scanWhole isOctalDigit 2 more
  | '0' :: 'b' :: more | '0' :: 'B' :: more =>
    scanWhole (fun c => c == '0' || c == '1') 2 more
  | '0' :: 'n' :: more => some (2, more)
  | '0' :: c :: more =>
    if isAsciiDigit c then
      let digits := (c :: more).takeWhile isAsciiDigit
      let rest := (c :: more).dropWhile isAsciiDigit
      if digits.all isOctalDigit then some (1 + digits.length, rest)
      else scanFraction (1 + digits.length) rest
    else scanFraction 1 (c :: more)
  | '.' :: _ => scanFraction 0 cs
  | _ =>
    match scanDigits isAsciiDigit false 0 cs with
    | (n, 'n' :: rest) => some (n + 1, rest)
    | (n, rest) => scanFraction n rest

/-- The number at the head of a text, which no part of a name follows. -/
def scanNumber? (cs : List Char) : Option (Nat × List Char) := do
  let (count, rest) ← scanNumeral? cs
  match rest with
  | c :: _ => if isNamePart c || c == '\\' then none else some (count, rest)
  | [] => some (count, rest)

/-! ## Strings and templates -/

/-- The value of a single-character escape. -/
def simpleEscape (c : Char) : Char :=
  match c with
  | 'n' => '\n'
  | 't' => '\t'
  | 'r' => '\r'
  | 'b' => '\u0008'
  | 'f' => '\u000c'
  | 'v' => '\u000b'
  | c => c

/-- What stands at one place of a string literal. -/
inductive StringStep where
  /-- The closing mark, with the text past it. -/
  | close (rest : List Char)
  /-- A code of the value, the bytes read and the text past them. -/
  | code (value : Nat) (width : Nat) (rest : List Char)
  /-- A line break that an escape hides. -/
  | continuation (width : Nat) (rest : List Char)
  /-- The literal stops without its closing mark, past so many bytes. -/
  | unterminated (width : Nat)
  | badEscape (width : Nat)

/-- The octal escape at the head of a text: its value and the number of digits. -/
def octalEscape (cs : List Char) : Nat × Nat :=
  let limit := if cs.head?.any (fun c => c ≤ '3') then 3 else 2
  let digits := (cs.take limit).takeWhile isOctalDigit
  (digits.foldl (fun n c => n * 8 + (c.toNat - '0'.toNat)) 0, digits.length)

/-- Reads an escape, past its backslash. -/
def stringEscape (cs : List Char) : StringStep :=
  match cs with
  | [] => .unterminated 1
  | '\r' :: '\n' :: rest => .continuation 3 rest
  | 'x' :: a :: b :: rest =>
    if isHexDigit a && isHexDigit b then .code (hexValue [a, b]) 4 rest
    else .badEscape 2
  | 'x' :: _ => .badEscape 2
  | 'u' :: _ =>
    match codePointEscape? cs with
    | some (value, width, rest) => .code value (1 + width) rest
    | none => .badEscape 2
  | c :: rest =>
    if isLineBreak c then .continuation (1 + c.utf8Size) rest
    else if isOctalDigit c then
      let (value, count) := octalEscape cs
      .code value (1 + count) (cs.drop count)
    else .code (simpleEscape c).toNat (1 + c.utf8Size) rest

/-- Reads one place of a string literal that `quote` closes. -/
def stringStep (quote : Char) : List Char → StringStep
  | [] => .unterminated 0
  | '\\' :: cs => stringEscape cs
  | c :: cs =>
    if c == quote then .close cs
    else if c == '\n' || c == '\r' then .unterminated 1
    else .code c.toNat c.utf8Size cs

/-- The text that a step leaves is shorter than the text it reads. -/
private def StringStep.rest? : StringStep → Option (List Char)
  | .code _ _ rest | .continuation _ rest => some rest
  | _ => none

theorem octalEscape_count_pos {c : Char} (cs : List Char) (h : isOctalDigit c = true) :
    0 < (octalEscape (c :: cs)).2 := by
  by_cases hc : c ≤ '3' <;> simp [octalEscape, hc, h]

private theorem stringEscape_rest_lt {cs rest : List Char}
    (h : (stringEscape cs).rest? = some rest) : rest.length < cs.length := by
  unfold stringEscape at h
  split at h
  · simp [StringStep.rest?] at h
  · cases h
    simp only [List.length_cons]
    omega
  · split at h
    · cases h
      simp only [List.length_cons]
      omega
    · simp [StringStep.rest?] at h
  · simp [StringStep.rest?] at h
  · split at h
    · next value width tail hesc =>
      cases h
      exact length_lt_of_codePointEscape? hesc
    · simp [StringStep.rest?] at h
  · next c tail _ _ _ _ =>
    split at h
    · cases h
      simp
    · split at h
      · next hoct =>
        have hpos := octalEscape_count_pos tail hoct
        simp only [StringStep.rest?, Option.some.injEq] at h
        rw [← h, List.length_drop, List.length_cons]
        omega
      · cases h
        simp

private theorem stringStep_rest_lt {quote : Char} {cs rest : List Char}
    (h : (stringStep quote cs).rest? = some rest) : rest.length < cs.length := by
  unfold stringStep at h
  split at h
  · simp [StringStep.rest?] at h
  · next tail =>
    have := stringEscape_rest_lt h
    simp only [List.length_cons]
    omega
  · split at h
    · simp [StringStep.rest?] at h
    · split at h
      · simp [StringStep.rest?] at h
      · cases h
        simp

/-- Reads a string literal past its opening mark, which stands at `start`: the codes of its value
in reverse are `codes` so far.  The answer is the token, the offset past the literal and the text
past it. -/
def scanString (quote : Char) (start offset : Nat) (codes : List Nat) (cs : List Char) :
    Except LocatedFault (Token × Nat × List Char) :=
  match h : stringStep quote cs with
  | .close rest =>
    let value := String.ofList (codes.reverse.map Char.ofNat)
    pure (.string value (areCharacters codes), offset + 1, rest)
  | .code n width rest => scanString quote start (offset + width) (addCode n codes) rest
  | .continuation width rest => scanString quote start (offset + width) codes rest
  | .unterminated width => throw ⟨.unterminatedString, ⟨start, offset + width⟩⟩
  | .badEscape width => throw ⟨.invalidEscape, ⟨offset, offset + width⟩⟩
termination_by cs.length
decreasing_by
  · exact stringStep_rest_lt (by rw [h]; rfl)
  · exact stringStep_rest_lt (by rw [h]; rfl)

/-- Whether the escape past a backslash has a value in a template. -/
def isTemplateEscape (cs : List Char) : Bool :=
  match cs with
  | 'x' :: a :: b :: _ => isHexDigit a && isHexDigit b
  | 'x' :: _ => false
  | 'u' :: _ => (codePointEscape? cs).isSome
  | '0' :: c :: _ => !isAsciiDigit c
  | c :: _ => !(isAsciiDigit c && c != '0')
  | [] => true

/-- Reads a part of a template from past its opening mark: whether the closing mark ends it and
not a substitution, whether its escapes have values, the offset past it and the text past it. -/
def scanTemplate (start offset : Nat) (sound : Bool) :
    List Char → Except LocatedFault (Bool × Bool × Nat × List Char)
  | [] => throw ⟨.unterminatedString, ⟨start, offset⟩⟩
  | '\x60' :: cs => pure (true, sound, offset + 1, cs)
  | '$' :: '{' :: cs => pure (false, sound, offset + 2, cs)
  | '\\' :: c :: cs =>
    scanTemplate start (offset + 1 + c.utf8Size) (sound && isTemplateEscape (c :: cs)) cs
  | c :: cs => scanTemplate start (offset + c.utf8Size) sound cs

/-! ## Regular expressions -/

/-- Reads the body of a regular expression, past its opening slash, up to past its closing one. -/
def scanRegExpBody (start offset : Nat) (inClass : Bool) :
    List Char → Except LocatedFault (Nat × List Char)
  | [] => throw ⟨.unterminatedRegularExpression, ⟨start, offset⟩⟩
  | '\\' :: c :: cs =>
    if isLineBreak c then
      throw ⟨.unterminatedRegularExpression, ⟨start, offset + 1 + c.utf8Size⟩⟩
    else scanRegExpBody start (offset + 1 + c.utf8Size) inClass cs
  | c :: cs =>
    if isLineBreak c then
      throw ⟨.unterminatedRegularExpression, ⟨start, offset + c.utf8Size⟩⟩
    else if c == '/' && !inClass then pure (offset + 1, cs)
    else
      let inClass := if c == '[' then true else if c == ']' then false else inClass
      scanRegExpBody start (offset + c.utf8Size) inClass cs

/-! ## Tokens -/

/-- The punctuators, longer ones before their beginnings. -/
def punctuators : List String :=
  [">>>=", "...", "===", "!==", "**=", "<<=", ">>=", ">>>", "&&=", "||=", "??=", "=>", "==",
    "!=", "<=", ">=", "&&", "||", "??", "?.", "++", "--", "+=", "-=", "*=", "/=", "%=", "&=",
    "|=", "^=", "<<", ">>", "**", "\x7b", "\x7d", "(", ")", "[", "]", ".", ";", ",", "<", ">",
    "+", "-", "*", "/", "%", "&", "|", "^", "!", "~", "?", ":", "=", "@"]

/-- The longest punctuator at the head of a text.  A question mark and a point are one only if no
digit follows. -/
def punctuator? (cs : List Char) : Option String :=
  let fits : List Char → String → Bool := fun cs p =>
    p.toList.isPrefixOf cs &&
      (p != "?." || !((cs.drop 2).head?.any isAsciiDigit))
  punctuators.find? (fits cs)

/-- The token at the head of a text that starts with no blank, the offset past it and the text
past it. -/
def scanToken (start : Nat) (cs : List Char) :
    Except LocatedFault (Token × Nat × List Char) :=
  match cs with
  | [] => pure (.endOfInput, start, [])
  | '"' :: rest => scanString '"' start (start + 1) [] rest
  | '\'' :: rest => scanString '\'' start (start + 1) [] rest
  | '\x60' :: rest => do
    let (closed, sound, stop, rest) ← scanTemplate start (start + 1) true rest
    pure (.template closed sound, stop, rest)
  | '#' :: rest =>
    match scanName (start + 1) [] false rest with
    | some (name, _, stop, rest) =>
      if name.isEmpty then throw ⟨.invalidCharacter, ⟨start, start + 1⟩⟩
      else pure (.privateName name, stop, rest)
    | none => throw ⟨.invalidEscape, ⟨start, start + 1⟩⟩
  | c :: rest =>
    if isAsciiDigit c || (c == '.' && rest.head?.any isAsciiDigit) then
      match scanNumber? cs with
      | some (count, rest) => pure (.number, start + count, rest)
      | none => throw ⟨.invalidNumber, ⟨start, start + 1⟩⟩
    else if isNameStart c || c == '\\' then
      match scanName start [] false cs with
      | some (name, escaped, stop, rest) => pure (.word name escaped, stop, rest)
      | none => throw ⟨.invalidEscape, ⟨start, start + 1⟩⟩
    else
      match punctuator? cs with
      | some p => pure (.punctuator p, start + p.length, cs.drop p.length)
      | none => throw ⟨.invalidCharacter, ⟨start, start + c.utf8Size⟩⟩

namespace Lexeme

/-- The next token of a text that goes on at an offset. -/
def scan (offset : Nat) (cs : List Char) : Except LocatedFault Lexeme := do
  let (start, afterBreak, here) ← skipGap .blank offset false cs
  let (token, stop, rest) ← scanToken start here
  pure { token, start, stop, afterBreak, here, rest }

/-- Rereads a token that starts with a slash as a regular expression. -/
def scanRegularExpression (slash : Lexeme) : Except LocatedFault Lexeme := do
  let (bodyStop, rest) ← scanRegExpBody slash.start (slash.start + 1) false (slash.here.drop 1)
  let flags := rest.takeWhile isNamePart
  let stop := bodyStop + byteSize flags
  if flags.all ("dgimsuvy".toList.contains ·) && flags.Nodup then
    pure { slash with token := .regularExpression, stop, rest := rest.drop flags.length }
  else throw ⟨.invalidFlag, ⟨bodyStop, stop⟩⟩

/-- Rereads a closing brace as the end of a substitution, together with the part of the template
that follows. -/
def scanTemplatePart (brace : Lexeme) : Except LocatedFault Lexeme := do
  let (closed, sound, stop, rest) ←
    scanTemplate brace.start (brace.start + 1) true (brace.here.drop 1)
  pure { brace with token := .template closed sound, stop, rest }

/-- The first token of a snippet.  A first line that starts with `#!` is skipped. -/
def first (source : List Char) : Except LocatedFault Lexeme := do
  match source with
  | '#' :: '!' :: cs =>
    let (start, _, here) ← skipGap .lineComment 2 false cs
    let lexeme ← scan start here
    pure { lexeme with afterBreak := true }
  | cs => scan 0 cs

end Lexeme

end Rebind.Snippet
