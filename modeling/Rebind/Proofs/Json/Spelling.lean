import Rebind.Json.Reader

/-!
# Texts that spell JSON values

`Spells value cs` says that a text is a value in JSON: with any blanks between its tokens, any
escapes in its strings and numbers as the value has them.  The reader takes every such text to the
value and leaves what follows it, whether it is strict or not (`value?_of_spells`).
-/

namespace Rebind.Json

open Rebind.Text (isHighSurrogate isLowSurrogate not_surrogate pairedCode)

/-! ## Blanks -/

/-- Whether a character may stand between two tokens. -/
def isBlank (c : Char) : Bool :=
  c == ' ' || c == '\n' || c == '\r' || c == '\t'

/-- A text that may stand between two tokens. -/
def IsGap (cs : List Char) : Prop :=
  ∀ c ∈ cs, isBlank c = true

theorem isGap_nil : IsGap [] := by
  simp [IsGap]

theorem skipBlanks_append {gap : List Char} (h : IsGap gap) (cs : List Char) :
    skipBlanks (gap ++ cs) = skipBlanks cs :=
  List.dropWhile_append_of_pos h

/-- Nothing is left of blanks alone. -/
theorem skipBlanks_gap {gap : List Char} (h : IsGap gap) : skipBlanks gap = [] := by
  have hskip := skipBlanks_append h []
  rwa [List.append_nil] at hskip

theorem skipBlanks_cons {c : Char} (h : isBlank c = false) (cs : List Char) :
    skipBlanks (c :: cs) = c :: cs :=
  List.dropWhile_cons_of_neg (by simpa [isBlank] using h)

theorem skipBlanks_skipBlanks (cs : List Char) : skipBlanks (skipBlanks cs) = skipBlanks cs := by
  induction cs with
  | nil => rfl
  | cons c cs ih =>
    cases hc : isBlank c with
    | true =>
      have hgap : IsGap [c] := by simp [IsGap, hc]
      have hskip : skipBlanks (c :: cs) = skipBlanks cs := skipBlanks_append hgap cs
      rw [hskip, ih]
    | false => rw [skipBlanks_cons hc, skipBlanks_cons hc]

/-! ## Strings -/

/-- Whether a text is a form of a character inside a string: the character itself, an escape with
one letter, its code or the codes of its surrogate pair. -/
def isForm (c : Char) : List Char → Bool
  | [d] => d == c && d != '"' && d != '\\' && 0x20 ≤ d.toNat
  | ['\\', e] => letterEscape? e == some c
  | ['\\', 'u', d₁, d₂, d₃, d₄] => fourDigits? d₁ d₂ d₃ d₄ == some c.toNat
  | ['\\', 'u', d₁, d₂, d₃, d₄, '\\', 'u', e₁, e₂, e₃, e₄] =>
    match fourDigits? d₁ d₂ d₃ d₄, fourDigits? e₁ e₂ e₃ e₄ with
    | some high, some low =>
      isHighSurrogate high && isLowSurrogate low && pairedCode high low == c.toNat
    | _, _ => false
  | _ => false

/-- A text consists of forms of given characters. -/
inductive SpellsChars : List Char → List Char → Prop where
  | nil : SpellsChars [] []
  | cons {c : Char} {form text cs : List Char} (head : isForm c form = true)
      (tail : SpellsChars text cs) : SpellsChars (c :: text) (form ++ cs)

/-- A text is a string in quotes. -/
def SpellsString (text : String) (cs : List Char) : Prop :=
  ∃ inner, SpellsChars text.toList inner ∧ cs = '"' :: (inner ++ ['"'])

theorem stringRest_plain (strict : Bool) {c : Char} (hquote : c ≠ '"') (hslash : c ≠ '\\')
    (hcontrol : 0x20 ≤ c.toNat) (value cs : List Char) :
    stringRest strict none value (c :: cs) = stringRest strict none (c :: value) cs := by
  rw [stringRest.eq_def]
  split
  · next heq => cases heq
  · next heq => exact absurd (List.cons.inj heq).1 hslash
  · next heq =>
    obtain ⟨rfl, rfl⟩ := List.cons.inj heq
    simp [hquote, hslash, Nat.not_lt.2 hcontrol]

/-- A form of a character is read as the character. -/
theorem stringRest_of_isForm (strict : Bool) {c : Char} {form : List Char}
    (h : isForm c form = true) (value cs : List Char) :
    stringRest strict none value (form ++ cs) = stringRest strict none (c :: value) cs := by
  unfold isForm at h
  split at h
  · next d =>
    simp only [Bool.and_eq_true, beq_iff_eq, bne_iff_ne, decide_eq_true_eq] at h
    obtain ⟨⟨⟨rfl, hquote⟩, hslash⟩, hcontrol⟩ := h
    exact stringRest_plain strict hquote hslash hcontrol value cs
  · next e =>
    have hletter : letterEscape? e = some c := by simpa using h
    have hu : e ≠ 'u' := by
      rintro rfl
      cases hletter
    simp [stringRest, hu, hletter]
  · next d₁ d₂ d₃ d₄ =>
    have hcode : fourDigits? d₁ d₂ d₃ d₄ = some c.toNat := by simpa using h
    obtain ⟨hhigh, hlow⟩ := not_surrogate c
    simp [stringRest, hcode, hhigh, hlow]
  · next d₁ d₂ d₃ d₄ e₁ e₂ e₃ e₄ =>
    split at h
    · next high low hfirst hsecond =>
      simp only [Bool.and_eq_true, beq_iff_eq] at h
      obtain ⟨⟨hhigh, hlow⟩, hpair⟩ := h
      simp [stringRest, hfirst, hsecond, hhigh, hlow, hpair]
    · cases h
  · cases h

theorem stringRest_of_spells (strict : Bool) {text inner : List Char}
    (h : SpellsChars text inner) (value rest : List Char) :
    stringRest strict none value (inner ++ '"' :: rest) =
      some (String.ofList (value.reverse ++ text), rest) := by
  induction h generalizing value with
  | nil => simp [stringRest.eq_def]
  | cons hform _ ih =>
    rw [List.append_assoc, stringRest_of_isForm strict hform, ih]
    simp

theorem string?_of_spells (strict : Bool) {text : String} {cs : List Char}
    (h : SpellsString text cs) (rest : List Char) :
    string? strict (cs ++ rest) = some (text, rest) := by
  obtain ⟨inner, hinner, rfl⟩ := h
  have hread := stringRest_of_spells strict hinner [] rest
  simpa [string?] using hread

/-! ## Numbers -/

/-- A text that no number goes on with. -/
def EndsNumber (cs : List Char) : Prop :=
  ∀ c ∈ cs.head?, isBlank c = true ∨ c = ',' ∨ c = ']' ∨ c = '}'

theorem EndsNumber.head {c : Char} {cs : List Char} (h : EndsNumber (c :: cs)) :
    isDigit c = false ∧ c ≠ '.' ∧ c ≠ 'e' ∧ c ≠ 'E' := by
  have hc := h c rfl
  simp only [isBlank, Bool.or_eq_true, beq_iff_eq] at hc
  rcases hc with (((rfl | rfl) | rfl) | rfl) | rfl | rfl | rfl <;> decide

theorem digits?_append {cs digits left rest : List Char} (hrest : EndsNumber rest)
    (h : digits? cs = some (digits, left)) :
    digits? (cs ++ rest) = some (digits, left ++ rest) := by
  have htake : (cs ++ rest).takeWhile isDigit = cs.takeWhile isDigit ∧
      (cs ++ rest).dropWhile isDigit = cs.dropWhile isDigit ++ rest := by
    clear h
    induction cs with
    | nil =>
      cases rest with
      | nil => exact ⟨rfl, rfl⟩
      | cons c rest => simp [hrest.head.1]
    | cons c cs ih =>
      simp only [List.cons_append, List.takeWhile_cons, List.dropWhile_cons]
      cases isDigit c with
      | true => simpa using ih
      | false => simp
  unfold digits? at h ⊢
  rw [htake.1, htake.2]
  split at h
  · cases h
  · next heq =>
    cases h
    simp

theorem wholePart?_append {cs digits left rest : List Char} (hrest : EndsNumber rest)
    (h : wholePart? cs = some (digits, left)) :
    wholePart? (cs ++ rest) = some (digits, left ++ rest) := by
  unfold wholePart? at h
  split at h
  · next cs =>
    have hdigit : (cs ++ rest).head?.any isDigit = cs.head?.any isDigit := by
      cases cs with
      | cons => rfl
      | nil =>
        cases rest with
        | nil => rfl
        | cons c rest => simp [hrest.head.1]
    split at h
    · cases h
    · next hhead =>
      cases h
      rw [List.cons_append, wholePart?, hdigit, if_neg hhead]
  · next hzero =>
    have hread := digits?_append hrest h
    unfold wholePart?
    split
    · next more heq =>
      cases cs with
      | nil => cases h
      | cons c cs =>
        obtain ⟨rfl, -⟩ := List.cons.inj heq
        exact absurd rfl (hzero cs)
    · exact hread

theorem fraction?_append {cs fraction left rest : List Char} (hrest : EndsNumber rest)
    (h : fraction? cs = some (fraction, left)) :
    fraction? (cs ++ rest) = some (fraction, left ++ rest) := by
  unfold fraction? at h
  split at h
  · next cs =>
    obtain ⟨⟨digits, tail⟩, hdigits, hanswer⟩ := Option.map_eq_some_iff.1 h
    cases hanswer
    simp [fraction?, digits?_append hrest hdigits]
  · next hpoint =>
    cases h
    unfold fraction?
    split
    · next more heq =>
      cases cs with
      | nil =>
        cases rest with
        | nil => cases heq
        | cons c rest => exact absurd (List.cons.inj heq).1 hrest.head.2.1
      | cons c cs =>
        obtain ⟨rfl, -⟩ := List.cons.inj heq
        exact absurd rfl (hpoint cs)
    · rfl

theorem exponent?_append {cs exponent left rest : List Char} (hrest : EndsNumber rest)
    (h : exponent? cs = some (exponent, left)) :
    exponent? (cs ++ rest) = some (exponent, left ++ rest) := by
  cases cs with
  | nil =>
    cases h
    cases rest with
    | nil => rfl
    | cons c rest => simp [exponent?, hrest.head]
  | cons e cs =>
    rw [List.cons_append]
    unfold exponent? at h ⊢
    by_cases he : (e = 'e' || e = 'E') = true
    · simp only [if_pos he] at h ⊢
      -- What is read past the letter is not empty, so a sign there is one of the number.
      cases cs with
      | nil => cases h
      | cons c cs =>
        rw [List.cons_append]
        split at h
        all_goals
          obtain ⟨⟨digits, tail⟩, hdigits, hanswer⟩ := Option.map_eq_some_iff.1 h
          cases hanswer
        · next heq =>
          obtain ⟨rfl, rfl⟩ := List.cons.inj heq
          simp [digits?_append hrest hdigits]
        · next heq =>
          obtain ⟨rfl, rfl⟩ := List.cons.inj heq
          simp [digits?_append hrest hdigits]
        · next hplus hminus =>
          have hread := digits?_append hrest hdigits
          rw [List.cons_append] at hread
          have hplus : c ≠ '+' := fun heq => hplus cs (by rw [heq])
          have hminus : c ≠ '-' := fun heq => hminus cs (by rw [heq])
          simp [hplus, hminus, hread]
    · simp only [if_neg he] at h ⊢
      cases h
      rfl

/-- What follows the sign of a number. -/
def unsigned? (sign cs : List Char) : Option (String × List Char) := do
  let (whole, cs) ← wholePart? cs
  let (fraction, cs) ← fraction? cs
  let (exponent, cs) ← exponent? cs
  return (String.ofList (sign ++ whole ++ fraction ++ exponent), cs)

theorem number?_minus (cs : List Char) : number? ('-' :: cs) = unsigned? ['-'] cs := rfl

theorem number?_of_ne {c : Char} (hc : c ≠ '-') (cs : List Char) :
    number? (c :: cs) = unsigned? [] (c :: cs) := by
  unfold number? unsigned?
  split
  next sign more heq =>
  split at heq
  · next hminus => exact absurd (List.cons.inj hminus).1 hc
  · cases heq
    rfl

theorem unsigned?_append {sign cs left rest : List Char} {literal : String}
    (hrest : EndsNumber rest) (h : unsigned? sign cs = some (literal, left)) :
    unsigned? sign (cs ++ rest) = some (literal, left ++ rest) := by
  simp only [unsigned?, Option.bind_eq_bind, Option.bind_eq_some_iff] at h
  obtain ⟨⟨whole, cs₁⟩, hwhole, ⟨fraction, cs₂⟩, hfraction, ⟨exponent, cs₃⟩, hexponent, h⟩ := h
  cases h
  simp [unsigned?, wholePart?_append hrest hwhole, fraction?_append hrest hfraction,
    exponent?_append hrest hexponent]

/-- A number is read up to a text that no number goes on with. -/
theorem number?_append {cs left rest : List Char} {literal : String} (hrest : EndsNumber rest)
    (h : number? cs = some (literal, left)) :
    number? (cs ++ rest) = some (literal, left ++ rest) := by
  cases cs with
  | nil => cases h
  | cons c cs =>
    by_cases hc : c = '-'
    · subst hc
      rw [number?_minus] at h
      exact unsigned?_append hrest h
    · rw [number?_of_ne hc] at h
      rw [List.cons_append, number?_of_ne hc, ← List.cons_append]
      exact unsigned?_append hrest h

/-- A number starts with a digit or a minus sign. -/
theorem head_of_number? {cs left : List Char} {literal : String}
    (h : number? cs = some (literal, left)) :
    ∃ c more, cs = c :: more ∧ (isDigit c = true ∨ c = '-') := by
  cases cs with
  | nil => cases h
  | cons c cs =>
    refine ⟨c, cs, rfl, ?_⟩
    by_cases hc : c = '-'
    · exact .inr hc
    rw [number?_of_ne hc] at h
    simp only [unsigned?, Option.bind_eq_bind, Option.bind_eq_some_iff] at h
    obtain ⟨⟨whole, tail⟩, hwhole, -⟩ := h
    unfold wholePart? at hwhole
    split at hwhole
    · next heq =>
      obtain ⟨rfl, -⟩ := List.cons.inj heq
      exact .inl (by decide)
    · unfold digits? at hwhole
      rw [List.takeWhile_cons] at hwhole
      cases hdigit : isDigit c with
      | true => exact .inl rfl
      | false =>
        rw [hdigit] at hwhole
        cases hwhole

/-! ## Values -/

mutual

/-- A text is a value. -/
inductive Spells : Value → List Char → Prop where
  | null : Spells .null ['n', 'u', 'l', 'l']
  | yes : Spells (.boolean true) ['t', 'r', 'u', 'e']
  | no : Spells (.boolean false) ['f', 'a', 'l', 's', 'e']
  | number {literal : String} (h : number? literal.toList = some (literal, [])) :
      Spells (.number literal) literal.toList
  | string {text : String} {cs : List Char} (h : SpellsString text cs) : Spells (.string text) cs
  | emptyArray {gap : List Char} (h : IsGap gap) : Spells (.array []) ('[' :: (gap ++ [']']))
  | array {items : List Value} {cs : List Char} (h : SpellsItems items cs) :
      Spells (.array items) ('[' :: (cs ++ [']']))
  | emptyObject {gap : List Char} (h : IsGap gap) : Spells (.object []) ('{' :: (gap ++ ['}']))
  | object {members : List (String × Value)} {cs : List Char} (h : SpellsMembers members cs) :
      Spells (.object members) ('{' :: (cs ++ ['}']))

/-- A text consists of items, at least one, with commas between them. -/
inductive SpellsItems : List Value → List Char → Prop where
  | last {item : Value} {before cs after : List Char} (hbefore : IsGap before)
      (head : Spells item cs) (hafter : IsGap after) :
      SpellsItems [item] (before ++ (cs ++ after))
  | cons {item : Value} {items : List Value} {before cs after more : List Char}
      (hbefore : IsGap before) (head : Spells item cs) (hafter : IsGap after)
      (tail : SpellsItems items more) :
      SpellsItems (item :: items) (before ++ (cs ++ (after ++ ',' :: more)))

/-- A text consists of members, at least one, with commas between them. -/
inductive SpellsMembers : List (String × Value) → List Char → Prop where
  | last {name : String} {value : Value} {before key gap middle cs after : List Char}
      (hbefore : IsGap before) (hkey : SpellsString name key) (hgap : IsGap gap)
      (hmiddle : IsGap middle) (head : Spells value cs) (hafter : IsGap after) :
      SpellsMembers [(name, value)]
        (before ++ (key ++ (gap ++ ':' :: (middle ++ (cs ++ after)))))
  | cons {name : String} {value : Value} {members : List (String × Value)}
      {before key gap middle cs after more : List Char}
      (hbefore : IsGap before) (hkey : SpellsString name key) (hgap : IsGap gap)
      (hmiddle : IsGap middle) (head : Spells value cs) (hafter : IsGap after)
      (tail : SpellsMembers members more) :
      SpellsMembers ((name, value) :: members)
        (before ++ (key ++ (gap ++ ':' :: (middle ++ (cs ++ (after ++ ',' :: more))))))

end

/-- The characters with which a value can start. -/
def startsValue (c : Char) : Bool :=
  isDigit c || ['-', '"', '[', '{', 'n', 't', 'f'].contains c

theorem startsValue_spec {c : Char} (h : startsValue c = true) :
    isBlank c = false ∧ c ≠ ']' ∧ c ≠ '}' := by
  have hne {d : Char} (hd : startsValue d = false) : c ≠ d := by
    rintro rfl
    rw [h] at hd
    cases hd
  refine ⟨?_, hne (by decide), hne (by decide)⟩
  simp only [isBlank, Bool.or_eq_false_iff, beq_eq_false_iff_ne]
  exact ⟨⟨⟨hne (by decide), hne (by decide)⟩, hne (by decide)⟩, hne (by decide)⟩

theorem Spells.head {value : Value} {cs : List Char} (h : Spells value cs) :
    ∃ c more, cs = c :: more ∧ startsValue c = true := by
  cases h with
  | number h =>
    obtain ⟨c, more, hcs, hc⟩ := head_of_number? h
    refine ⟨c, more, hcs, ?_⟩
    rcases hc with hdigit | rfl
    · rw [startsValue, hdigit, Bool.true_or]
    · decide
  | string h =>
    obtain ⟨inner, -, rfl⟩ := h
    exact ⟨'"', _, rfl, by decide⟩
  | _ => exact ⟨_, _, rfl, by decide⟩

/-- What is left past the blanks before a value is the value. -/
theorem skipBlanks_of_spells {value : Value} {before cs : List Char} (hbefore : IsGap before)
    (h : Spells value cs) (rest : List Char) :
    skipBlanks (before ++ (cs ++ rest)) = cs ++ rest := by
  obtain ⟨c, more, rfl, hc⟩ := h.head
  rw [skipBlanks_append hbefore, List.cons_append, skipBlanks_cons (startsValue_spec hc).1]

theorem skipBlanks_of_spellsString {text : String} {before cs : List Char}
    (hbefore : IsGap before) (h : SpellsString text cs) (rest : List Char) :
    skipBlanks (before ++ (cs ++ rest)) = cs ++ rest := by
  obtain ⟨inner, -, rfl⟩ := h
  rw [skipBlanks_append hbefore, List.cons_append, skipBlanks_cons (by decide)]

/-- A mark past blanks. -/
theorem skipBlanks_mark {gap : List Char} (h : IsGap gap) (mark : Char)
    (hmark : isBlank mark = false) (rest : List Char) :
    skipBlanks (gap ++ mark :: rest) = mark :: rest := by
  rw [skipBlanks_append h, skipBlanks_cons hmark]

theorem endsNumber_mark {gap : List Char} (h : IsGap gap) (mark : Char)
    (hmark : mark = ',' ∨ mark = ']' ∨ mark = '}') (rest : List Char) :
    EndsNumber (gap ++ mark :: rest) := by
  intro c hc
  cases gap with
  | nil =>
    cases hc
    exact .inr hmark
  | cons d gap =>
    cases hc
    exact .inl (h _ List.mem_cons_self)

/-! ## Reading -/

section Reading

variable {strict : Bool} {n : Nat} {value : Value} {cs rest : List Char}

theorem itemsUpTo_skipBlanks (known : List Value) :
    itemsUpTo strict n known (skipBlanks cs) = itemsUpTo strict n known cs := by
  cases n with
  | zero => rfl
  | succ n => simp only [itemsUpTo, skipBlanks_skipBlanks]

theorem membersUpTo_skipBlanks (known : List (String × Value)) :
    membersUpTo strict n known (skipBlanks cs) = membersUpTo strict n known cs := by
  cases n with
  | zero => rfl
  | succ n => simp only [membersUpTo, skipBlanks_skipBlanks]

theorem valueUpTo_array (h : ∀ more, skipBlanks cs ≠ ']' :: more) :
    valueUpTo strict (n + 1) ('[' :: cs) = itemsUpTo strict n [] cs := by
  rw [← itemsUpTo_skipBlanks]
  simp only [valueUpTo]

theorem valueUpTo_object (h : ∀ more, skipBlanks cs ≠ '}' :: more) :
    valueUpTo strict (n + 1) ('{' :: cs) = membersUpTo strict n [] cs := by
  rw [← membersUpTo_skipBlanks]
  simp only [valueUpTo]

theorem valueUpTo_number {c : Char} (hc : isDigit c = true ∨ c = '-') :
    valueUpTo strict (n + 1) (c :: cs) =
      (number? (c :: cs)).map fun (literal, rest) => (.number literal, rest) := by
  have hne {d : Char} (hd : isDigit d = false) (hminus : d ≠ '-') : c ≠ d := by
    rintro rfl
    rcases hc with hc | hc
    · rw [hc] at hd
      cases hd
    · exact hminus hc
  have hquote : c ≠ '"' := hne (by decide) (by decide)
  have hbracket : c ≠ '[' := hne (by decide) (by decide)
  have hbrace : c ≠ '{' := hne (by decide) (by decide)
  have hn : c ≠ 'n' := hne (by decide) (by decide)
  have ht : c ≠ 't' := hne (by decide) (by decide)
  have hf : c ≠ 'f' := hne (by decide) (by decide)
  simp [valueUpTo, hquote, hbracket, hbrace, hn, ht, hf]

end Reading

theorem SpellsItems.head {items : List Value} {cs : List Char} (h : SpellsItems items cs)
    (rest more : List Char) : skipBlanks (cs ++ rest) ≠ ']' :: more := by
  intro heq
  cases h with
  | last hbefore head _ | cons hbefore head _ _ =>
    obtain ⟨c, tail, rfl, hc⟩ := head.head
    rw [List.append_assoc, List.append_assoc, skipBlanks_of_spells hbefore head,
      List.cons_append] at heq
    exact (startsValue_spec hc).2.1 (List.cons.inj heq).1

theorem SpellsMembers.head {members : List (String × Value)} {cs : List Char}
    (h : SpellsMembers members cs) (rest more : List Char) :
    skipBlanks (cs ++ rest) ≠ '}' :: more := by
  intro heq
  cases h with
  | last hbefore hkey | cons hbefore hkey =>
    rw [List.append_assoc, List.append_assoc, skipBlanks_of_spellsString hbefore hkey] at heq
    obtain ⟨inner, -, rfl⟩ := hkey
    cases heq

mutual

/-- A text that spells a value is read as the value.  Every nested value takes more characters than
one round of the reader, so twice the length of the text is enough. -/
theorem valueUpTo_of_spells (strict : Bool) {value : Value} {cs : List Char} (h : Spells value cs)
    {n : Nat} (hn : 2 * cs.length ≤ n) {rest : List Char} (hrest : EndsNumber rest) :
    valueUpTo strict n (cs ++ rest) = some (value, rest) := by
  have hpos : 0 < n := by
    obtain ⟨c, more, rfl, -⟩ := h.head
    rw [List.length_cons] at hn
    omega
  obtain ⟨n, rfl⟩ := Nat.exists_eq_add_one.2 hpos
  cases h with
  | null | yes | no =>
    simp only [List.cons_append, List.nil_append, valueUpTo, skipWord?]
    rfl
  | number h =>
    obtain ⟨c, more, hcs, hc⟩ := head_of_number? h
    have hread := number?_append hrest h
    rw [hcs] at hread ⊢
    rw [List.cons_append] at hread ⊢
    rw [valueUpTo_number hc, hread]
    rfl
  | string h =>
    have hread := string?_of_spells strict h rest
    obtain ⟨inner, -, rfl⟩ := h
    rw [List.cons_append] at hread ⊢
    simp only [valueUpTo, hread, Option.map_some]
  | emptyArray h =>
    have hclose := skipBlanks_mark h ']' (by decide) rest
    simp [valueUpTo, hclose]
  | emptyObject h =>
    have hclose := skipBlanks_mark h '}' (by decide) rest
    simp [valueUpTo, hclose]
  | array h =>
    rw [List.cons_append, List.append_assoc, List.singleton_append, valueUpTo_array (h.head _)]
    refine itemsUpTo_of_spells strict h ?_ [] rest
    simp only [List.length_cons, List.length_append] at hn
    omega
  | object h =>
    rw [List.cons_append, List.append_assoc, List.singleton_append, valueUpTo_object (h.head _)]
    refine membersUpTo_of_spells strict h ?_ [] rest
    simp only [List.length_cons, List.length_append] at hn
    omega

theorem itemsUpTo_of_spells (strict : Bool) {items : List Value} {cs : List Char}
    (h : SpellsItems items cs) {n : Nat} (hn : 2 * cs.length + 1 ≤ n) (known : List Value)
    (rest : List Char) :
    itemsUpTo strict n known (cs ++ ']' :: rest) =
      some (.array (known.reverse ++ items), rest) := by
  obtain ⟨n, rfl⟩ := Nat.exists_eq_add_one.2 (Nat.lt_of_lt_of_le (Nat.succ_pos _) hn)
  cases h with
  | last hbefore head hafter =>
    simp only [List.length_append] at hn
    have hitem := valueUpTo_of_spells strict head (n := n) (by omega)
      (endsNumber_mark hafter ']' (by decide) rest)
    simp only [itemsUpTo, List.append_assoc, skipBlanks_of_spells hbefore head, hitem,
      skipBlanks_mark hafter ']' (by decide), Option.bind_eq_bind, Option.bind_some]
    simp
  | cons hbefore head hafter tail =>
    simp only [List.length_append, List.length_cons] at hn
    have hitem := fun more => valueUpTo_of_spells strict head (n := n) (by omega)
      (endsNumber_mark hafter ',' (by decide) more)
    have hitems := itemsUpTo_of_spells strict tail (n := n) (by omega)
    simp only [itemsUpTo, List.append_assoc, List.cons_append,
      skipBlanks_of_spells hbefore head, hitem,
      skipBlanks_mark hafter ',' (by decide), Option.bind_eq_bind, Option.bind_some,
      hitems]
    simp

theorem membersUpTo_of_spells (strict : Bool) {members : List (String × Value)} {cs : List Char}
    (h : SpellsMembers members cs) {n : Nat} (hn : 2 * cs.length + 1 ≤ n)
    (known : List (String × Value)) (rest : List Char) :
    membersUpTo strict n known (cs ++ '}' :: rest) =
      some (.object (known.reverse ++ members), rest) := by
  obtain ⟨n, rfl⟩ := Nat.exists_eq_add_one.2 (Nat.lt_of_lt_of_le (Nat.succ_pos _) hn)
  cases h with
  | last hbefore hkey hgap hmiddle head hafter =>
    simp only [List.length_append, List.length_cons] at hn
    have hvalue := valueUpTo_of_spells strict head (n := n) (by omega)
      (endsNumber_mark hafter '}' (by decide) rest)
    simp only [membersUpTo, List.append_assoc, List.cons_append,
      skipBlanks_of_spellsString hbefore hkey, string?_of_spells strict hkey,
      skipBlanks_mark hgap ':' (by decide), Option.bind_eq_bind, Option.bind_some,
      skipBlanks_of_spells hmiddle head, hvalue,
      skipBlanks_mark hafter '}' (by decide)]
    simp
  | cons hbefore hkey hgap hmiddle head hafter tail =>
    simp only [List.length_append, List.length_cons] at hn
    have hvalue := fun more => valueUpTo_of_spells strict head (n := n) (by omega)
      (endsNumber_mark hafter ',' (by decide) more)
    have hmembers := membersUpTo_of_spells strict tail (n := n) (by omega)
    simp only [membersUpTo, List.append_assoc, List.cons_append,
      skipBlanks_of_spellsString hbefore hkey, string?_of_spells strict hkey,
      skipBlanks_mark hgap ':' (by decide), Option.bind_eq_bind, Option.bind_some,
      skipBlanks_of_spells hmiddle head, hvalue,
      skipBlanks_mark hafter ',' (by decide), hmembers]
    simp

end

/-- A value is read past the blanks before it, and what follows it is left. -/
theorem value?_of_spells (strict : Bool) {value : Value} {before cs rest : List Char}
    (hbefore : IsGap before) (h : Spells value cs) (hrest : EndsNumber rest) :
    value? strict (before ++ (cs ++ rest)) = some (value, rest) := by
  rw [value?, skipBlanks_of_spells hbefore h]
  refine valueUpTo_of_spells strict h ?_ hrest
  simp only [List.length_append]
  omega

/-- A whole text that spells a value is read as the value. -/
theorem parse?_of_spells {value : Value} {before cs after : List Char} (hbefore : IsGap before)
    (h : Spells value cs) (hafter : IsGap after) :
    parse? (String.ofList (before ++ (cs ++ after))) = some value := by
  have hend : EndsNumber after := fun c hc => .inl (hafter c (List.mem_of_mem_head? hc))
  simp [parse?, value?_of_spells true hbefore h hend, skipBlanks_gap hafter]

end Rebind.Json
