import Rebind.Proofs.Json.Spelling
import Rebind.Text.Blank

/-!
# Texts written for JSON values

A value is written on one line (`Value.compact`) or over several (`Value.pretty`).  Both texts spell
the value, so long as its numbers are numerals, and the first one holds no line break: the
characters of a string that could end a line are escaped.
-/

namespace Rebind.Json

/-! ## Characters and strings -/

theorem writtenChar_plain {c : Char} (hquote : c ≠ '"') (hslash : c ≠ '\\') (hc : 0x20 ≤ c.toNat) :
    writtenChar c = String.singleton c := by
  have hne {d : Char} (hd : d.toNat < 0x20) : c ≠ d := by
    rintro rfl
    omega
  rw [writtenChar, if_neg hquote, if_neg hslash, if_neg (hne (by decide)),
    if_neg (hne (by decide)), if_neg (hne (by decide)), if_neg (hne (by decide)),
    if_neg (hne (by decide)), if_neg (Nat.not_lt.2 hc)]

/-- What holds of the forms of the control characters, of the marks of a string and of each other
character holds of the form of any character. -/
theorem writtenChar_cases {p : Char → String → Prop}
    (hcontrol : ∀ n < 0x20, p (Char.ofNat n) (writtenChar (Char.ofNat n)))
    (hquote : p '"' (writtenChar '"')) (hslash : p '\\' (writtenChar '\\'))
    (hplain : ∀ c, c ≠ '"' → c ≠ '\\' → 0x20 ≤ c.toNat → p c (String.singleton c)) (c : Char) :
    p c (writtenChar c) := by
  rcases Nat.lt_or_ge c.toNat 0x20 with hlow | hhigh
  · have h := hcontrol c.toNat hlow
    rwa [Char.ofNat_toNat] at h
  · by_cases hq : c = '"'
    · rwa [hq]
    by_cases hs : c = '\\'
    · rwa [hs]
    rw [writtenChar_plain hq hs hhigh]
    exact hplain c hq hs hhigh

/-- The form in which a character is written is one of its forms. -/
theorem isForm_writtenChar (c : Char) : isForm c (writtenChar c).toList = true := by
  refine writtenChar_cases (p := fun c text => isForm c text.toList = true) (by decide +kernel)
    (by decide +kernel) (by decide +kernel) (fun c hquote hslash hc => ?_) c
  simp [isForm, hquote, hslash, hc]

theorem newline_notMem_writtenChar (c : Char) : '\n' ∉ (writtenChar c).toList := by
  refine writtenChar_cases (p := fun _ text => '\n' ∉ text.toList) (by decide +kernel)
    (by decide +kernel) (by decide +kernel) (fun c _ _ hc => ?_) c
  have hne : '\n' ≠ c := by
    rintro rfl
    exact absurd hc (by decide)
  simpa using hne

theorem toList_writtenString (text : String) :
    (writtenString text).toList =
      '"' :: ((text.toList.flatMap fun c => (writtenChar c).toList) ++ ['"']) := by
  simp [writtenString, String.toList_join, List.flatMap_map]

/-- A string is written as itself. -/
theorem spellsString_writtenString (text : String) :
    SpellsString text (writtenString text).toList := by
  refine ⟨_, ?_, toList_writtenString text⟩
  generalize text.toList = cs
  induction cs with
  | nil => exact .nil
  | cons c cs ih =>
    rw [List.flatMap_cons]
    exact .cons (isForm_writtenChar c) ih

theorem newline_notMem_writtenString (text : String) : '\n' ∉ (writtenString text).toList := by
  rw [toList_writtenString]
  simp only [List.mem_cons, List.mem_append, List.mem_flatMap, List.not_mem_nil, or_false]
  rintro (h | ⟨c, -, h⟩ | h)
  · cases h
  · exact newline_notMem_writtenChar c h
  · cases h

/-! ## Numbers -/

/-- Whether a character may stand in a number. -/
def isNumberChar (c : Char) : Bool :=
  isDigit c || ['-', '+', '.', 'e', 'E'].contains c

theorem all_digits? {cs digits rest : List Char} (h : digits? cs = some (digits, rest)) :
    digits.all isNumberChar = true := by
  unfold digits? at h
  split at h
  · cases h
  · cases h
    refine List.all_eq_true.2 fun c hc => ?_
    have hdigit := List.all_eq_true.1 (List.all_takeWhile (p := isDigit) (l := cs)) c hc
    rw [isNumberChar, hdigit, Bool.true_or]

theorem all_wholePart? {cs digits rest : List Char} (h : wholePart? cs = some (digits, rest)) :
    digits.all isNumberChar = true := by
  unfold wholePart? at h
  split at h
  · split at h
    · cases h
    · cases h
      decide
  · exact all_digits? h

theorem all_fraction? {cs fraction rest : List Char} (h : fraction? cs = some (fraction, rest)) :
    fraction.all isNumberChar = true := by
  unfold fraction? at h
  split at h
  · obtain ⟨⟨digits, tail⟩, hdigits, hanswer⟩ := Option.map_eq_some_iff.1 h
    cases hanswer
    rw [List.all_cons, all_digits? hdigits]
    decide
  · cases h
    rfl

theorem all_exponent? {cs exponent rest : List Char} (h : exponent? cs = some (exponent, rest)) :
    exponent.all isNumberChar = true := by
  unfold exponent? at h
  split at h
  · next e cs =>
    split at h
    · next he =>
      have hmark : isNumberChar e = true := by
        simp only [Bool.or_eq_true, decide_eq_true_eq] at he
        rcases he with rfl | rfl <;> decide
      split at h
      all_goals
        obtain ⟨⟨digits, tail⟩, hdigits, hanswer⟩ := Option.map_eq_some_iff.1 h
        cases hanswer
        simp only [List.all_cons, hmark, all_digits? hdigits]
        decide
    · cases h
      rfl
  · cases h
    rfl

/-- A numeral holds the characters of numbers only. -/
theorem all_number? {cs rest : List Char} {literal : String}
    (h : number? cs = some (literal, rest)) : literal.toList.all isNumberChar = true := by
  have hunsigned {sign cs : List Char} (hsign : sign.all isNumberChar = true)
      (h : unsigned? sign cs = some (literal, rest)) : literal.toList.all isNumberChar = true := by
    simp only [unsigned?, Option.bind_eq_bind, Option.bind_eq_some_iff] at h
    obtain ⟨⟨whole, cs₁⟩, hwhole, ⟨fraction, cs₂⟩, hfraction, ⟨exponent, cs₃⟩, hexponent, h⟩ := h
    cases h
    simp [hsign, all_wholePart? hwhole, all_fraction? hfraction, all_exponent? hexponent]
  cases cs with
  | nil => cases h
  | cons c cs =>
    by_cases hc : c = '-'
    · subst hc
      rw [number?_minus] at h
      exact hunsigned (by decide) h
    · rw [number?_of_ne hc] at h
      exact hunsigned rfl h

/-! ## Lists between brackets -/

/-- Texts of items with a comma and a gap between them. -/
theorem spellsItems_intercalate {before after : String} (hbefore : IsGap before.toList)
    (hafter : IsGap after.toList) {write : Value → String} {items : List Value}
    (hne : items ≠ []) (h : ∀ item ∈ items, Spells item (write item).toList) :
    SpellsItems items
      (before ++ ("," ++ before).intercalate (items.map write) ++ after).toList := by
  induction items with
  | nil => exact absurd rfl hne
  | cons item items ih =>
    have hitem := h item List.mem_cons_self
    cases items with
    | nil =>
      have hlast := SpellsItems.last hbefore hitem hafter
      simpa [List.append_assoc] using hlast
    | cons next items =>
      have htail := ih (List.cons_ne_nil _ _) fun item hmem => h item (List.mem_cons_of_mem _ hmem)
      have hcons := SpellsItems.cons hbefore hitem isGap_nil htail
      simpa [String.intercalate_cons_cons, List.append_assoc] using hcons

/-- Texts of members with a comma and a gap between them. -/
theorem spellsMembers_intercalate {before after middle : String} (hbefore : IsGap before.toList)
    (hafter : IsGap after.toList) (hmiddle : IsGap middle.toList) {write : Value → String}
    {members : List (String × Value)} (hne : members ≠ [])
    (h : ∀ member ∈ members, Spells member.2 (write member.2).toList) :
    SpellsMembers members
      (before ++ ("," ++ before).intercalate (members.map fun member =>
        writtenString member.1 ++ (":" ++ middle) ++ write member.2) ++ after).toList := by
  induction members with
  | nil => exact absurd rfl hne
  | cons member members ih =>
    have hkey := spellsString_writtenString member.1
    have hvalue := h member List.mem_cons_self
    cases members with
    | nil =>
      have hlast := SpellsMembers.last hbefore hkey isGap_nil hmiddle hvalue hafter
      simpa [List.append_assoc] using hlast
    | cons next members =>
      have htail := ih (List.cons_ne_nil _ _) fun item hmem => h item (List.mem_cons_of_mem _ hmem)
      have hcons := SpellsMembers.cons hbefore hkey isGap_nil hmiddle hvalue isGap_nil htail
      simpa [String.intercalate_cons_cons, List.append_assoc] using hcons

/-! ## Values -/

/-- Each number of a value is a numeral. -/
inductive HasNumerals : Value → Prop where
  | null : HasNumerals .null
  | boolean (b : Bool) : HasNumerals (.boolean b)
  | number {literal : String} (h : number? literal.toList = some (literal, [])) :
      HasNumerals (.number literal)
  | string (text : String) : HasNumerals (.string text)
  | array {items : List Value} (h : ∀ item ∈ items, HasNumerals item) : HasNumerals (.array items)
  | object {members : List (String × Value)} (h : ∀ member ∈ members, HasNumerals member.2) :
      HasNumerals (.object members)

namespace Value

theorem compactItems_eq (items : List Value) : compactItems items = items.map compact := by
  induction items with
  | nil => rfl
  | cons item items ih => rw [compactItems, ih, List.map_cons]

theorem compactMembers_eq (members : List (String × Value)) :
    compactMembers members =
      members.map fun member => writtenString member.1 ++ ":" ++ member.2.compact := by
  induction members with
  | nil => rfl
  | cons member members ih => rw [compactMembers, ih, List.map_cons]

theorem prettyItems_eq (level : Nat) (items : List Value) :
    prettyItems level items = items.map (pretty level) := by
  induction items with
  | nil => rfl
  | cons item items ih => rw [prettyItems, ih, List.map_cons]

theorem prettyMembers_eq (level : Nat) (members : List (String × Value)) :
    prettyMembers level members =
      members.map fun member => writtenString member.1 ++ ": " ++ member.2.pretty level := by
  induction members with
  | nil => rfl
  | cons member members ih => rw [prettyMembers, ih, List.map_cons]

/-- The text of a value on one line is the value. -/
theorem spells_compact {value : Value} (h : HasNumerals value) :
    Spells value value.compact.toList := by
  have hgap : IsGap "".toList := by simp [IsGap]
  induction h with
  | null => exact .null
  | boolean b =>
    cases b with
    | true => exact .yes
    | false => exact .no
  | number h => exact .number h
  | string text => exact .string (spellsString_writtenString text)
  | @array items _ ih =>
    rw [compact, compactItems_eq]
    cases items with
    | nil => exact .emptyArray hgap
    | cons item items =>
      have hitems := spellsItems_intercalate hgap hgap (List.cons_ne_nil item items) ih
      simpa using Spells.array hitems
  | @object members _ ih =>
    rw [compact, compactMembers_eq]
    cases members with
    | nil => exact .emptyObject hgap
    | cons member members =>
      have hmembers :=
        spellsMembers_intercalate hgap hgap hgap (List.cons_ne_nil member members) ih
      simpa using Spells.object hmembers

theorem isGap_margin (n : Nat) : IsGap ("\n" ++ "".pushn ' ' n).toList := by
  intro c hc
  simp only [String.toList_append, Text.toList_pushn, List.mem_append, List.mem_replicate] at hc
  rcases hc with hc | ⟨-, rfl⟩
  · rw [List.mem_singleton.1 hc]
    decide
  · decide

/-- The text of a value over several lines is the value. -/
theorem spells_pretty {value : Value} (h : HasNumerals value) (level : Nat) :
    Spells value (value.pretty level).toList := by
  induction h generalizing level with
  | @array items _ ih =>
    rw [pretty, prettyItems_eq]
    cases items with
    | nil => simpa [bracketed] using Spells.emptyArray isGap_nil
    | cons item items =>
      have hitems := spellsItems_intercalate (isGap_margin (2 * (level + 1)))
        (isGap_margin (2 * level)) (List.cons_ne_nil item items)
        fun item hmem => ih item hmem (level + 1)
      simpa [bracketed] using Spells.array hitems
  | @object members _ ih =>
    rw [pretty, prettyMembers_eq]
    cases members with
    | nil => simpa [bracketed] using Spells.emptyObject isGap_nil
    | cons member members =>
      have hmiddle : IsGap " ".toList := by simp [IsGap, isBlank]
      have hmembers := spellsMembers_intercalate (isGap_margin (2 * (level + 1)))
        (isGap_margin (2 * level)) hmiddle (List.cons_ne_nil member members)
        fun member hmem => ih member hmem (level + 1)
      simpa [bracketed] using Spells.object hmembers
  | null => exact spells_compact .null
  | boolean b => exact spells_compact (.boolean b)
  | number h => exact spells_compact (.number h)
  | string text => exact spells_compact (.string text)

theorem newline_notMem_intercalate {α : Type} {write : α → String} {items : List α}
    (h : ∀ item ∈ items, '\n' ∉ (write item).toList) :
    '\n' ∉ (",".intercalate (items.map write)).toList := by
  induction items with
  | nil => simp
  | cons item items ih =>
    have hitem := h item List.mem_cons_self
    have htail := ih fun item hmem => h item (List.mem_cons_of_mem _ hmem)
    cases items with
    | nil => simpa using hitem
    | cons next items => simpa [String.intercalate_cons_cons, hitem] using htail

/-- The text of a value on one line holds no line break. -/
theorem newline_notMem_compact {value : Value} (h : HasNumerals value) :
    '\n' ∉ value.compact.toList := by
  induction h with
  | null => decide
  | boolean b => cases b <;> decide
  | number h =>
    intro hmem
    exact absurd (List.all_eq_true.1 (all_number? h) _ hmem) (by decide)
  | string text => exact newline_notMem_writtenString text
  | array _ ih =>
    have hlines := newline_notMem_intercalate ih
    simpa [compact, compactItems_eq] using hlines
  | @object members _ ih =>
    have hmember : ∀ member ∈ members,
        '\n' ∉ (writtenString member.1 ++ ":" ++ member.2.compact).toList := by
      intro member hmem
      simp [newline_notMem_writtenString, ih member hmem]
    have hlines := newline_notMem_intercalate hmember
    simpa [compact, compactMembers_eq] using hlines

end Value

end Rebind.Json
