import Rebind.Proofs.Copying.Scan

/-!
# Reading a literal again

A string stops at its quote, and a part of a template at the mark that ends it, whatever follows.
-/

namespace Rebind.Snippet

open Rebind.Text (byteSize byteSize_nil byteSize_cons byteSize_append addCode areCharacters)
open Rebind.Unicode (isNameStart isNamePart isAsciiDigit isAsciiLetter)

variable {offset stop : Nat} {cs rest read : List Char}

/-! ## Strings -/

/-- The number of digits of an octal escape, whose first digit comes first. -/
def octalLimit (cs : List Char) : Nat := if cs.head?.any (fun c => c ≤ '3') then 3 else 2

theorem octalEscape_again {d : Char} {tail : List Char}
    (h : cs.drop (octalEscape cs).2 = d :: tail) :
    ∃ read, cs = read ++ d :: tail ∧ read.length = (octalEscape cs).2 ∧
      ∀ tail', octalEscape (read ++ d :: tail') = octalEscape cs := by
  have hvalue (cs : List Char) : octalEscape cs =
      (((cs.take (octalLimit cs)).takeWhile isOctalDigit).foldl
        (fun n c => n * 8 + (c.toNat - '0'.toNat)) 0,
        ((cs.take (octalLimit cs)).takeWhile isOctalDigit).length) := rfl
  have hfits : (cs.take (octalLimit cs)).takeWhile isOctalDigit <+: cs :=
    (List.takeWhile_prefix isOctalDigit).trans (List.take_prefix _ _)
  have hcs := List.prefix_iff_eq_append.1 hfits
  rw [show ((cs.take (octalLimit cs)).takeWhile isOctalDigit).length = (octalEscape cs).2 from rfl,
    h] at hcs
  generalize hread : (cs.take (octalLimit cs)).takeWhile isOctalDigit = read at hcs
  have hlength : read.length ≤ octalLimit cs := by
    rw [← hread]
    exact Nat.le_trans (List.takeWhile_sublist _).length_le (List.length_take_le _ _)
  have hoctal : ∀ c ∈ read, isOctalDigit c = true := by
    rw [← hread]
    exact fun c hc => List.all_eq_true.1 List.all_takeWhile c hc
  have hlimit (tail' : List Char) : octalLimit (read ++ d :: tail') = octalLimit cs := by
    rw [← hcs]
    cases read <;> rfl
  have hstop (tail' : List Char) :
      ((read ++ d :: tail').take (octalLimit cs)).takeWhile isOctalDigit =
        read ++ ((d :: tail').take (octalLimit cs - read.length)).takeWhile isOctalDigit := by
    rw [List.take_append, List.take_of_length_le hlength, List.takeWhile_append_of_pos hoctal]
  have hsame (tail' : List Char) :
      ((read ++ d :: tail').take (octalLimit cs)).takeWhile isOctalDigit = read := by
    have hnone := hstop tail
    rw [hcs, hread] at hnone
    rw [hstop]
    -- The digits stop because there are enough of them, or because another character comes next.
    cases hmore : octalLimit cs - read.length with
    | zero => simp
    | succ k =>
      rw [hmore, List.take_succ_cons, List.takeWhile_cons] at hnone
      have hd : isOctalDigit d = false := by
        rw [← Bool.not_eq_true]
        intro hd
        rw [if_pos hd] at hnone
        exact absurd (congrArg List.length hnone) (by simp)
      simp [hd]
  refine ⟨read, hcs.symm, by rw [hvalue, hread], fun tail' => ?_⟩
  rw [hvalue, hvalue cs, hlimit, hsame, hread]

/-- The text that a step through a string literal leaves. -/
def StringStep.Leaves (step : StringStep) (tail : List Char) : Prop :=
  match step with
  | .code _ _ rest | .continuation _ rest => rest = tail
  | _ => False

/-- The same step with another text left. -/
def StringStep.before (step : StringStep) (tail : List Char) : StringStep :=
  match step with
  | .code value width _ => .code value width tail
  | .continuation width _ => .continuation width tail
  | step => step

/-- An escape of a single character, or of a line break, or of an octal number. -/
theorem stringEscape_cons {c : Char} (hnewline : c = '\r' → rest.head? ≠ some '\n')
    (hx : c ≠ 'x') (hu : c ≠ 'u') :
    stringEscape (c :: rest) =
      if isLineBreak c then .continuation (1 + c.utf8Size) rest
      else if isOctalDigit c then .code (octalEscape (c :: rest)).1
        (1 + (octalEscape (c :: rest)).2) ((c :: rest).drop (octalEscape (c :: rest)).2)
      else .code (simpleEscape c).toNat (1 + c.utf8Size) rest := by
  unfold stringEscape
  split <;> grind

/-- An escape of a code point is read again before any text. -/
theorem stringEscape_again_of_codePoint {value width : Nat} {more : List Char}
    (h : codePointEscape? ('u' :: more) = some (value, width, rest)) :
    ∃ read, 'u' :: more = read ++ rest ∧
      ∀ rest', stringEscape (read ++ rest') = .code value (1 + width) rest' := by
  have hstep {more rest : List Char}
      (h : codePointEscape? ('u' :: more) = some (value, width, rest)) :
      stringEscape ('u' :: more) = .code value (1 + width) rest := by
    simp only [stringEscape, h]
  obtain ⟨read, hread, -, hagain⟩ := codePointEscape?_again h
  refine ⟨read, hread, fun rest' => ?_⟩
  cases read with
  | nil =>
    have hlt := length_lt_of_codePointEscape? h
    rw [hread] at hlt
    exact absurd hlt (Nat.lt_irrefl _)
  | cons c read =>
    obtain ⟨rfl, rfl⟩ := List.cons.inj hread
    exact hstep (hagain rest')

/-- An octal escape is read again if the next character is there again. -/
theorem stringEscape_again_of_octal {c d : Char} {tail : List Char} (hoctal : isOctalDigit c = true)
    (h : (c :: rest).drop (octalEscape (c :: rest)).2 = d :: tail) :
    ∃ read, c :: rest = read ++ d :: tail ∧ ∀ tail', stringEscape (read ++ d :: tail') =
      .code (octalEscape (c :: rest)).1 (1 + (octalEscape (c :: rest)).2) (d :: tail') := by
  have hdigit {mark : Char} (hmark : isOctalDigit mark = false) : c ≠ mark := by
    rintro rfl
    rw [hoctal] at hmark
    cases hmark
  have hbreak : ¬isLineBreak c = true := by
    intro hbreak
    simp only [isLineBreak, Bool.or_eq_true, beq_iff_eq] at hbreak
    obtain ((rfl | rfl) | rfl) | rfl := hbreak <;> exact absurd hoctal (by decide)
  obtain ⟨read, hread, hlength, hagain⟩ := octalEscape_again h
  have hpos := octalEscape_count_pos rest hoctal
  rw [← hlength] at hpos
  obtain ⟨c', read, rfl⟩ := List.exists_cons_of_length_pos hpos
  obtain ⟨rfl, hrest⟩ := List.cons.inj hread
  refine ⟨c :: read, hread, fun tail' => ?_⟩
  have hdrop : (c :: read ++ d :: tail').drop (octalEscape (c :: rest)).2 = d :: tail' := by
    rw [← hlength, List.drop_left]
  rw [List.cons_append, stringEscape_cons (fun hc => absurd hc (hdigit (by decide)))
    (hdigit (by decide)) (hdigit (by decide)), if_neg hbreak, if_pos hoctal, ← List.cons_append,
    hagain, hdrop]

theorem stringEscape_again {d : Char} {tail : List Char}
    (h : (stringEscape cs).Leaves (d :: tail)) :
    ∃ read, cs = read ++ d :: tail ∧
      ∀ tail', stringEscape (read ++ d :: tail') = (stringEscape cs).before (d :: tail') := by
  unfold stringEscape at h
  split at h
  · cases h
  · obtain rfl : _ = d :: tail := h
    exact ⟨['\r', '\n'], rfl, fun _ => rfl⟩
  · next a b rest =>
    split at h
    · next hdigits =>
      obtain rfl : rest = d :: tail := h
      exact ⟨['x', a, b], rfl, fun _ => by simp [stringEscape, hdigits, StringStep.before]⟩
    · cases h
  · cases h
  · next more =>
    split at h
    · next hescape =>
      obtain rfl : _ = d :: tail := h
      obtain ⟨read, hread, hagain⟩ := stringEscape_again_of_codePoint hescape
      refine ⟨read, hread, fun tail' => (hagain (d :: tail')).trans ?_⟩
      simp only [stringEscape, hescape, StringStep.before]
    · cases h
  · next c rest hnewline hx hx' hu =>
    have hsource : c = '\r' → rest.head? ≠ some '\n' := by
      intro hc hhead
      obtain ⟨more, hmore⟩ := List.head?_eq_some_iff.1 hhead
      exact hnewline more hc hmore
    rw [stringEscape_cons hsource hx' hu]
    split at h
    · next hbreak =>
      obtain rfl : rest = d :: tail := h
      refine ⟨[c], rfl, fun tail' => ?_⟩
      rw [List.singleton_append, stringEscape_cons (by simpa using hsource) hx' hu, if_pos hbreak,
        if_pos hbreak]
      rfl
    · next hbreak =>
      rw [if_neg hbreak]
      split at h
      · next hoctal =>
        rw [if_pos hoctal]
        exact stringEscape_again_of_octal hoctal h
      · next hoctal =>
        obtain rfl : rest = d :: tail := h
        refine ⟨[c], rfl, fun tail' => ?_⟩
        rw [List.singleton_append, stringEscape_cons (by simpa using hsource) hx' hu,
          if_neg hbreak, if_neg hoctal, if_neg hoctal]
        rfl

/-- A step through a string literal is taken again if the next character is there again. -/
theorem stringStep_again {quote d : Char} {tail : List Char}
    (h : (stringStep quote cs).Leaves (d :: tail)) :
    ∃ read, cs = read ++ d :: tail ∧ ∀ tail',
      stringStep quote (read ++ d :: tail') = (stringStep quote cs).before (d :: tail') := by
  unfold stringStep at h
  split at h
  · cases h
  · next more =>
    obtain ⟨read, rfl, hagain⟩ := stringEscape_again h
    exact ⟨'\\' :: read, rfl, hagain⟩
  · next c more hslash =>
    split at h
    · cases h
    · next hquote =>
      split at h
      · cases h
      · next hbreak =>
        obtain rfl : more = d :: tail := h
        refine ⟨[c], rfl, fun tail' => ?_⟩
        have hstep (tail : List Char) :
            stringStep quote (c :: tail) = .code c.toNat c.utf8Size tail := by
          rw [stringStep]
          · simp [hquote, hbreak]
          · exact hslash
        rw [List.singleton_append, hstep, hstep]
        rfl

/-- A step after which a literal goes on takes the characters before what is left, and is taken
again before the first of these. -/
theorem stringStep_goes_on {quote d : Char} (hquote : isQuote quote = true) {step : StringStep}
    {width : Nat} {tail : List Char} (hstep : stringStep quote cs = step)
    (hcase : (∃ n, step = .code n width (d :: tail)) ∨ step = .continuation width (d :: tail)) :
    ∃ front, cs = front ++ d :: tail ∧ byteSize front = width ∧
      ∀ tail', stringStep quote (front ++ d :: tail') = step.before (d :: tail') := by
  have hleaves : (stringStep quote cs).Leaves (d :: tail) := by
    rw [hstep]
    obtain ⟨n, rfl⟩ | rfl := hcase <;> rfl
  have hpassed := stringStep_passed hquote cs
  obtain ⟨front, rfl, hagain⟩ := stringStep_again hleaves
  rw [hstep] at hpassed hagain
  refine ⟨front, rfl, ?_, hagain⟩
  obtain ⟨n, rfl⟩ | rfl := hcase
  all_goals
    obtain ⟨front', -, hfront, hwidth⟩ := hpassed
    obtain rfl := List.append_cancel_right hfront
    rw [hwidth, Nat.zero_add]

/-- A string literal is read again before any text. -/
theorem scanString_again {quote : Char} (hquote : isQuote quote = true) {start : Nat}
    {codes : List Nat} {token : Token}
    (h : scanString quote start offset codes cs = .ok (token, stop, rest)) :
    ∃ read, read ≠ [] ∧ cs = read ++ rest ∧ stop = offset + byteSize read ∧
      ∀ start' offset' rest', scanString quote start' offset' codes (read ++ rest') =
        .ok (token, offset' + byteSize read, rest') := by
  have hsize : quote.utf8Size = 1 := by
    rw [isQuote, Bool.or_eq_true, beq_iff_eq, beq_iff_eq] at hquote
    rcases hquote with rfl | rfl <;> decide
  have hslash : quote ≠ '\\' := by
    rintro rfl
    exact absurd hquote (by decide)
  fun_induction scanString quote start offset codes cs
  case case1 cs _ hstep =>
    cases h
    obtain rfl : cs = quote :: rest := by
      have hpassed := stringStep_passed hquote cs
      rwa [hstep] at hpassed
    refine ⟨[quote], List.cons_ne_nil _ _, rfl, by simp [hsize], fun start' offset' rest' => ?_⟩
    have hclose : stringStep quote (quote :: rest') = .close rest' := by
      rw [stringStep]
      · simp
      · exact hslash
    rw [List.singleton_append, scanString]
    split
    · next heq =>
      cases hclose.symm.trans heq
      simp [hsize]
      rfl
    all_goals
      next heq => cases hclose.symm.trans heq
  case case2 offset codes cs n width more hstep ih =>
    obtain ⟨read, hne, rfl, rfl, hagain⟩ := ih h
    obtain ⟨d, tail, rfl⟩ := List.exists_cons_of_ne_nil hne
    obtain ⟨front, rfl, rfl, hagain'⟩ := stringStep_goes_on hquote hstep (.inl ⟨n, rfl⟩)
    refine ⟨front ++ d :: tail, by simp, by simp, by simp [Nat.add_assoc],
      fun start' offset' rest' => ?_⟩
    rw [List.append_assoc, List.cons_append, scanString]
    split
    case h_2 heq =>
      cases (hagain' _).symm.trans heq
      refine (hagain _ _ _).trans ?_
      simp [Nat.add_assoc]
    all_goals
      next heq => cases (hagain' _).symm.trans heq
  case case3 offset codes cs width more hstep ih =>
    obtain ⟨read, hne, rfl, rfl, hagain⟩ := ih h
    obtain ⟨d, tail, rfl⟩ := List.exists_cons_of_ne_nil hne
    obtain ⟨front, rfl, rfl, hagain'⟩ := stringStep_goes_on hquote hstep (.inr rfl)
    refine ⟨front ++ d :: tail, by simp, by simp, by simp [Nat.add_assoc],
      fun start' offset' rest' => ?_⟩
    rw [List.append_assoc, List.cons_append, scanString]
    split
    case h_3 heq =>
      cases (hagain' _).symm.trans heq
      refine (hagain _ _ _).trans ?_
      simp [Nat.add_assoc]
    all_goals
      next heq => cases (hagain' _).symm.trans heq
  case case4 | case5 => cases h

/-! ## Templates -/

/-- Two texts go on the same up to and past a mark that stands in no escape. -/
inductive SharesMark : List Char → List Char → Prop
  | mark {c : Char} (hc : c = '\x60' ∨ c = '$') (rest rest' : List Char) :
      SharesMark (c :: rest) (c :: rest')
  | cons (c : Char) {rest rest' : List Char} : SharesMark rest rest' →
      SharesMark (c :: rest) (c :: rest')

theorem isHexDigit_of_mark {c : Char} (hc : c = '\x60' ∨ c = '$') : isHexDigit c = false := by
  obtain rfl | rfl := hc <;> decide

/-- The digits of an escape, and the character behind them, stand before a mark or are one. -/
theorem SharesMark.digits {rest rest' : List Char} (h : SharesMark rest rest') :
    rest.takeWhile isHexDigit = rest'.takeWhile isHexDigit ∧
      (rest.dropWhile isHexDigit).head? = (rest'.dropWhile isHexDigit).head? := by
  induction h with
  | mark hc => simp [isHexDigit_of_mark hc]
  | cons c _ ih =>
    simp only [List.takeWhile_cons, List.dropWhile_cons]
    split
    · exact ⟨by rw [ih.1], ih.2⟩
    · exact ⟨rfl, rfl⟩

/-- Whether so many hexadecimal digits come next. -/
def startsHex : Nat → List Char → Bool
  | 0, _ => true
  | _ + 1, [] => false
  | n + 1, c :: cs => isHexDigit c && startsHex n cs

theorem SharesMark.startsHex {rest rest' : List Char} (h : SharesMark rest rest') (n : Nat) :
    startsHex n rest = startsHex n rest' := by
  induction h generalizing n with
  | mark hc =>
    cases n with
    | zero => rfl
    | succ n => simp [Snippet.startsHex, isHexDigit_of_mark hc]
  | cons c _ ih =>
    cases n with
    | zero => rfl
    | succ n => rw [Snippet.startsHex, Snippet.startsHex, ih]

theorem isSome_codePointEscape? (hbrace : rest.head? ≠ some '{') :
    (codePointEscape? ('u' :: rest)).isSome = startsHex 4 rest := by
  unfold codePointEscape?
  split
  · next heq =>
    cases heq
    exact absurd rfl hbrace
  · next heq =>
    cases heq
    split
    · next hdigits => simpa [startsHex] using hdigits
    · next hdigits => simpa [startsHex] using hdigits
  · next hshort =>
    match rest with
    | [] | [_] | [_, _] | [_, _, _] => simp [startsHex]
    | a :: b :: c :: d :: more => exact absurd rfl (hshort a b c d more)

theorem SharesMark.head? {rest rest' : List Char} (h : SharesMark rest rest') :
    rest.head? = rest'.head? := by
  cases h <;> rfl

theorem isSome_bracedEscape? :
    (codePointEscape? ('u' :: '{' :: rest)).isSome =
      (!(rest.takeWhile isHexDigit).isEmpty && hexValue (rest.takeWhile isHexDigit) ≤ 0x10ffff &&
        (rest.dropWhile isHexDigit).head? == some '}') := by
  simp only [codePointEscape?]
  split
  · next heq =>
    rw [heq]
    split
    · next hvalue => grind
    · next hvalue => grind
  · next hclose =>
    have hother : (rest.dropWhile isHexDigit).head? ≠ some '}' := by
      intro hhead
      obtain ⟨more, hmore⟩ := List.head?_eq_some_iff.1 hhead
      exact hclose more hmore
    simp [hother]

theorem SharesMark.isSome_codePointEscape? {rest rest' : List Char} (h : SharesMark rest rest') :
    (codePointEscape? ('u' :: rest)).isSome = (codePointEscape? ('u' :: rest')).isSome := by
  by_cases hbrace : rest.head? = some '{'
  · cases h with
    | mark hc =>
      cases hbrace
      exact absurd hc (by decide)
    | cons c h =>
      cases hbrace
      rw [isSome_bracedEscape?, isSome_bracedEscape?, h.digits.1, h.digits.2]
  · have hbrace' := hbrace
    rw [h.head?] at hbrace'
    rw [Snippet.isSome_codePointEscape? hbrace, Snippet.isSome_codePointEscape? hbrace',
      h.startsHex]

/-- Whether an escape has a value is seen before the closing mark. -/
theorem isTemplateEscape_again {c : Char} {rest rest' : List Char} (h : SharesMark rest rest') :
    isTemplateEscape (c :: rest) = isTemplateEscape (c :: rest') := by
  have hx (rest : List Char) : isTemplateEscape ('x' :: rest) = startsHex 2 rest := by
    match rest with
    | [] | [_] => simp [isTemplateEscape, startsHex]
    | a :: b :: more => simp [isTemplateEscape, startsHex]
  have hu (rest : List Char) :
      isTemplateEscape ('u' :: rest) = (codePointEscape? ('u' :: rest)).isSome := rfl
  have hzero (rest : List Char) :
      isTemplateEscape ('0' :: rest) = !rest.head?.any isAsciiDigit := by
    cases rest <;> rfl
  by_cases hcx : c = 'x'
  · rw [hcx, hx, hx, h.startsHex]
  by_cases hcu : c = 'u'
  · rw [hcu, hu, hu, h.isSome_codePointEscape?]
  by_cases hc0 : c = '0'
  · rw [hc0, hzero, hzero, h.head?]
  · have hother (rest : List Char) :
        isTemplateEscape (c :: rest) = !(isAsciiDigit c && c != '0') := by
      unfold isTemplateEscape
      split <;> grind
    rw [hother, hother]

/-- A part of a template is read again before any text. -/
theorem scanTemplate_again {start : Nat} {sound isClosed isSound : Bool}
    (h : scanTemplate start offset sound cs = .ok (isClosed, isSound, stop, rest)) :
    ∃ read, cs = read ++ rest ∧ stop = offset + byteSize read ∧
      (∀ rest', SharesMark (read ++ rest) (read ++ rest')) ∧
      ∀ start' offset' rest', scanTemplate start' offset' sound (read ++ rest') =
        .ok (isClosed, isSound, offset' + byteSize read, rest') := by
  fun_induction scanTemplate start offset sound cs
  case case1 => cases h
  case case2 =>
    cases h
    exact ⟨['\x60'], rfl, rfl, fun _ => .mark (.inl rfl) _ _, fun _ _ _ => rfl⟩
  case case3 =>
    cases h
    exact ⟨['$', '{'], rfl, rfl, fun _ => .mark (.inr rfl) _ _, fun _ _ _ => rfl⟩
  case case4 offset sound c cs ih =>
    obtain ⟨read, rfl, rfl, hshares, hagain⟩ := ih h
    refine ⟨'\\' :: c :: read, rfl, ?_, fun _ => .cons _ (.cons _ (hshares _)),
      fun start' offset' rest' => ?_⟩
    · simp [show '\\'.utf8Size = 1 by decide, Nat.add_assoc]
    · rw [List.cons_append, List.cons_append, scanTemplate,
        ← isTemplateEscape_again (hshares rest'), hagain]
      simp [show '\\'.utf8Size = 1 by decide, Nat.add_assoc]
  case case5 offset sound c cs hmark hsubst hslash ih =>
    obtain ⟨read, rfl, rfl, hshares, hagain⟩ := ih h
    refine ⟨c :: read, rfl, by simp [Nat.add_assoc], fun _ => .cons _ (hshares _),
      fun start' offset' rest' => ?_⟩
    rw [List.cons_append, scanTemplate, hagain]
    · simp [Nat.add_assoc]
    · exact hmark
    · intro more hc hmore
      have hhead := (hshares rest').head?
      rw [hmore] at hhead
      obtain ⟨more', hmore'⟩ := List.head?_eq_some_iff.1 hhead
      exact hsubst more' hc hmore'
    · intro d more hc hmore
      have hhead := (hshares rest').head?
      rw [hmore] at hhead
      obtain ⟨more', hmore'⟩ := List.head?_eq_some_iff.1 hhead
      exact hslash d more' hc hmore'

end Rebind.Snippet
