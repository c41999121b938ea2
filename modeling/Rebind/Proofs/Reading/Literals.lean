import Rebind.Proofs.Reading.Passes

/-!
# String literals in a text

`literal?` splits a text behind the string literal that it starts with.  It looks at marks,
backslashes and line breaks only, so it finds the end of a literal without reading its value.
-/

namespace Rebind.Snippet

/-- Whether the character opens and closes string literals. -/
def isQuote (c : Char) : Bool := c == '"' || c == '\''

/-- A string literal past its opening mark: what is left of it, with its closing mark, and the text
past it. -/
def literalTail (quote : Char) : List Char → Option (List Char × List Char)
  | [] => none
  | '\\' :: '\r' :: '\n' :: cs =>
    (literalTail quote cs).map (Prod.map (['\\', '\r', '\n'] ++ ·) id)
  | '\\' :: c :: cs => (literalTail quote cs).map (Prod.map (['\\', c] ++ ·) id)
  | c :: cs =>
    if c = quote then some ([c], cs)
    else if c = '\n' ∨ c = '\r' then none
    else (literalTail quote cs).map (Prod.map ([c] ++ ·) id)

/-- The string literal that a text starts with, and the text past it. -/
def literal? : List Char → Option (List Char × List Char)
  | [] => none
  | c :: cs =>
    if isQuote c then (literalTail c cs).map (Prod.map ([c] ++ ·) id) else none

variable {quote : Char} {front back read cs rest : List Char}

/-- A plain character that is no mark and no backslash. -/
def IsQuiet (c : Char) : Prop :=
  IsPlain c ∧ isQuote c = false ∧ c ≠ '\\'

/-- Every character is plain, and none is a mark or a backslash. -/
def Quiet (cs : List Char) : Prop :=
  ∀ c ∈ cs, IsQuiet c

/-- The end of a literal is looked for past a beginning, if no line feed comes next. -/
def Skips (quote : Char) (front : List Char) : Prop :=
  ∀ cs, cs.head? ≠ some '\n' →
    literalTail quote (front ++ cs) = (literalTail quote cs).map (Prod.map (front ++ ·) id)

/-- The text is what is left of a literal past its opening mark, whatever follows. -/
def Closes (quote : Char) (read : List Char) : Prop :=
  ∀ rest, literalTail quote (read ++ rest) = some (read, rest)

/-- The text is a string literal, whatever follows. -/
def IsLiteral (read : List Char) : Prop :=
  ∀ rest, literal? (read ++ rest) = some (read, rest)

theorem isQuiet_of_isHexDigit {c : Char} (h : isHexDigit c = true) : IsQuiet c := by
  refine ⟨isPlain_of_isHexDigit h, ?_, ?_⟩
  · rw [← Bool.not_eq_true, isQuote, Bool.or_eq_true, beq_iff_eq, beq_iff_eq]
    rintro (rfl | rfl) <;> exact absurd h (by decide)
  · rintro rfl
    exact absurd h (by decide)

theorem isHexDigit_of_isOctalDigit {c : Char} (h : isOctalDigit c = true) :
    isHexDigit c = true := by
  simp only [isOctalDigit, Bool.and_eq_true, decide_eq_true_eq] at h
  have hdigit : '0' ≤ c ∧ c ≤ '9' := ⟨h.1, Char.le_trans h.2 (by decide)⟩
  simp [isHexDigit, hexDigit?, hdigit]

theorem Quiet.plain (h : Quiet cs) : Plain cs :=
  fun c hc => (h c hc).1

/-- A character that is no mark, backslash or line break. -/
theorem literalTail_cons {c : Char} (hslash : c ≠ '\\') (hquote : c ≠ quote)
    (hbreak : ¬ (c = '\n' ∨ c = '\r')) :
    literalTail quote (c :: cs) = (literalTail quote cs).map (Prod.map ([c] ++ ·) id) := by
  rw [literalTail, if_neg hquote, if_neg hbreak]
  · exact fun _ h _ => absurd h hslash
  · exact fun _ _ h _ => absurd h hslash

theorem literalTail_quote (hquote : isQuote quote = true) :
    literalTail quote (quote :: cs) = some ([quote], cs) := by
  have hslash : quote ≠ '\\' := by
    rintro rfl
    revert hquote
    decide
  rw [literalTail, if_pos rfl]
  · exact fun _ h _ => absurd h hslash
  · exact fun _ _ h _ => absurd h hslash

theorem literalTail_newline (hquote : isQuote quote = true) :
    literalTail quote ('\n' :: cs) = none := by
  have hne : '\n' ≠ quote := by
    rintro rfl
    revert hquote
    decide
  rw [literalTail, if_neg hne, if_pos (.inl rfl)]
  · exact fun _ h _ => absurd h (by decide)
  · exact fun _ _ h _ => absurd h (by decide)

theorem map_append_append {answer : Option (List Char × List Char)} :
    (answer.map (Prod.map (back ++ ·) id)).map (Prod.map (front ++ ·) id) =
      answer.map (Prod.map (front ++ back ++ ·) id) := by
  cases answer <;> simp [Prod.map]

/-- Quiet characters behind what is skipped. -/
theorem Skips.append (hquote : isQuote quote = true) (h : Skips quote front) (hback : Quiet back) :
    Skips quote (front ++ back) := by
  induction back generalizing front with
  | nil => rwa [List.append_nil]
  | cons c back ih =>
    obtain ⟨⟨⟨-, hshown⟩, hother, hslash⟩, hback⟩ := List.forall_mem_cons.1 hback
    have hne : c ≠ quote := by
      rintro rfl
      exact absurd hquote (by simp [hother])
    have hbreak : ¬ (c = '\n' ∨ c = '\r') := by
      rintro (rfl | rfl) <;> exact absurd hshown (by decide)
    have hc : Skips quote (front ++ [c]) := by
      intro cs _
      rw [List.append_assoc, List.singleton_append, h _ (by simpa using fun hc => hbreak (.inl hc)),
        literalTail_cons hslash hne hbreak, map_append_append]
    have hmore := ih hc hback
    rwa [List.append_assoc] at hmore

/-- A backslash with the character that it escapes. -/
theorem skips_escape (c : Char) : Skips quote ['\\', c] := by
  intro cs hcs
  rw [List.cons_append, List.cons_append, List.nil_append, literalTail]
  rintro more rfl rfl
  exact hcs rfl

theorem skips_lineBreak : Skips quote ['\\', '\r', '\n'] :=
  fun cs _ => by simp [literalTail]

/-- A backslash and an escape, of which only the first character may be a mark. -/
theorem skips_slash {c : Char} (hquote : isQuote quote = true) (hback : Quiet back) :
    Skips quote ('\\' :: c :: back) :=
  (skips_escape c).append hquote hback

theorem Closes.head_ne (hquote : isQuote quote = true) (h : Closes quote read) :
    (read ++ rest).head? ≠ some '\n' := by
  intro hhead
  obtain ⟨cs, hcs⟩ := List.head?_eq_some_iff.1 hhead
  have hnone := h rest
  rw [hcs, literalTail_newline hquote] at hnone
  cases hnone

theorem Closes.append (hquote : isQuote quote = true) (hfront : Skips quote front)
    (hread : Closes quote read) : Closes quote (front ++ read) := by
  intro rest
  rw [List.append_assoc, hfront _ (hread.head_ne hquote), hread rest]
  rfl

theorem closes_quote (hquote : isQuote quote = true) : Closes quote [quote] :=
  fun _ => literalTail_quote hquote

theorem Closes.isLiteral (hquote : isQuote quote = true) (h : Closes quote read) :
    IsLiteral (quote :: read) := by
  intro rest
  rw [List.cons_append, literal?, if_pos hquote, h rest]
  rfl

theorem IsLiteral.head (h : IsLiteral read) : ∃ c more, read = c :: more ∧ isQuote c = true := by
  have hnone := h []
  rw [List.append_nil] at hnone
  cases read with
  | nil => cases hnone
  | cons c more =>
    refine ⟨c, more, rfl, ?_⟩
    by_cases hc : isQuote c = true
    · exact hc
    · rw [literal?, if_neg hc] at hnone
      cases hnone

/-- The text past a literal is a part of the text. -/
theorem literalTail_eq_append {answer : List Char × List Char}
    (h : literalTail quote cs = some answer) : cs = answer.1 ++ answer.2 := by
  fun_induction literalTail quote cs generalizing answer
  case case1 | case5 => cases h
  case case4 =>
    cases h
    rfl
  all_goals
    next ih =>
    obtain ⟨inner, hinner, rfl⟩ := Option.map_eq_some_iff.1 h
    rw [ih hinner]
    rfl

theorem literal?_eq_append {answer : List Char × List Char} (h : literal? cs = some answer) :
    cs = answer.1 ++ answer.2 ∧ answer.1 ≠ [] := by
  unfold literal? at h
  split at h
  · cases h
  · split at h
    · obtain ⟨inner, hinner, rfl⟩ := Option.map_eq_some_iff.1 h
      rw [literalTail_eq_append hinner]
      exact ⟨rfl, List.cons_ne_nil _ _⟩
    · cases h

end Rebind.Snippet
