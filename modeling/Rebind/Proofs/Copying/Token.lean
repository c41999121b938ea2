import Rebind.Proofs.Copying.Number
import Rebind.Proofs.Copying.Strings

/-!
# Reading a token again

A token of a text is read again where its characters are copied to, if the text behind it goes on
alike, and so are the blanks and comments before it, if no more of them follow.
-/

namespace Rebind.Snippet

open Rebind.Text (byteSize byteSize_nil byteSize_cons byteSize_append)
open Rebind.Unicode (isNameStart isNamePart isAsciiDigit)

variable {offset start stop : Nat} {cs here rest : List Char} {token : Token}

/-! ## Tokens at the head of a text -/

/-- The characters that alone tell what token they start. -/
def openingMarks : List Char := ['"', '\'', '\x60', '#']

/-- The token that another character starts. -/
theorem scanToken_cons {c : Char} (hc : c ∉ openingMarks) :
    scanToken start (c :: cs) =
      if isAsciiDigit c || (c == '.' && cs.head?.any isAsciiDigit) then
        match scanNumber? (c :: cs) with
        | some (count, rest) => pure (.number, start + count, rest)
        | none => throw ⟨.invalidNumber, ⟨start, start + 1⟩⟩
      else if isNameStart c || c == '\\' then
        match scanName start [] false (c :: cs) with
        | some (name, escaped, stop, rest) => pure (.word name escaped, stop, rest)
        | none => throw ⟨.invalidEscape, ⟨start, start + 1⟩⟩
      else
        match punctuator? (c :: cs) with
        | some p => pure (.punctuator p, start + p.length, (c :: cs).drop p.length)
        | none => throw ⟨.invalidCharacter, ⟨start, start + c.utf8Size⟩⟩ := by
  simp only [openingMarks, List.mem_cons, List.not_mem_nil, or_false, not_or] at hc
  obtain ⟨hdouble, hsingle, htick, hhash⟩ := hc
  exact scanToken.eq_6 start c cs hdouble hsingle htick hhash

/-- What is read of a text is read of any text that goes on alike. -/
def ScansAgain (token : Token) (start : Nat) (cs : List Char) (stop : Nat)
    (rest : List Char) : Prop :=
  ∃ read, read ≠ [] ∧ cs = read ++ rest ∧ stop = start + byteSize read ∧
    ∀ start' rest', Alike rest rest' →
      scanToken start' (read ++ rest') = .ok (token, start' + byteSize read, rest')

theorem scansAgain_string {quote : Char} (hquote : isQuote quote = true)
    (hsize : quote.utf8Size = 1)
    (hscan : ∀ start cs, scanToken start (quote :: cs) = scanString quote start (start + 1) [] cs)
    (h : scanString quote start (start + 1) [] cs = .ok (token, stop, rest)) :
    ScansAgain token start (quote :: cs) stop rest := by
  obtain ⟨read, -, rfl, rfl, hagain⟩ := scanString_again hquote h
  refine ⟨quote :: read, List.cons_ne_nil _ _, rfl, ?_, fun start' rest' _ => ?_⟩
  · rw [byteSize_cons, hsize, Nat.add_assoc]
  · rw [List.cons_append, hscan, hagain, byteSize_cons, hsize, Nat.add_assoc]

theorem scansAgain_template {isClosed isSound : Bool}
    (h : scanTemplate start (start + 1) true cs = .ok (isClosed, isSound, stop, rest)) :
    ScansAgain (.template isClosed isSound) start ('\x60' :: cs) stop rest := by
  obtain ⟨read, rfl, rfl, -, hagain⟩ := scanTemplate_again h
  have hsize : '\x60'.utf8Size = 1 := by decide
  refine ⟨'\x60' :: read, List.cons_ne_nil _ _, rfl, ?_, fun start' rest' _ => ?_⟩
  · rw [byteSize_cons, hsize, Nat.add_assoc]
  · rw [List.cons_append, scanToken, hagain, byteSize_cons, hsize, Nat.add_assoc]
    rfl

theorem scansAgain_privateName {name : String} {isEscaped : Bool} (hname : name ≠ "")
    (h : scanName (start + 1) [] false cs = some (name, isEscaped, stop, rest)) :
    ScansAgain (.privateName name) start ('#' :: cs) stop rest := by
  obtain ⟨hrest, read, rfl, rfl, hagain⟩ := scanName_again h hname
  have hsize : '#'.utf8Size = 1 := by decide
  have hempty : name.isEmpty = false := by simpa using hname
  refine ⟨'#' :: read, List.cons_ne_nil _ _, rfl, ?_, fun start' rest' halike => ?_⟩
  · rw [byteSize_cons, hsize, Nat.add_assoc]
  · rw [List.cons_append, scanToken, hagain _ _ (halike.severed hrest), byteSize_cons, hsize,
      Nat.add_assoc]
    dsimp only
    rw [hempty]
    rfl

theorem scansAgain_number {c : Char} {count : Nat} (hc : c ∉ openingMarks)
    (hdigit : (isAsciiDigit c || (c == '.' && cs.head?.any isAsciiDigit)) = true)
    (h : scanNumber? (c :: cs) = some (count, rest)) :
    ScansAgain .number start (c :: cs) (start + count) rest := by
  obtain ⟨⟨read, -, hcs, hcount⟩, -⟩ := scanNumber?_passes hdigit h
  obtain ⟨hrest, more, hmore, hagain⟩ := scanNumber?_again hdigit h
  rw [Nat.zero_add] at hcount
  obtain rfl : read = c :: more := List.append_cancel_right (hcs.symm.trans hmore)
  refine ⟨c :: more, List.cons_ne_nil _ _, hmore, by rw [hcount], fun start' rest' halike => ?_⟩
  obtain ⟨-, rfl⟩ := List.cons.inj hmore
  -- A point starts a number only before a digit, which belongs to the number.
  have hdigit' :
      (isAsciiDigit c || (c == '.' && (more ++ rest').head?.any isAsciiDigit)) = true := by
    cases more with
    | cons => exact hdigit
    | nil =>
      rw [Bool.or_eq_true] at hdigit ⊢
      refine hdigit.imp_right fun hpoint => ?_
      have hhead := (Bool.and_eq_true_iff.1 hpoint).2
      cases rest with
      | nil => cases hhead
      | cons d tail =>
        have hpart := (hrest d rfl).1
        rw [isNamePart_of_isAsciiDigit hhead] at hpart
        cases hpart
  rw [List.cons_append, scanToken_cons hc, if_pos hdigit', hagain _ (halike.detached hrest), hcount]
  rfl

theorem scansAgain_word {c : Char} {name : String} {isEscaped : Bool} (hc : c ∉ openingMarks)
    (hdigit : isAsciiDigit c = false) (hstart : (isNameStart c || c == '\\') = true)
    (h : scanName start [] false (c :: cs) = some (name, isEscaped, stop, rest)) :
    ScansAgain (.word name isEscaped) start (c :: cs) stop rest := by
  have hname : name ≠ "" := by
    obtain ⟨d, hd, -⟩ := scanName_starts hstart h
    rintro rfl
    cases hd
  have hpoint : (c == '.') = false := by
    rw [beq_eq_false_iff_ne]
    rintro rfl
    revert hstart
    decide
  have hlt := scanName_lt hstart h
  obtain ⟨hrest, read, hcs, rfl, hagain⟩ := scanName_again h hname
  cases read with
  | nil =>
    rw [byteSize_nil] at hlt
    omega
  | cons d more =>
    obtain ⟨rfl, -⟩ := List.cons.inj hcs
    refine ⟨c :: more, List.cons_ne_nil _ _, hcs, rfl, fun start' rest' halike => ?_⟩
    have hnumber :
        ¬ (isAsciiDigit c || (c == '.' && (more ++ rest').head?.any isAsciiDigit)) = true := by
      simp [hdigit, hpoint]
    have hread := hagain start' rest' (halike.severed hrest)
    rw [List.cons_append] at hread ⊢
    rw [scanToken_cons hc, if_neg hnumber, if_pos hstart, hread]
    rfl

theorem scansAgain_punctuator {c : Char} {mark : String} (hc : c ∉ openingMarks)
    (hnumber : ¬ (isAsciiDigit c || (c == '.' && cs.head?.any isAsciiDigit)) = true)
    (hstart : ¬ (isNameStart c || c == '\\') = true) (h : punctuator? (c :: cs) = some mark) :
    ScansAgain (.punctuator mark) start (c :: cs) (start + mark.length)
      ((c :: cs).drop mark.length) := by
  have hfind := h
  rw [punctuator?_eq] at hfind
  obtain ⟨hplain, hne⟩ := plain_of_mem_punctuators (List.mem_of_find?_eq_some hfind)
  obtain ⟨rest, hcs, hagain⟩ := punctuator?_again h
  have hdrop (rest : List Char) : (mark.toList ++ rest).drop mark.length = rest := by
    rw [← String.length_toList, List.drop_left]
  rw [hcs, hdrop]
  refine ⟨mark.toList, hne, rfl, by rw [hplain.byteSize_eq, String.length_toList],
    fun start' rest' halike => ?_⟩
  obtain ⟨d, more, hmark⟩ := List.exists_cons_of_ne_nil hne
  rw [hmark, List.cons_append] at hcs
  obtain ⟨rfl, rfl⟩ := List.cons.inj hcs
  rw [← (halike.append more).any_isAsciiDigit] at hnumber
  have hread := hagain rest' halike
  rw [hplain.byteSize_eq, String.length_toList]
  have htail := hdrop rest'
  rw [hmark, List.cons_append] at hread htail ⊢
  rw [scanToken_cons hc, if_neg hnumber, if_neg hstart, hread]
  dsimp only
  rw [htail]
  rfl

/-- A token is read again if the text behind it goes on alike. -/
theorem scanToken_again (h : scanToken start cs = .ok (token, stop, rest))
    (hne : token ≠ .endOfInput) : ScansAgain token start cs stop rest := by
  unfold scanToken at h
  split at h
  · cases h
    exact absurd rfl hne
  · exact scansAgain_string (by decide) (by decide) (fun _ _ => rfl) h
  · exact scansAgain_string (by decide) (by decide) (fun _ _ => rfl) h
  · obtain ⟨⟨isClosed, isSound, end', tail⟩, hpart, hanswer⟩ := exists_ok_of_bind h
    cases hanswer
    exact scansAgain_template hpart
  · split at h
    · next name _ _ _ hname =>
      split at h
      · cases h
      · next hempty =>
        cases h
        exact scansAgain_privateName (by simpa using hempty) hname
    · cases h
  · next c more hdouble hsingle htick hhash =>
    have hc : c ∉ openingMarks := by
      simp only [openingMarks, List.mem_cons, List.not_mem_nil, or_false, not_or]
      exact ⟨hdouble, hsingle, htick, hhash⟩
    split at h
    · next hdigit =>
      split at h
      · next hnumber =>
        cases h
        exact scansAgain_number hc hdigit hnumber
      · cases h
    · next hnumber =>
      split at h
      · next hstart =>
        split at h
        · next hname =>
          cases h
          refine scansAgain_word hc ?_ hstart hname
          simp only [Bool.or_eq_true, not_or, Bool.not_eq_true] at hnumber
          exact hnumber.1
        · cases h
      · next hstart =>
        split at h
        · next hmark =>
          cases h
          exact scansAgain_punctuator hc hnumber hstart hmark
        · cases h

/-! ## Blanks and comments before a token -/

/-- No blank and no comment stands at the head of a text. -/
def Ungapped (cs : List Char) : Prop :=
  ∀ offset broken, skipGap .blank offset broken cs = .ok (offset, broken, cs)

theorem ungapped_nil : Ungapped [] := fun _ _ => rfl

theorem ungapped_cons {c : Char} (hc : isSpace c = false ∧ isLineBreak c = false)
    (hslash : c = '/' → ∀ d, cs.head? = some d → d ≠ '/' ∧ d ≠ '*') : Ungapped (c :: cs) := by
  intro offset broken
  rw [skipGap, if_neg (by simp [hc.1]), if_neg (by simp [hc.2])]
  split
  · next h =>
    obtain rfl := beq_iff_eq.1 h
    cases cs with
    | nil => rfl
    | cons d more =>
      obtain ⟨hline, hblock⟩ := hslash rfl d rfl
      rw [skipGap, if_neg (by simpa using hline), if_neg (by simpa using hblock)]
      rfl
  · rfl

/-- The same gap, of which a comment starts elsewhere. -/
def Gap.movedTo (start : Nat) : Gap → Gap
  | .blockComment _ afterStar => .blockComment start afterStar
  | gap => gap

/-- At a slash that starts no comment there is no gap. -/
theorem Ungapped.skipGap_slash {broken : Bool} (h : Ungapped ('/' :: cs)) :
    skipGap .slash offset broken cs = .ok (offset, broken, '/' :: cs) := by
  have hblank := h offset broken
  rw [skipGap] at hblank
  exact hblank

/-- What a gap takes of a text is skipped again where it is copied to, if what follows is no blank
and no comment. -/
def SkipsAgain (gap : Gap) (offset : Nat) (broken : Bool) (cs : List Char) (start : Nat)
    (isBroken : Bool) (here : List Char) : Prop :=
  ∃ read, gap.text cs = read ++ here ∧ start = offset + byteSize read ∧
    ∀ begin offset' cs' here', Ungapped here' → gap.text cs' = read ++ here' →
      skipGap (gap.movedTo begin) offset' broken cs' =
        .ok (offset' + byteSize read, isBroken, here')

/-- A gap goes on behind a character. -/
theorem SkipsAgain.cons {gap next : Gap} {c : Char} {broken broken' isBroken : Bool} {size : Nat}
    (hsize : c.utf8Size = size) (htext : ∀ cs, gap.text cs = cs) (htext' : ∀ cs, next.text cs = cs)
    (hskip : ∀ begin offset' cs', skipGap (gap.movedTo begin) offset' broken (c :: cs') =
      skipGap (next.movedTo begin) (offset' + size) broken' cs')
    (h : SkipsAgain next (offset + size) broken' cs start isBroken here) :
    SkipsAgain gap offset broken (c :: cs) start isBroken here := by
  obtain ⟨read, hcs, rfl, hagain⟩ := h
  rw [htext'] at hcs
  refine ⟨c :: read, by rw [htext, hcs, List.cons_append], ?_, ?_⟩
  · rw [byteSize_cons, hsize, Nat.add_assoc]
  · intro begin offset' cs' here' hhere hcs'
    rw [htext] at hcs'
    subst hcs'
    rw [List.cons_append, hskip, hagain begin _ _ _ hhere (htext' _), byteSize_cons, hsize,
      Nat.add_assoc]

/-- A comment goes on behind its two first characters. -/
theorem SkipsAgain.comment {next : Gap} {c : Char} {broken isBroken : Bool} (hsize : c.utf8Size = 1)
    (htext : ∀ cs, next.text cs = cs)
    (hskip : ∀ offset' cs', skipGap .slash offset' broken (c :: cs') =
      skipGap (next.movedTo offset') (offset' + 2) broken cs')
    (h : SkipsAgain next (offset + 2) broken cs start isBroken here) :
    SkipsAgain .slash offset broken (c :: cs) start isBroken here := by
  obtain ⟨read, hcs, rfl, hagain⟩ := h
  have hslash : '/'.utf8Size = 1 := by decide
  rw [htext] at hcs
  refine ⟨'/' :: c :: read, by rw [hcs]; rfl, ?_, ?_⟩
  · rw [byteSize_cons, byteSize_cons, hslash, hsize]
    omega
  · intro begin offset' cs' here' hhere hcs'
    obtain rfl : cs' = c :: (read ++ here') := (List.cons.inj hcs').2
    have hread := hagain offset' (offset' + 2) _ _ hhere (htext _)
    have hbytes : offset' + byteSize ('/' :: c :: read) = offset' + 2 + byteSize read := by
      rw [byteSize_cons, byteSize_cons, hslash, hsize]
      omega
    rw [hbytes, ← hread]
    exact hskip offset' _

/-- A slash that starts no comment is no part of a gap. -/
theorem skipsAgain_slash {broken : Bool} :
    SkipsAgain .slash offset broken cs offset broken ('/' :: cs) := by
  refine ⟨[], rfl, rfl, fun begin offset' cs' here' hhere hcs' => ?_⟩
  obtain rfl : '/' :: cs' = here' := hcs'
  exact hhere.skipGap_slash

/-- Blanks and comments end where no more of them follow, and are skipped again. -/
theorem skipGap_again {gap : Gap} {broken isBroken : Bool}
    (h : skipGap gap offset broken cs = .ok (start, isBroken, here)) (hne : here ≠ []) :
    Ungapped here ∧ SkipsAgain gap offset broken cs start isBroken here := by
  have htext (cs : List Char) : Gap.blank.text cs = cs := rfl
  fun_induction skipGap gap offset broken cs
  case case1 => cases h
  case case2 =>
    cases h
    exact ⟨ungapped_cons (by decide) (by rintro _ _ ⟨⟩), skipsAgain_slash⟩
  case case3 =>
    cases h
    exact absurd rfl hne
  case case4 hspace ih =>
    refine (ih h).imp_right (.cons rfl htext htext fun _ _ _ => ?_)
    rw [Gap.movedTo, skipGap, if_pos hspace]
    all_goals
      intros
      contradiction
  case case5 hspace hbreak ih =>
    refine (ih h).imp_right (.cons rfl htext htext fun _ _ _ => ?_)
    rw [Gap.movedTo, skipGap, if_neg hspace, if_pos hbreak]
    all_goals
      intros
      contradiction
  case case6 hspace hbreak hc ih =>
    obtain rfl := beq_iff_eq.1 hc
    obtain ⟨hhere, read, hcs, hstart, hagain⟩ := ih h
    refine ⟨hhere, read, hcs, hstart, fun begin offset' cs' here' hhere' hcs' => ?_⟩
    cases read with
    | nil =>
      have hsame := hagain 0 0 _ _ hhere hcs
      rw [show here = '/' :: _ from hcs.symm] at hhere hsame
      cases hhere.skipGap_slash.symm.trans hsame
      rw [show cs' = here' from hcs']
      exact hhere' _ _
    | cons c read =>
      obtain ⟨rfl, -⟩ := List.cons.inj hcs
      rw [show cs' = '/' :: (read ++ here') from hcs']
      exact hagain begin offset' (read ++ here') here' hhere' rfl
  case case7 hspace hbreak hc =>
    cases h
    refine ⟨ungapped_cons ⟨by simpa using hspace, by simpa using hbreak⟩ ?_, [], rfl, rfl, ?_⟩
    · rintro rfl
      exact absurd rfl hc
    · intro begin offset' cs' here' hhere hcs'
      rw [show cs' = here' from hcs']
      exact hhere _ _
  case case8 hc ih =>
    obtain rfl := beq_iff_eq.1 hc
    exact (ih h).imp_right (.comment (by decide) (fun _ => rfl) fun _ _ => rfl)
  case case9 hc ih =>
    obtain rfl := beq_iff_eq.1 hc
    exact (ih h).imp_right (.comment (by decide) (fun _ => rfl) fun _ _ => rfl)
  case case10 hline hblock =>
    cases h
    refine ⟨ungapped_cons (by decide) fun _ d hd => ?_, skipsAgain_slash⟩
    cases hd
    exact ⟨by simpa using hline, by simpa using hblock⟩
  case case11 hbreak ih =>
    refine (ih h).imp_right (.cons rfl (fun _ => rfl) htext fun _ _ _ => ?_)
    rw [Gap.movedTo, skipGap, if_pos hbreak]
    · rfl
    · intros
      contradiction
  case case12 hbreak ih =>
    refine (ih h).imp_right (.cons rfl (fun _ => rfl) (fun _ => rfl) fun _ _ _ => ?_)
    rw [Gap.movedTo, skipGap, if_neg hbreak]
    intros
    contradiction
  case case13 hend ih =>
    obtain rfl := beq_iff_eq.1 (Bool.and_eq_true_iff.1 hend).2
    refine (ih h).imp_right (.cons (by decide) (fun _ => rfl) htext fun _ _ _ => ?_)
    rw [Gap.movedTo, skipGap, if_pos hend]
    rfl
  case case14 hend ih =>
    refine (ih h).imp_right (.cons rfl (fun _ => rfl) (fun _ => rfl) fun _ _ _ => ?_)
    rw [Gap.movedTo, skipGap, if_neg hend]
    rfl

/-- A text with no gap at its head starts with no blank and no comment. -/
theorem Ungapped.of_cons {c : Char} (h : Ungapped (c :: cs)) :
    (isSpace c = false ∧ isLineBreak c = false) ∧
      (c = '/' → ∀ d, cs.head? = some d → d ≠ '/' ∧ d ≠ '*') := by
  have hsize := c.utf8Size_pos
  have hmoved {gap : Gap} {offset : Nat} {broken : Bool} {cs cs' : List Char} (hlt : 0 < offset) :
      skipGap gap offset broken cs ≠ .ok (0, false, cs') := by
    intro hskip
    have hle := (skipGap_passes hskip).le
    omega
  have hhead := h 0 false
  rw [skipGap] at hhead
  split at hhead
  · exact absurd hhead (hmoved (by omega))
  · next hspace =>
    split at hhead
    · exact absurd hhead (hmoved (by omega))
    · next hbreak =>
      refine ⟨⟨by simpa using hspace, by simpa using hbreak⟩, ?_⟩
      rintro rfl d hd
      cases cs with
      | nil => cases hd
      | cons e more =>
        cases hd
        have hslash : skipGap .slash 0 false (d :: more) = .ok (0, false, '/' :: d :: more) :=
          h.skipGap_slash
        rw [skipGap] at hslash
        split at hslash
        · exact absurd hslash (hmoved (by omega))
        · next hline =>
          split at hslash
          · exact absurd hslash (hmoved (by omega))
          · next hblock => exact ⟨by simpa using hline, by simpa using hblock⟩

/-- Behind the first character of a token no other comment starts where the token is copied to. -/
theorem Ungapped.again {read rest' : List Char} (h : Ungapped (read ++ rest)) (hne : read ≠ [])
    (halike : Alike rest rest') : Ungapped (read ++ rest') := by
  obtain ⟨c, more, rfl⟩ := List.exists_cons_of_ne_nil hne
  obtain ⟨hblank, hslash⟩ := h.of_cons
  refine ungapped_cons hblank fun hc d hd => ?_
  cases more with
  | cons => exact hslash hc d hd
  | nil =>
    cases halike with
    | cons => exact hslash hc d hd
    | ended hmark =>
      cases hd
      constructor <;> rintro rfl <;> exact absurd hmark (by decide)
    | renamed _ hstart =>
      cases hd
      constructor <;> rintro rfl <;> exact absurd hstart (by decide)

/-- No part of a name separates tokens. -/
theorem isSpace_of_isNamePart {c : Char} (h : isNamePart c = true) :
    isSpace c = false ∧ isLineBreak c = false := by
  have hmark : isNamePart '\ufeff' = false := by decide +kernel
  have hblank := isBlank_of_isNamePart h
  constructor
  · rw [← Bool.not_eq_true]
    intro hspace
    have hchar : c = '\ufeff' := by
      simp [isSpace, Text.isBlank, char_le_iff, char_eq_iff] at hspace hblank ⊢
      omega
    rw [hchar, hmark] at h
    cases h
  · rw [← Bool.not_eq_true]
    intro hbreak
    simp [isLineBreak, Text.isBlank, char_le_iff, char_eq_iff] at hbreak hblank
    omega

/-- The characters of a name, as they are. -/
theorem scanToken_spelled {c : Char} {word : List Char} (hc : isNameStart c = true)
    (hword : ∀ d ∈ word, isNamePart d = true) (hrest : Severed rest) :
    scanToken start (c :: word ++ rest) =
      .ok (.word (String.ofList (c :: word)) false, start + byteSize (c :: word), rest) := by
  have hne {d : Char} (hd : isNameStart d = false) : c ≠ d := by
    rintro rfl
    exact absurd hc (by simp [hd])
  have hopening : c ∉ openingMarks := by
    have hall : openingMarks.all (fun d => isNameStart d == false) = true := by decide
    exact fun hmem => hne (beq_iff_eq.1 (List.all_eq_true.1 hall c hmem)) rfl
  have hdigit : isAsciiDigit c = false := isAsciiDigit_of_isNameStart hc
  have hpoint : (c == '.') = false := beq_eq_false_iff_ne.2 (hne (by decide))
  have hfirst : scanName start [] false (c :: (word ++ rest)) =
      scanName (start + c.utf8Size) [c] false (word ++ rest) := by
    rw [scanName]
    · simp [hc]
    · exact hne (by decide)
  rw [List.cons_append, scanToken_cons hopening, hdigit, hpoint, if_neg (by simp), hc,
    if_pos (by simp), hfirst, scanName_append (List.cons_ne_nil c []) hword,
    scanName_severed hrest, byteSize_cons, Nat.add_assoc, List.reverse_append, List.reverse_reverse]
  rfl

namespace Lexeme

variable {l next : Lexeme}

/-- The blanks and comments before a token are skipped again before any other one. -/
theorem scan_gap (h : scan offset cs = .ok l) (hne : l.here ≠ []) :
    Ungapped l.here ∧ ∃ gap, cs = gap ++ l.here ∧ l.start = offset + byteSize gap ∧
      ∀ {offset' stop' : Nat} {here' rest' : List Char} {token' : Token}, Ungapped here' →
        scanToken (offset' + byteSize gap) here' = .ok (token', stop', rest') →
        scan offset' (gap ++ here') =
          .ok ⟨token', offset' + byteSize gap, stop', l.afterBreak, here', rest'⟩ := by
  obtain ⟨⟨start, isBroken, here⟩, hgap, h⟩ := exists_ok_of_bind h
  obtain ⟨⟨token, stop, rest⟩, htoken, h⟩ := exists_ok_of_bind h
  cases h
  obtain ⟨hhere, gap, hcs, hstart, hagain⟩ := skipGap_again hgap hne
  refine ⟨hhere, gap, hcs, hstart, fun {offset' _ here' _ _} hhere' htoken' => ?_⟩
  have hskip : skipGap .blank offset' false (gap ++ here') = _ := hagain 0 offset' _ _ hhere' rfl
  rw [scan, hskip]
  change scanToken _ here' >>= _ = _
  rw [htoken']
  rfl

/-- A token at the head of a text, with no blank before it. -/
theorem scan_of_scanToken (hcs : Ungapped cs) (h : scanToken offset cs = .ok (token, stop, rest)) :
    scan offset cs = .ok ⟨token, offset, stop, false, cs, rest⟩ := by
  rw [scan, hcs offset false]
  change scanToken offset cs >>= _ = _
  rw [h]
  rfl

end Lexeme

end Rebind.Snippet
