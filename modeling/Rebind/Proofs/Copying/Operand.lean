import Rebind.Proofs.Copying.Pattern

/-!
# Operands that stand alone

`ReadsAlone` is what is assumed of the grammar of expressions where a pattern is printed: that a
text without host forms is read as one expression.  It holds of numbers, and of names with
properties taken from them.
-/

namespace Rebind.Grammar

open Rebind.Text (Span byteSize byteSize_append byteSize_cons)
open Rebind.Unicode (isNameStart isNamePart isAsciiDigit)
open Rebind.Snippet
open Rebind.Grammar.Parser

/-! ## Where an expression ends -/

/-- Nothing that follows here goes on with an expression. -/
def State.Stops (t : State) : Prop :=
  t.lexeme.token = .endOfInput ∨ t.lexeme.token = .punctuator "," ∨
    t.lexeme.token = .punctuator "]" ∨ t.lexeme.token = .punctuator "\x7d"

theorem State.Ahead.stops {source text : List Char} {exports : List String} {t : State}
    (ht : t.Ahead source exports text) (htext : Follows elementMarks text) : t.Stops := by
  obtain ⟨c, tail, hc, rfl⟩ := htext.exists_cons
  simp only [elementMarks, List.mem_cons, List.not_mem_nil, or_false] at hc
  rcases hc with rfl | rfl | rfl
  · exact .inr (.inl (ht.lexeme_mark (by decide)).1)
  · exact .inr (.inr (.inl (ht.lexeme_mark (by decide)).1))
  · exact .inr (.inr (.inr (ht.lexeme_mark (by decide)).1))

section Rests

variable {t : State} {g : Productions} {ctx : Context}

theorem accessRound_stops (ht : t.Stops) {calls isOptional : Bool} {start : Nat} {a : Term} :
    (accessRound g ctx calls start a isOptional).Answers t fun r t' => r = .inr a ∧ t' = t := by
  simp only [accessRound, answers_bind, answers_current]
  rcases ht with ht | ht | ht | ht
  all_goals
    rw [ht]
    exact answers_pure.2 ⟨rfl, rfl⟩

theorem postfixRest_stops (ht : t.Stops) {a : Term} :
    (postfixRest a).Answers t fun b t' => b = a ∧ t' = t := by
  rcases ht with ht | ht | ht | ht <;>
    simp [postfixRest, answers_bind, answers_current, ht, isMark]

theorem binaryRest_stops (ht : t.Stops) {least : Nat} {a : Term} :
    (binaryRest g ctx least a).Answers t fun b t' => b = a ∧ t' = t := by
  rw [binaryRest, answers_repeatFrom, answers_iterate]
  simp only [answers_bind, answers_current]
  rcases ht with ht | ht | ht | ht
  all_goals
    rw [ht]
    exact answers_pure.2 ⟨rfl, rfl⟩

theorem assignmentRest_stops (ht : t.Stops) {a : Term} :
    (assignmentRest g ctx a).Answers t fun b t' => b = a ∧ t' = t := by
  rcases ht with ht | ht | ht | ht <;>
    simp [assignmentRest, answers_bind, answers_current, ht, isMark, isAssignmentOperator,
      assignmentOperators]

theorem not_arrow_of_stops (ht : t.Stops) : isMark t.lexeme.token "=>" = false := by
  rcases ht with ht | ht | ht | ht <;> rw [ht] <;> rfl

end Rests

/-! ## Operands -/

/-- A number, or a word that is a name whatever follows. -/
def IsOperand (token : Token) : Prop :=
  token = .number ∨ ∃ name, token = .word name false ∧ isName {} name = true ∧ name ≠ "async"

section Operands

variable {t : State} {g : Productions}

/-- A reserved word is no name. -/
theorem ne_of_isName {name word : String} (h : isName {} name = true)
    (hword : isName {} word = false) : name ≠ word := by
  rintro rfl
  rw [h] at hword
  cases hword

theorem primary_operand (htoken : IsOperand t.lexeme.token) {Q : State → Prop}
    (h : advance.Answers t fun _ t' => Q t') :
    (primary g {}).Answers t fun a t' =>
      a.pending = none ∧ a.span = ⟨t.lexeme.start, t.lexeme.stop⟩ ∧ Q t' := by
  simp only [primary, answers_bind, answers_current]
  rcases htoken with htoken | ⟨name, htoken, hname, hasync⟩
  · simp only [htoken, answers_bind, answers_pure]
    exact h.of fun _ t1 h1 => ⟨rfl, rfl, h1⟩
  · have hreserved {word : String} (hword : isName {} word = false) : name ≠ word :=
      ne_of_isName hname hword
    have hasync' : (name == "async") = false := beq_eq_false_iff_ne.2 hasync
    simp only [htoken, wordForm, answers_bind, answers_current, Bool.false_and, Bool.false_eq_true,
      ↓reduceIte]
    split
    all_goals try exact absurd rfl (hreserved (by decide))
    simp only [hasync', hname, Bool.false_and, Bool.false_eq_true, ↓reduceIte, answers_bind,
      answers_pure]
    exact h.of fun _ t1 h1 => ⟨rfl, rfl, h1⟩

/-- An operand from which nothing is taken. -/
theorem access_operand (htoken : IsOperand t.lexeme.token) {Q : State → Prop}
    (h : advance.Answers t fun _ t' => t'.Stops ∧ Q t') :
    (access g {} true).Answers t fun a t' =>
      t'.Stops ∧ a.pending = none ∧ a.span = ⟨t.lexeme.start, t.lexeme.stop⟩ ∧ Q t' := by
  rw [access, answers_bind]
  refine (primary_operand htoken h).of fun a t1 h1 => ?_
  obtain ⟨hpending, hspan, hstops, hQ⟩ := h1
  rw [accessRest, answers_repeatFrom, answers_iterate]
  refine (accessRound_stops hstops).of fun r t2 h2 => ?_
  obtain ⟨rfl, rfl⟩ := h2
  exact ⟨hstops, hpending, hspan, hQ⟩

theorem unary_operand (htoken : IsOperand t.lexeme.token) {Q : Term → State → Prop}
    (h : (access g {} true).Answers t fun a t' => t'.Stops ∧ Q a t') :
    (unary g {}).Answers t fun a t' => t'.Stops ∧ Q a t' := by
  have hrest : ((access g {} true) >>= postfixRest).Answers t fun a t' => t'.Stops ∧ Q a t' := by
    rw [answers_bind]
    refine h.of fun a t1 h1 => (postfixRest_stops h1.1).of fun b t2 h2 => ?_
    obtain ⟨rfl, rfl⟩ := h2
    exact h1
  simp only [unary, answers_bind, answers_current]
  rcases htoken with htoken | ⟨name, htoken, hname, -⟩
  · rw [htoken]
    exact hrest
  · rw [htoken]
    split
    all_goals try exact hrest
    all_goals
      next heq => cases heq <;> exact absurd hname (by decide)

theorem binary_operand (htoken : IsOperand t.lexeme.token) {Q : Term → State → Prop}
    (h : (access g {} true).Answers t fun a t' => t'.Stops ∧ Q a t') :
    (binary g {} 0).Answers t fun a t' => t'.Stops ∧ Q a t' := by
  have hrest : (unary g {} >>= binaryRest g {} 0).Answers t fun a t' => t'.Stops ∧ Q a t' := by
    rw [answers_bind]
    refine (unary_operand htoken h).of fun a t1 h1 => (binaryRest_stops h1.1).of fun b t2 h2 => ?_
    obtain ⟨rfl, rfl⟩ := h2
    exact h1
  simp only [binary, answers_bind, answers_current]
  rcases htoken with htoken | ⟨name, htoken, -, -⟩ <;> rw [htoken]
  · exact hrest
  · exact hrest

/-- An operand with the properties taken from it is an expression, where nothing goes on with it. -/
theorem assignment_operand (htoken : IsOperand t.lexeme.token) {Q : Term → State → Prop}
    (h : (access g {} true).Answers t fun a t' => t'.Stops ∧ Q a t') :
    (assignment g {}).Answers t Q := by
  have hoperand : (assignmentFromOperand g {}).Answers t Q := by
    simp only [assignmentFromOperand, answers_bind, answers_position, answers_atMark]
    refine (binary_operand htoken h).of fun a t1 h1 => ?_
    simp only [not_arrow_of_stops h1.1, Bool.and_false, Bool.false_eq_true, ↓reduceIte]
    refine (assignmentRest_stops h1.1).of fun b t2 h2 => ?_
    obtain ⟨rfl, rfl⟩ := h2
    exact h1.2
  simp only [assignment, answers_bind, answers_current]
  rcases htoken with htoken | ⟨name, htoken, -, hasync⟩
  · rw [htoken]
    exact hoperand
  · rw [htoken]
    split
    all_goals try exact hoperand
    all_goals
      next heq => cases heq <;> exact absurd rfl hasync

/-- An operand with the properties taken from it is copied without host forms. -/
theorem copied_operand {n : Nat} (htoken : IsOperand t.lexeme.token) (hhosts : t.hosts = [])
    {Q : Span → State → Prop}
    (h : (access (Productions.upTo n) {} true).Answers t fun a t' =>
      t'.Stops ∧ t'.hosts = [] ∧ a.pending = none ∧ Q a.span t') :
    (copied ((Productions.upTo (n + 1)).assignment {})).Answers t fun e t' =>
      e.hosts = [] ∧ Q e.span t' := by
  simp only [copied, answers_bind, answers_get]
  change (assignment (Productions.upTo n) {}).Answers t _
  refine (assignment_operand htoken h).of fun a t1 h1 => ?_
  obtain ⟨hhosts', hpending, h1⟩ := h1
  rw [answers_value hpending]
  simp only [answers_hostsSince, answers_pure, hhosts', hhosts]
  exact ⟨rfl, h1⟩

end Operands

/-! ## Texts that are one expression -/

/-- The grammar reads a text as one expression without host forms, whatever stands before it and
behind the mark that ends it. -/
structure ReadsAlone (text : List Char) : Prop where
  /-- It starts with a token. -/
  begins : Begins [] text
  /-- It is read, and nothing more. -/
  reads : ∀ source rest fuel (t : State), t.Ahead source [] (text ++ rest) →
    Follows elementMarks rest → 2 * byteSize (text ++ rest) ≤ fuel →
    (copied ((Productions.upTo fuel).assignment {})).Answers t fun e t' =>
      t'.Ahead source [] rest ∧ e.hosts = [] ∧ e.span.slice source = text

variable {source rest : List Char} {t : State} {g : Productions}

theorem expressionLook_plain (source : List Char) (span : Span) :
    expressionLook source ⟨span, []⟩ = span.slice source := by
  simp [expressionLook, Code.expression, Code.copied, Code.spliced, Code.hostSites,
    Code.splicedFrom, Code.textOf, Piece.fill]

/-- What is read alone is read again where it is printed. -/
theorem ReadsAlone.restored {text : List Char} (h : ReadsAlone text) :
    ExpressionRestored text [] [] where
  begins := h.begins
  restored source fuel rest t ht hrest hfuel := by
    refine (h.reads source rest fuel t ht hrest hfuel).of fun e t1 h1 => ?_
    obtain ⟨h1, hhosts, hslice⟩ := h1
    obtain ⟨span, hosts⟩ := e
    obtain rfl : hosts = [] := hhosts
    refine ⟨h1, ?_⟩
    rw [expressionLook_plain]
    exact hslice

/-- A text that starts with an operand is read alone if the operand is read to the end of it. -/
theorem readsAlone_of_access {text : List Char}
    (hscan : ∀ offset rest, Follows endMarks rest → ∃ l, Lexeme.scan offset (text ++ rest) = .ok l ∧
      l.start = offset ∧ IsOperand l.token)
    (haccess : ∀ {source rest} {t : State} {n}, t.Ahead source [] (text ++ rest) →
      Follows elementMarks rest → (access (Productions.upTo n) {} true).Answers t fun a t' =>
        t'.Ahead source [] rest ∧ a.pending = none ∧ a.span = ⟨t.lexeme.start, t'.lastStop⟩ ∧
          t'.lastStop + byteSize rest = byteSize source) :
    ReadsAlone text where
  begins offset rest hrest := by
    obtain ⟨l, hl, hstart, htoken⟩ := hscan offset rest hrest
    refine ⟨l, hl, hstart, ?_, List.forall_mem_nil _⟩
    rcases htoken with htoken | ⟨name, htoken, -, -⟩ <;> rw [htoken] <;> rfl
  reads source rest fuel t ht hrest hfuel := by
    obtain ⟨offset, -, hoffset, hl⟩ := ht.scan
    obtain ⟨l, hl', hstart, htoken⟩ := hscan offset rest (hrest.mono elementMarks_subset)
    obtain rfl : t.lexeme = l := Except.ok.inj (hl.symm.trans hl')
    obtain ⟨c, tail, -, rfl⟩ := hrest.exists_cons
    have hpos := byteSize_pos (List.append_ne_nil_of_right_ne_nil text (List.cons_ne_nil c tail))
    obtain ⟨n, rfl⟩ : ∃ n, fuel = n + 1 := ⟨fuel - 1, by omega⟩
    have hread : (access (Productions.upTo n) {} true).Answers t fun a t' => t'.Stops ∧
        t'.hosts = [] ∧ a.pending = none ∧ t'.Ahead source [] (c :: tail) ∧
          a.span.slice source = text := by
      refine (haccess ht hrest).of fun a t1 h1 => ?_
      obtain ⟨h1, hpending, hspan, hstop⟩ := h1
      refine ⟨h1.stops hrest, h1.hosts_eq, hpending, h1, ?_⟩
      have hend : t1.lastStop = offset + byteSize text := by
        rw [byteSize_append] at hoffset
        omega
      rw [hspan, hstart, hend]
      exact slice_of_suffix ht.suffix hoffset
    refine (copied_operand (Q := fun span t' => t'.Ahead source [] (c :: tail) ∧
      span.slice source = text) htoken ht.hosts_eq hread).of fun e t1 h1 => ?_
    exact ⟨h1.2.1, h1.1, h1.2.2⟩

/-! ## Numbers -/

/-- A number is read alone. -/
theorem readsAlone_number {text : List Char} (htext : Ungapped text)
    (hscan : scanToken 0 text = .ok (.number, byteSize text, [])) : ReadsAlone text := by
  obtain ⟨read, hne, hread, -, hagain⟩ := scanToken_again hscan (by rintro ⟨⟩)
  obtain rfl : text = read := by rw [hread, List.append_nil]
  have hlexeme (offset : Nat) {rest : List Char} (hrest : Follows endMarks rest) :
      Lexeme.scan offset (text ++ rest) =
        .ok ⟨.number, offset, offset + byteSize text, false, text ++ rest, rest⟩ := by
    obtain ⟨c, tail, hc, rfl⟩ := hrest.exists_cons
    have halike : Alike [] (c :: tail) := .ended hc rfl
    have htext : Ungapped (text ++ []) := by rwa [List.append_nil]
    exact Lexeme.scan_of_scanToken (htext.again hne halike) (hagain offset _ halike)
  refine readsAlone_of_access (fun offset rest hrest => ⟨_, hlexeme offset hrest, rfl, .inl rfl⟩) ?_
  intro source rest t n ht hrest
  obtain ⟨offset, -, hoffset, hl⟩ := ht.scan
  have hl := Except.ok.inj (hl.symm.trans (hlexeme offset (hrest.mono elementMarks_subset)))
  have hadvance : advance.Answers t fun _ t' =>
      t'.Stops ∧ t'.Ahead source [] rest ∧ t'.lastStop = t.lexeme.stop :=
    (ht.advance (by rw [hl]) hrest.scans).of fun _ t1 h1 => ⟨h1.1.stops hrest, h1⟩
  refine (access_operand (.inl (by rw [hl])) hadvance).of fun a t1 h1 => ?_
  obtain ⟨-, hpending, hspan, h1, hstop⟩ := h1
  refine ⟨h1, hpending, by rw [hspan, hstop], ?_⟩
  rw [hstop, hl, ← hoffset, byteSize_append, Nat.add_assoc]

/-! ## Names -/

/-- Properties taken one from another. -/
def membersText (members : List String) : List Char :=
  members.flatMap fun member => '.' :: member.toList

theorem membersText_cons (member : String) (members : List String) :
    membersText (member :: members) = '.' :: (member.toList ++ membersText members) := rfl

theorem length_le_membersText (members : List String) :
    members.length ≤ byteSize (membersText members) := by
  induction members with
  | nil => exact Nat.zero_le _
  | cons member members ih =>
    have hpoint : '.'.utf8Size = 1 := by decide
    rw [membersText_cons, byteSize_cons, byteSize_append, List.length_cons, hpoint]
    omega

theorem severed_members (members : List String) (hrest : Severed rest) :
    Severed (membersText members ++ rest) := by
  cases members with
  | nil => exact hrest
  | cons member members =>
    rintro c ⟨rfl⟩
    decide

theorem scan_point {c : Char} (hc : isNameStart c = true) (offset : Nat) (text : List Char) :
    Lexeme.scan offset ('.' :: c :: text) =
      .ok ⟨.punctuator ".", offset, offset + 1, false, '.' :: c :: text, c :: text⟩ := by
  have hpoint : ('.' == c) = false := by
    rw [beq_eq_false_iff_ne]
    rintro rfl
    exact absurd hc (by decide)
  have hpoints : ['.', '.'].isPrefixOf (c :: text) = false := by
    rw [List.isPrefixOf, hpoint, Bool.false_and]
  have hmark : punctuator? ('.' :: c :: text) = some "." := by
    simp [punctuator?, punctuators, hpoints]
  refine Lexeme.scan_of_scanToken (ungapped_cons (by decide) ?_) ?_
  · rintro ⟨⟩
  · rw [scanToken_cons (by decide), hmark, List.head?_cons, Option.any_some,
      isAsciiDigit_of_isNameStart hc]
    rfl

theorem scans_members {members : List String} (hmembers : ∀ member ∈ members, IsWord member)
    (hrest : Scans rest) : Scans (membersText members ++ rest) := by
  cases members with
  | nil => exact hrest
  | cons member members =>
    obtain ⟨c, word, hmember, hc, -⟩ := hmembers _ List.mem_cons_self
    intro offset
    rw [membersText_cons, hmember]
    exact ⟨_, scan_point hc offset _⟩

/-- A property is taken from a value. -/
theorem accessRound_member {member : String} {text : List Char} (hmember : IsWord member)
    {start : Nat} {a : Term} (ha : a.pending = none)
    (ht : t.Ahead source [] ('.' :: (member.toList ++ text))) (htext : Severed text)
    (hscans : Scans text) :
    (accessRound g {} true start a false).Answers t fun r t' =>
      t'.Ahead source [] text ∧ t'.lastStop + byteSize text = byteSize source ∧
        r = .inl (.plain ⟨start, t'.lastStop⟩ .member, false) := by
  obtain ⟨offset, -, -, hl⟩ := ht.scan
  have hpoint : t.lexeme.token = .punctuator "." ∧ t.lexeme.rest = member.toList ++ text := by
    obtain ⟨c, word, hchars, hc, -⟩ := hmember
    rw [hchars] at hl ⊢
    rw [Except.ok.inj (hl.symm.trans (scan_point hc offset _))]
    exact ⟨rfl, rfl⟩
  have hword : Scans (member.toList ++ text) := fun offset => ⟨_, hmember.scan htext offset⟩
  simp only [accessRound, answers_bind, answers_current, hpoint.1, answers_value ha]
  refine (ht.advance hpoint.2 hword).of fun _ t1 h1 => ?_
  obtain ⟨offset, -, -, hl⟩ := h1.1.scan
  have hl := Except.ok.inj (hl.symm.trans (hmember.scan htext offset))
  have hstop := h1.1.stop_eq
  rw [hl] at hstop
  simp only [hl, ↓reduceIte, answers_bind, answers_pure]
  refine (h1.1.advance (by rw [hl]) hscans).of fun _ t2 h2 => ?_
  simp only [answers_spanFrom, Bool.false_eq_true, ↓reduceIte]
  exact ⟨h2.1, by rw [h2.2, hl]; exact hstop, trivial⟩

/-- There are rounds left for all properties. -/
theorem length_lt_rounds {members : List String} (hmembers : ∀ member ∈ members, IsWord member)
    (ht : t.Ahead source [] (membersText members ++ rest)) :
    members.length < t.limit - t.lexeme.start + 2 := by
  cases members with
  | nil => exact Nat.zero_lt_succ _
  | cons member members =>
    obtain ⟨c, word, hchars, hc, -⟩ := hmembers _ List.mem_cons_self
    obtain ⟨offset, -, hoffset, hl⟩ := ht.scan
    have hlength := length_le_membersText (member :: members)
    have hpoint : t.lexeme.start = offset := by
      rw [membersText_cons, hchars] at hl
      rw [Except.ok.inj (hl.symm.trans (scan_point hc offset _))]
    rw [byteSize_append] at hoffset
    rw [ht.limit_eq, hpoint]
    omega

/-- The properties that are taken from a value one after the other. -/
theorem iterate_members {members : List String} (hmembers : ∀ member ∈ members, IsWord member)
    {start rounds : Nat} {a : Term} (ha : a.pending = none) (hspan : a.span = ⟨start, t.lastStop⟩)
    (ht : t.Ahead source [] (membersText members ++ rest)) (hrest : Follows elementMarks rest)
    (hstop : t.lastStop + byteSize (membersText members ++ rest) = byteSize source)
    (hrounds : members.length < rounds) :
    (iterate (fun (a, isOptional) => accessRound g {} true start a isOptional) rounds
      (a, false)).Answers t fun b t' => t'.Ahead source [] rest ∧ b.pending = none ∧
        b.span = ⟨start, t'.lastStop⟩ ∧ t'.lastStop + byteSize rest = byteSize source := by
  induction members generalizing t a rounds with
  | nil =>
    obtain ⟨rounds, rfl⟩ : ∃ n, rounds = n + 1 := ⟨rounds - 1, by omega⟩
    have ht : t.Ahead source [] rest := ht
    rw [answers_iterate]
    refine (accessRound_stops (ht.stops hrest)).of fun r t1 h1 => ?_
    obtain ⟨rfl, rfl⟩ := h1
    exact ⟨ht, ha, hspan, hstop⟩
  | cons member members ih =>
    obtain ⟨rounds, rfl⟩ : ∃ n, rounds = n + 1 := ⟨rounds - 1, by omega⟩
    obtain ⟨hmember, hmembers⟩ := List.forall_mem_cons.1 hmembers
    have hlater : membersText (member :: members) ++ rest =
        '.' :: (member.toList ++ (membersText members ++ rest)) := by
      rw [membersText_cons, List.cons_append, List.append_assoc]
    have hbehind := hrest.mono elementMarks_subset
    rw [hlater] at ht
    rw [answers_iterate]
    refine (accessRound_member hmember ha ht (severed_members members hbehind.severed)
      (scans_members hmembers hrest.scans)).of fun r t1 h1 => ?_
    obtain ⟨h1, hstop1, rfl⟩ := h1
    have hlength : members.length < rounds := Nat.lt_of_succ_lt_succ hrounds
    exact ih hmembers rfl rfl h1 hstop1 hlength

/-- A name with properties taken from it is read alone. -/
theorem readsAlone_name {name : String} (hname : IsSpelled name) (hasync : name ≠ "async")
    {members : List String} (hmembers : ∀ member ∈ members, IsWord member) :
    ReadsAlone (name.toList ++ membersText members) := by
  have hlexeme (offset : Nat) {rest : List Char} (hrest : Follows endMarks rest) :
      Lexeme.scan offset (name.toList ++ membersText members ++ rest) =
        .ok ⟨.word name false, offset, offset + byteSize name.toList, false,
          name.toList ++ (membersText members ++ rest), membersText members ++ rest⟩ := by
    rw [List.append_assoc]
    exact hname.scan (severed_members members hrest.severed) offset
  have hoperand : IsOperand (.word name false) := .inr ⟨name, rfl, hname.1, hasync⟩
  refine readsAlone_of_access (fun offset rest hrest => ⟨_, hlexeme offset hrest, rfl, hoperand⟩) ?_
  intro source rest t n ht hrest
  obtain ⟨offset, -, hoffset, hl⟩ := ht.scan
  have hl := Except.ok.inj (hl.symm.trans (hlexeme offset (hrest.mono elementMarks_subset)))
  have hadvance := ht.advance (by rw [hl]) (scans_members hmembers hrest.scans)
  have hstop := ht.stop_eq
  rw [access, answers_bind]
  refine (primary_operand (by rw [hl]; exact hoperand) hadvance).of fun a t1 h1 => ?_
  obtain ⟨hpending, hspan, h1, hstop1⟩ := h1
  rw [accessRest, answers_repeatFrom, hspan]
  refine iterate_members hmembers hpending (by rw [hspan, hstop1]) h1 hrest ?_
    (length_lt_rounds hmembers h1)
  rw [hstop1, ← hstop, hl]

end Rebind.Grammar
