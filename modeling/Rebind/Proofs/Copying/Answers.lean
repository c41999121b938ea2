import Rebind.Proofs.Copying.Token
import Rebind.Proofs.Reading.Openings

/-!
# Parsers that answer

`Answers p s Q` says that a parser answers from a state, and that the answer is right.  It is
to `Ensures` what total correctness is to partial correctness: a fault is not allowed.
`State.Ahead X` says that the text past the last token read is `X`, from which the current token is
scanned.
-/

namespace Rebind.Grammar

open Rebind.Text (Span byteSize byteSize_append)
open Rebind.Snippet

namespace Parser

variable {α β : Type} {s : State} {p : Parser α} {Q R : α → State → Prop}

/-- A parser answers from a state as it should. -/
def Answers (p : Parser α) (s : State) (Q : α → State → Prop) : Prop :=
  ∃ a s', p s = .ok (a, s') ∧ Q a s'

theorem Answers.of (h : Answers p s R) (hRQ : ∀ a s', R a s' → Q a s') : Answers p s Q := by
  obtain ⟨a, s', hp, hR⟩ := h
  exact ⟨a, s', hp, hRQ a s' hR⟩

@[simp] theorem answers_pure {a : α} : Answers (pure a) s Q ↔ Q a s := by
  constructor
  · rintro ⟨b, s', hb, hQ⟩
    cases hb
    exact hQ
  · intro hQ
    exact ⟨a, s, rfl, hQ⟩

@[simp] theorem answers_bind {f : α → Parser β} {Q : β → State → Prop} :
    Answers (p >>= f) s Q ↔ Answers p s fun a s' => Answers (f a) s' Q := by
  constructor
  · rintro ⟨b, s'', hb, hQ⟩
    obtain ⟨⟨a, s'⟩, ha, hb⟩ := exists_ok_of_bind hb
    exact ⟨a, s', ha, b, s'', hb, hQ⟩
  · rintro ⟨a, s', ha, b, s'', hb, hQ⟩
    refine ⟨b, s'', ?_, hQ⟩
    change (p s >>= fun r => f r.1 r.2) = _
    rw [ha]
    exact hb

@[simp] theorem answers_ite {c : Prop} [Decidable c] {q : Parser α} :
    Answers (if c then p else q) s Q ↔ if c then Answers p s Q else Answers q s Q := by
  split <;> rfl

@[simp] theorem answers_get {Q : State → State → Prop} : Answers get s Q ↔ Q s s :=
  answers_pure

@[simp] theorem answers_set {s' : State} {Q : PUnit → State → Prop} :
    Answers (set s') s Q ↔ Q ⟨⟩ s' := by
  constructor
  · rintro ⟨_, _, hset, hQ⟩
    cases hset
    exact hQ
  · intro hQ
    exact ⟨⟨⟩, s', rfl, hQ⟩

@[simp] theorem answers_liftM {x : Except LocatedFault α} :
    Answers (liftM x) s Q ↔ ∃ a, x = .ok a ∧ Q a s := by
  constructor
  · rintro ⟨a, s', hlift, hQ⟩
    obtain ⟨b, hb, hpair⟩ := exists_ok_of_bind hlift
    cases hpair
    exact ⟨a, hb, hQ⟩
  · rintro ⟨a, rfl, hQ⟩
    exact ⟨a, s, rfl, hQ⟩

/-! ## The current token -/

@[simp] theorem answers_current {Q : Lexeme → State → Prop} :
    Answers current s Q ↔ Q s.lexeme s := by
  simp only [current, answers_bind, answers_get, answers_pure]

@[simp] theorem answers_position {Q : Nat → State → Prop} :
    Answers position s Q ↔ Q s.lexeme.start s := by
  simp only [position, answers_bind, answers_get, answers_pure]

@[simp] theorem answers_spanFrom {start : Nat} {Q : Span → State → Prop} :
    Answers (spanFrom start) s Q ↔ Q ⟨start, s.lastStop⟩ s := by
  simp only [spanFrom, answers_bind, answers_get, answers_pure]

@[simp] theorem answers_peek {Q : Lexeme → State → Prop} :
    Answers peek s Q ↔ ∃ l, s.Next l ∧ Q l s := by
  simp only [peek, answers_bind, answers_current, answers_liftM, State.Next]

@[simp] theorem answers_atMark {mark : String} {Q : Bool → State → Prop} :
    Answers (atMark mark) s Q ↔ Q (isMark s.lexeme.token mark) s := by
  simp only [atMark, answers_bind, answers_current, answers_pure]

@[simp] theorem answers_atKeyword {word : String} {Q : Bool → State → Prop} :
    Answers (atKeyword word) s Q ↔ Q (isKeyword s.lexeme.token word) s := by
  simp only [atKeyword, answers_bind, answers_current, answers_pure]

@[simp] theorem answers_atEnd {Q : Bool → State → Prop} :
    Answers atEnd s Q ↔ Q (s.lexeme.token == .endOfInput) s := by
  simp only [atEnd, answers_bind, answers_current, answers_pure]

@[simp] theorem answers_hostsSince {count : Nat} {Q : List HostForm → State → Prop} :
    Answers (hostsSince count) s Q ↔ Q (s.hosts.take (s.hosts.length - count)).reverse s := by
  simp only [hostsSince, answers_bind, answers_get, answers_pure]

theorem answers_value {term : Term} (h : term.pending = none) {Q : Span → State → Prop} :
    Answers term.value s Q ↔ Q term.span s := by
  rw [Term.value, h]
  exact answers_pure

/-! ## Moving on -/

@[simp] theorem answers_advance {Q : PUnit → State → Prop} :
    Answers advance s Q ↔
      ∃ l, s.Next l ∧ Q ⟨⟩ { s with lexeme := l, lastStop := s.lexeme.stop } := by
  simp only [advance, answers_bind, answers_get, answers_liftM, answers_set, State.Next]

@[simp] theorem answers_eatMark {mark : String} {Q : Bool → State → Prop} :
    Answers (eatMark mark) s Q ↔
      if isMark s.lexeme.token mark then Answers advance s fun _ s' => Q true s'
      else Q false s := by
  simp only [eatMark, answers_bind, answers_atMark, answers_ite, answers_pure]

theorem answers_expectMark {mark : String} (h : isMark s.lexeme.token mark = true)
    {Q : PUnit → State → Prop} : Answers (expectMark mark) s Q ↔ Answers advance s Q := by
  simp only [expectMark, answers_bind, answers_eatMark, h, answers_ite, answers_pure, ↓reduceIte]

/-- A loop that has rounds left runs a round. -/
theorem answers_iterate {σ : Type} {step : σ → Parser (Sum σ α)} {rounds : Nat} {a : σ} :
    Answers (iterate step (rounds + 1) a) s Q ↔
      Answers (step a) s fun r s' =>
        match r with
        | .inl b => Answers (iterate step rounds b) s' Q
        | .inr b => Q b s' := by
  rw [iterate, answers_bind]
  constructor
  · refine fun h => h.of fun r s1 h1 => ?_
    cases r with
    | inl b => exact h1
    | inr b => exact answers_pure.1 h1
  · refine fun h => h.of fun r s1 h1 => ?_
    cases r with
    | inl b => exact h1
    | inr b => exact answers_pure.2 h1

@[simp] theorem answers_repeatFrom {σ : Type} {step : σ → Parser (Sum σ α)} {a : σ} :
    Answers (repeatFrom a step) s Q ↔
      Answers (iterate step (s.limit - s.lexeme.start + 2) a) s Q := by
  simp only [repeatFrom, answers_bind, answers_get]

end Parser

end Rebind.Grammar
