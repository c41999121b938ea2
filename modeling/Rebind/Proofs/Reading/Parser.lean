import Rebind.Grammar.Basic
import Rebind.Proofs.Reading.Nested

/-!
# What a parser reads

`Reads s parts s'` says that a parser has come from one state to another, and that the given parts
of the source lie between the two, one after the other, as do the host forms met on the way.  Parts
read in two goes are appended (`Reads.trans`), so what a production has read is put together from
what its parts have.  `Ensures p s Q` says that every answer of a parser from a state is right; a
fault is no answer.
-/

namespace Rebind.Grammar

open Rebind.Text (Span)
open Rebind.Snippet

/-! ## States -/

/-- The current token stands in the source, past the one before it. -/
structure State.Sound (s : State) : Prop where
  lexeme : s.lexeme.Stands s.limit
  stop_le : s.lastStop ≤ s.lexeme.start

/-- The stretch of the source that the current token takes. -/
def State.here (s : State) : Span := ⟨s.lexeme.start, s.lexeme.stop⟩

theorem State.Sound.start_le_limit {s : State} (h : s.Sound) : s.lexeme.start ≤ s.limit := by
  have hhere := h.lexeme.here
  omega

/-- A state before a token at which nothing is read yet.  The token may be another reading of it. -/
structure State.Before (s : State) (l : Lexeme) (lastStop : Nat) : Prop where
  stop_eq : s.lastStop = lastStop
  start_eq : s.lexeme.start = l.start
  lexeme_eq : s.lexeme = l ∨ (l.token.isOpen = true ∧ s.lexeme.token.isFixed = false)

namespace State.Before

variable {s s' : State} {l : Lexeme} {lastStop : Nat}

theorem trans (h : s.Before l lastStop) (h' : s'.Before s.lexeme s.lastStop) :
    s'.Before l lastStop where
  stop_eq := h'.stop_eq.trans h.stop_eq
  start_eq := h'.start_eq.trans h.start_eq
  lexeme_eq := by
    obtain heq | ⟨hopen, hfixed⟩ := h.lexeme_eq
    · exact heq ▸ h'.lexeme_eq
    · refine .inr ⟨hopen, ?_⟩
      obtain heq | ⟨-, hfixed'⟩ := h'.lexeme_eq
      · exact heq ▸ hfixed
      · exact hfixed'

theorem eq_of_isFixed (h : s.Before l lastStop) (hfixed : s.lexeme.token.isFixed = true) :
    s.lexeme = l := by
  obtain heq | ⟨-, hother⟩ := h.lexeme_eq
  · exact heq
  · exact absurd hfixed (by simp [hother])

theorem eq_of_isOpen (h : s.Before l lastStop) (hopen : l.token.isOpen = false) :
    s.lexeme = l := by
  obtain heq | ⟨hother, -⟩ := h.lexeme_eq
  · exact heq
  · exact absurd hother (by simp [hopen])

end State.Before

/-- The current token is a string literal. -/
def State.AtString (s : State) : Prop :=
  ∃ value isSound, s.lexeme.token = .string value isSound

/-- The token that comes next. -/
def State.Next (s : State) (l : Lexeme) : Prop :=
  Lexeme.scan s.lexeme.stop s.lexeme.rest = .ok l

theorem State.Sound.stop_le_next {s : State} (h : s.Sound) {l : Lexeme} (hl : s.Next l) :
    s.lexeme.stop ≤ l.start :=
  (Lexeme.scan_stands h.lexeme.stop_add_byteSize hl).1

/-- No token is read in part.  The host forms that are met past a string literal start past it. -/
structure Steps (s s' : State) : Prop where
  moved : s'.Before s.lexeme s.lastStop ∨ s.lexeme.start < s'.lastStop
  first : s.lexeme.token.isFixed = true → (s'.lexeme = s.lexeme ∧ s'.lastStop = s.lastStop) ∨
    ∃ l, s.Next l ∧ (s'.Before l s.lexeme.stop ∨ l.start < s'.lastStop)
  hosts : s.AtString → ∃ hosts : List HostForm, s'.hosts = hosts.reverse ++ s.hosts ∧
    ∀ host ∈ hosts, s.lexeme.stop ≤ host.span.start

theorem State.AtString.isFixed {s : State} (h : s.AtString) : s.lexeme.token.isFixed = true := by
  obtain ⟨value, isSound, htoken⟩ := h
  rw [htoken]
  rfl

theorem Steps.refl (s : State) : Steps s s where
  moved := .inl ⟨rfl, rfl, .inl rfl⟩
  first _ := .inl ⟨rfl, rfl⟩
  hosts _ := ⟨[], rfl, List.forall_mem_nil _⟩

/-- A state that differs only in what is recorded. -/
theorem Steps.congr {s s' s'' : State} (h : Steps s s') (hlexeme : s''.lexeme = s'.lexeme)
    (hstop : s''.lastStop = s'.lastStop)
    (hhosts : s.AtString → ∃ hosts : List HostForm, s''.hosts = hosts.reverse ++ s.hosts ∧
      ∀ host ∈ hosts, s.lexeme.stop ≤ host.span.start) : Steps s s'' where
  moved := by
    rw [hstop]
    exact h.moved.imp_left fun h => ⟨hstop ▸ h.stop_eq, hlexeme ▸ h.start_eq, hlexeme ▸ h.lexeme_eq⟩
  first hfixed := by
    rw [hlexeme, hstop]
    refine (h.first hfixed).imp_right fun ⟨l, hl, h⟩ => ⟨l, hl, ?_⟩
    exact h.imp_left fun h => ⟨hstop ▸ h.stop_eq, hlexeme ▸ h.start_eq, hlexeme ▸ h.lexeme_eq⟩
  hosts := hhosts

/-- A stretch of the source is a part that is copied as it is. -/
instance : Coe Span Part := ⟨.verbatim⟩

/-- What is read between two states, in source order. -/
structure Reads (s : State) (parts : List Part) (s' : State) : Prop where
  sound_before : s.Sound
  sound : s'.Sound
  start_le : s.lexeme.start ≤ s'.lexeme.start
  stop_le : s.lastStop ≤ s'.lastStop
  limit_eq : s'.limit = s.limit
  suffix : s'.lexeme.here <:+ s.lexeme.here
  last : s'.lastStop = s.lastStop ∨ StopsAt s.limit s.lexeme.here s'.lastStop
  ordered : Ordered s.lexeme.start s'.lastStop (parts.map Part.span)
  nested : ∀ part ∈ parts, part.Nested s.limit s.lexeme.here
  hosts : ∃ hosts, s'.hosts = hosts.reverse ++ s.hosts ∧
    HostsBetween s.limit s.lexeme.here s.lexeme.start s'.lastStop hosts
  proper : AllProper s.hosts → AllProper s'.hosts ∧ ∀ part ∈ parts, AllProper part.hosts
  scanned : s.lexeme.Scanned → s'.lexeme.Scanned
  steps : Steps s s'

namespace Reads

variable {s s' s'' : State} {xs ys : List Part} {x y : Span}

theorem refl (h : s.Sound) : Reads s [] s where
  sound_before := h
  sound := h
  start_le := Nat.le_refl _
  stop_le := Nat.le_refl _
  limit_eq := rfl
  suffix := List.suffix_rfl
  last := .inl rfl
  ordered := trivial
  nested := List.forall_mem_nil _
  hosts := ⟨[], rfl, trivial, trivial⟩
  proper := fun h => ⟨h, List.forall_mem_nil _⟩
  scanned := id
  steps := .refl s

/-- Past a string literal every token starts past it. -/
theorem stop_le_start (hx : Reads s xs s') (hfixed : s.lexeme.token.isFixed = true)
    (hne : ¬ (s'.lexeme = s.lexeme ∧ s'.lastStop = s.lastStop)) :
    s.lexeme.stop ≤ s'.lexeme.start := by
  obtain hsame | ⟨l, hl, hbefore | hlt⟩ := hx.steps.first hfixed
  · exact absurd hsame hne
  · rw [hbefore.start_eq]
    exact hx.sound_before.stop_le_next hl
  · have hstop := hx.sound_before.stop_le_next hl
    have hlast := hx.sound.stop_le
    omega

theorem steps_trans (hx : Reads s xs s') (hy : Reads s' ys s'') : Steps s s'' where
  moved := by
    have hstop := hy.stop_le
    obtain hbefore | hlt := hx.steps.moved
    · obtain hbefore' | hlt := hy.steps.moved
      · rw [hbefore.stop_eq] at hbefore'
        exact .inl (hbefore.trans (hbefore.stop_eq ▸ hbefore'))
      · exact .inr (hbefore.start_eq ▸ hlt)
    · exact .inr (by omega)
  first hfixed := by
    have hstop := hy.stop_le
    obtain ⟨hlexeme, hlast⟩ | ⟨l, hl, hbefore | hlt⟩ := hx.steps.first hfixed
    · have hlater := hy.steps.first (hlexeme ▸ hfixed)
      simp only [State.Next, hlexeme, hlast] at hlater
      exact hlater
    · refine .inr ⟨l, hl, ?_⟩
      obtain hbefore' | hlt := hy.steps.moved
      · exact .inl (hbefore.trans hbefore')
      · exact .inr (hbefore.start_eq ▸ hlt)
    · exact .inr ⟨l, hl, .inr (by omega)⟩
  hosts hstring := by
    obtain ⟨first, hfirst, hpast⟩ := hx.steps.hosts hstring
    obtain ⟨later, hlater, hpast'⟩ : ∃ later : List HostForm,
        s''.hosts = later.reverse ++ s'.hosts ∧
          ∀ host ∈ later, s.lexeme.stop ≤ host.span.start := by
      by_cases hsame : s'.lexeme = s.lexeme ∧ s'.lastStop = s.lastStop
      · have hstring' : s'.AtString := by
          rw [State.AtString, hsame.1]
          exact hstring
        have hlater := hy.steps.hosts hstring'
        rwa [hsame.1] at hlater
      · have hstart := hx.stop_le_start hstring.isFixed hsame
        obtain ⟨later, hlater, hbetween⟩ := hy.hosts
        refine ⟨later, hlater, fun host hhost => ?_⟩
        obtain ⟨hle, -⟩ := hbetween.ordered.between_of_mem _ (List.mem_map_of_mem hhost)
        omega
    refine ⟨first ++ later, by rw [hlater, hfirst, List.reverse_append, List.append_assoc], ?_⟩
    exact List.forall_mem_append.2 ⟨hpast, hpast'⟩

theorem trans (hx : Reads s xs s') (hy : Reads s' ys s'') : Reads s (xs ++ ys) s'' where
  sound_before := hx.sound_before
  sound := hy.sound
  start_le := Nat.le_trans hx.start_le hy.start_le
  stop_le := Nat.le_trans hx.stop_le hy.stop_le
  limit_eq := hy.limit_eq.trans hx.limit_eq
  suffix := hy.suffix.trans hx.suffix
  last := by
    obtain hlast | hlast := hy.last
    · rw [hlast]
      exact hx.last
    · rw [hx.limit_eq] at hlast
      exact .inr (hlast.mono hx.suffix)
  ordered := by
    rw [List.map_append]
    exact hx.ordered.append hy.ordered hx.start_le hy.stop_le hx.sound.stop_le
  nested := by
    have hlater := hy.nested
    rw [hx.limit_eq] at hlater
    exact List.forall_mem_append.2 ⟨hx.nested, fun part hpart => (hlater part hpart).mono hx.suffix⟩
  hosts := by
    obtain ⟨first, hfirst, hbetween⟩ := hx.hosts
    obtain ⟨later, hlater, hbetween'⟩ := hy.hosts
    rw [hx.limit_eq] at hbetween'
    refine ⟨first ++ later, by rw [hlater, hfirst, List.reverse_append, List.append_assoc], ?_⟩
    exact hbetween.append (hbetween'.mono hx.suffix) hx.start_le hy.stop_le hx.sound.stop_le
  proper := fun h => by
    obtain ⟨h, hfirst⟩ := hx.proper h
    obtain ⟨h, hlater⟩ := hy.proper h
    exact ⟨h, List.forall_mem_append.2 ⟨hfirst, hlater⟩⟩
  scanned := fun h => hy.scanned (hx.scanned h)
  steps := hx.steps_trans hy

theorem sublist (h : Reads s ys s') (hsub : xs.Sublist ys) : Reads s xs s' :=
  { h with
    ordered := h.ordered.sublist (hsub.map _)
    nested := fun part hpart => h.nested part (hsub.subset hpart)
    proper := fun hs =>
      ⟨(h.proper hs).1, fun part hpart => (h.proper hs).2 part (hsub.subset hpart)⟩ }

/-- What is read after something else. -/
theorem after (hy : Reads s' ys s'') (hx : Reads s xs s') : Reads s ys s'' :=
  (hx.trans hy).sublist (List.sublist_append_right xs ys)

/-- What is read before something else. -/
theorem before (hx : Reads s xs s') (hy : Reads s' ys s'') : Reads s xs s'' :=
  (hx.trans hy).sublist (List.sublist_append_left xs ys)

/-- No host form is forgotten. -/
theorem hosts_suffix (h : Reads s xs s') : s.hosts <:+ s'.hosts := by
  obtain ⟨hosts, heq, -⟩ := h.hosts
  exact ⟨hosts.reverse, heq.symm⟩

theorem start_lt_stop {part : Part} (h : Reads s (part :: xs) s') :
    s.lexeme.start < s'.lastStop := by
  obtain ⟨hstart, hlt, hstop, -⟩ := h.ordered
  omega

/-- Past something that is read a token stops. -/
theorem stopsAt (h : Reads s xs s') (hlt : s.lexeme.start < s'.lastStop) :
    StopsAt s.limit s.lexeme.here s'.lastStop := by
  have hstop := h.sound_before.stop_le
  exact h.last.resolve_left (by omega)

/-- A stretch that is read is one part. -/
theorem single (h : Reads s xs s') (hspan : OnTokens s.limit s.lexeme.here x)
    (hstart : s.lexeme.start ≤ x.start) (hlt : x.start < x.stop) (hstop : x.stop ≤ s'.lastStop) :
    Reads s [x] s' :=
  { h with
    ordered := ⟨hstart, hlt, hstop, trivial⟩
    nested := List.forall_mem_singleton.2 hspan
    proper := fun hs => ⟨(h.proper hs).1, List.forall_mem_singleton.2 trivial⟩ }

/-- All that is read, from the first token to the last, if a part is known to be read. -/
theorem cover {part : Part} (h : Reads s (part :: xs) s') :
    Reads s [(⟨s.lexeme.start, s'.lastStop⟩ : Span)] s' := by
  have hlt := h.start_lt_stop
  have hlimit := h.sound.start_le_limit
  have hstop := h.sound.stop_le
  rw [h.limit_eq] at hlimit
  have hstarts := h.sound_before.lexeme.startsAt (by omega)
  exact h.single ⟨hstarts, h.stopsAt hlt⟩ (Nat.le_refl _) hlt (Nat.le_refl _)

/-- An expression is a stretch of the source. -/
theorem verbatim {e : Expression} (h : Reads s [.expression e] s') : Reads s [e.span] s' := by
  obtain ⟨hstart, hlt, hstop, -⟩ := h.ordered
  have hnested : e.Nested s.limit s.lexeme.here := h.nested _ List.mem_cons_self
  exact h.single hnested.onTokens hstart hlt hstop

/-- A default value from where the last token read stops. -/
theorem trans_default {e : Expression} (hx : Reads s xs s')
    (hlt : s.lexeme.start < s'.lastStop) (hy : Reads s' [.expression e] s'') :
    Reads s (xs ++ [.default s'.lastStop e]) s'' := by
  obtain ⟨hstart, hlt', hstop, -⟩ := hy.ordered
  have hbefore := hx.sound.stop_le
  have hgap : Ordered s'.lastStop s''.lastStop [(⟨s'.lastStop, e.span.stop⟩ : Span)] := by
    refine ⟨Nat.le_refl _, ?_, hstop, trivial⟩
    dsimp only [Part.span] at hstart hlt' ⊢
    omega
  have hvalue : e.Nested s.limit s.lexeme.here := (hy.after hx).nested _ List.mem_cons_self
  exact { hx.before hy with
    ordered := by
      rw [List.map_append]
      exact hx.ordered.append hgap (Nat.le_of_lt hlt) hy.stop_le (Nat.le_refl _)
    nested := List.forall_mem_append.2
      ⟨hx.nested, List.forall_mem_singleton.2
        ⟨hx.stopsAt hlt, Nat.le_trans hbefore hstart, hvalue⟩⟩
    proper := fun hs => by
      obtain ⟨hproper, hparts⟩ := (hx.trans hy).proper hs
      obtain ⟨hfirst, hlater⟩ := List.forall_mem_append.1 hparts
      have hvalue : AllProper e.hosts := hlater (.expression e) List.mem_cons_self
      exact ⟨hproper, List.forall_mem_append.2 ⟨hfirst, List.forall_mem_singleton.2 hvalue⟩⟩ }

end Reads

/-- What is held of a stretch that is read is a copied expression. -/
theorem Reads.expression {s s' : State} {span : Span} {hosts : List HostForm}
    (h : Reads s [span] s')
    (hbetween : HostsBetween s.limit s.lexeme.here span.start span.stop hosts)
    (hproper : AllProper s'.hosts → AllProper hosts) : Reads s [.expression ⟨span, hosts⟩] s' :=
  { h with
    nested := List.forall_mem_singleton.2 ⟨h.nested _ List.mem_cons_self, hbetween⟩
    proper := fun hs =>
      ⟨(h.proper hs).1, List.forall_mem_singleton.2 (hproper (h.proper hs).1)⟩ }

/-- A stretch that is read between two states, with all host forms that are met there in it. -/
def Holds (s : State) (span : Span) (s' : State) : Prop :=
  ∃ hosts, s'.hosts = hosts.reverse ++ s.hosts ∧ Reads s [.expression ⟨span, hosts⟩] s'

theorem Reads.holds {s s' : State} {xs : List Part} {part : Part} (h : Reads s (part :: xs) s') :
    Holds s ⟨s.lexeme.start, s'.lastStop⟩ s' := by
  obtain ⟨hosts, heq, hbetween⟩ := h.hosts
  refine ⟨hosts, heq, h.cover.expression hbetween fun hproper => ?_⟩
  rw [heq] at hproper
  exact (allProper_reverse_append.1 hproper).1

/-- Around a stretch no host form is met. -/
theorem Holds.within {s s1 s2 s' : State} {span : Span} {xs ys : List Part} (h : Holds s1 span s2)
    (hbefore : Reads s xs s1) (hfirst : s1.hosts = s.hosts) (hafter : Reads s2 ys s')
    (hlast : s'.hosts = s2.hosts) : Holds s span s' := by
  obtain ⟨hosts, heq, hread⟩ := h
  exact ⟨hosts, by rw [hlast, heq, hfirst], (hread.after hbefore).before hafter⟩

/-! ## Answers -/

namespace Parser

variable {α β : Type} {s : State}

/-- Every answer of a parser that starts in a state. -/
def Ensures (p : Parser α) (s : State) (Q : α → State → Prop) : Prop :=
  ∀ a s', p s = .ok (a, s') → Q a s'

variable {p : Parser α} {Q R : α → State → Prop}

theorem Ensures.of (h : Ensures p s R) (hRQ : ∀ a s', R a s' → Q a s') : Ensures p s Q :=
  fun a s' hp => hRQ a s' (h a s' hp)

/-- What a production answers with, and what it reads. -/
theorem Ensures.and (hQ : Ensures p s Q) (hR : Ensures p s R) :
    Ensures p s fun a s' => Q a s' ∧ R a s' :=
  fun a s' hp => ⟨hQ a s' hp, hR a s' hp⟩

theorem Ensures.of_forall (h : ∀ a s', Q a s') : Ensures p s Q :=
  fun a s' _ => h a s'

@[simp] theorem ensures_pure {a : α} : Ensures (pure a) s Q ↔ Q a s := by
  constructor
  · intro h
    exact h a s rfl
  · intro h b s' hb
    cases hb
    exact h

@[simp] theorem ensures_bind {f : α → Parser β} {Q : β → State → Prop} :
    Ensures (p >>= f) s Q ↔ Ensures p s fun a s' => Ensures (f a) s' Q := by
  constructor
  · intro h a s' ha b s'' hb
    refine h b s'' ?_
    change (p s >>= fun r => f r.1 r.2) = _
    rw [ha]
    exact hb
  · intro h b s'' hb
    obtain ⟨⟨a, s'⟩, ha, hb⟩ := exists_ok_of_bind hb
    exact h a s' ha b s'' hb

@[simp] theorem ensures_fail {fault : Fault} {span : Span} :
    Ensures (fail fault span : Parser α) s Q ↔ True :=
  iff_true_intro nofun

@[simp] theorem ensures_ite {c : Prop} [Decidable c] {q : Parser α} :
    Ensures (if c then p else q) s Q ↔ if c then Ensures p s Q else Ensures q s Q := by
  split <;> rfl

@[simp] theorem ensures_get {Q : State → State → Prop} : Ensures get s Q ↔ Q s s :=
  ensures_pure

@[simp] theorem ensures_set {s' : State} {Q : PUnit → State → Prop} :
    Ensures (set s') s Q ↔ Q ⟨⟩ s' := by
  constructor
  · intro h
    exact h ⟨⟩ s' rfl
  · intro h _ _ hset
    cases hset
    exact h

@[simp] theorem ensures_modify {f : State → State} {Q : PUnit → State → Prop} :
    Ensures (modify f) s Q ↔ Q ⟨⟩ (f s) := by
  constructor
  · intro h
    exact h ⟨⟩ (f s) rfl
  · intro h _ _ hmodify
    cases hmodify
    exact h

@[simp] theorem ensures_liftM {x : Except LocatedFault α} :
    Ensures (liftM x) s Q ↔ ∀ a, x = .ok a → Q a s := by
  constructor
  · intro h a ha
    refine h a s ?_
    subst ha
    rfl
  · intro h a s' hlift
    obtain ⟨b, hb, hpair⟩ := exists_ok_of_bind hlift
    cases hpair
    exact h a hb

/-- A check behind which a production goes on or stops. -/
theorem of_check {c : Prop} [Decidable c] {A : Prop} (h : A) : if c then A else True := by
  split
  · exact h
  · trivial

/-! ## The current token -/

@[simp] theorem ensures_current {Q : Lexeme → State → Prop} :
    Ensures current s Q ↔ Q s.lexeme s := by
  simp only [current, ensures_bind, ensures_get, ensures_pure]

@[simp] theorem ensures_position {Q : Nat → State → Prop} :
    Ensures position s Q ↔ Q s.lexeme.start s := by
  simp only [position, ensures_bind, ensures_get, ensures_pure]

@[simp] theorem ensures_spanFrom {start : Nat} {Q : Span → State → Prop} :
    Ensures (spanFrom start) s Q ↔ Q ⟨start, s.lastStop⟩ s := by
  simp only [spanFrom, ensures_bind, ensures_get, ensures_pure]

@[simp] theorem ensures_unexpected : Ensures (unexpected : Parser α) s Q ↔ True := by
  simp only [unexpected, ensures_bind, ensures_current, ensures_fail]

@[simp] theorem ensures_missing {wanted : String} :
    Ensures (missing wanted : Parser α) s Q ↔ True := by
  simp only [missing, ensures_bind, ensures_current, ensures_fail]

@[simp] theorem ensures_peek {Q : Lexeme → State → Prop} :
    Ensures peek s Q ↔ ∀ l, Lexeme.scan s.lexeme.stop s.lexeme.rest = .ok l → Q l s := by
  simp only [peek, ensures_bind, ensures_current, ensures_liftM]

@[simp] theorem ensures_atMark {mark : String} {Q : Bool → State → Prop} :
    Ensures (atMark mark) s Q ↔ Q (isMark s.lexeme.token mark) s := by
  simp only [atMark, ensures_bind, ensures_current, ensures_pure]

@[simp] theorem ensures_atKeyword {word : String} {Q : Bool → State → Prop} :
    Ensures (atKeyword word) s Q ↔ Q (isKeyword s.lexeme.token word) s := by
  simp only [atKeyword, ensures_bind, ensures_current, ensures_pure]

@[simp] theorem ensures_atEnd {Q : Bool → State → Prop} :
    Ensures atEnd s Q ↔ Q (s.lexeme.token == .endOfInput) s := by
  simp only [atEnd, ensures_bind, ensures_current, ensures_pure]

@[simp] theorem ensures_hostsSince {count : Nat} {Q : List HostForm → State → Prop} :
    Ensures (hostsSince count) s Q ↔ Q (s.hosts.take (s.hosts.length - count)).reverse s := by
  simp only [hostsSince, ensures_bind, ensures_get, ensures_pure]

@[simp] theorem ensures_value {term : Term} {Q : Span → State → Prop} :
    Ensures term.value s Q ↔ (term.pending = none → Q term.span s) := by
  unfold Term.value
  cases term.pending <;> simp

/-! ## Moving on -/

theorem isMark_of_isMark {token : Token} {mark other : String} (h : isMark token mark = true)
    (hne : mark ≠ other) : isMark token other = false := by
  rw [beq_iff_eq.1 h]
  simpa [isMark] using hne

theorem ne_endOfInput_of_isMark {token : Token} {mark : String} (h : isMark token mark = true) :
    token ≠ .endOfInput := by
  rintro rfl
  simp [isMark] at h

theorem ne_endOfInput_of_isKeyword {token : Token} {word : String}
    (h : isKeyword token word = true) : token ≠ .endOfInput := by
  rintro rfl
  simp [isKeyword] at h

/-- A token that is read lies between the states before and after it. -/
theorem advance_takes (hs : s.Sound) (hne : s.lexeme.token ≠ .endOfInput) :
    Ensures advance s fun _ s' => Reads s [s.here] s' ∧ s'.lastStop = s.lexeme.stop := by
  simp only [advance, ensures_bind, ensures_get, ensures_liftM, ensures_set]
  intro l hl
  have hstop := hs.lexeme.stop_add_byteSize
  obtain ⟨hle, hsuffix, hstands⟩ := Lexeme.scan_stands hstop hl
  have hlt := hs.lexeme.start_lt hne
  have hbefore := hs.stop_le
  have hstops := hs.lexeme.stopsAt hne
  have hhere : OnTokens s.limit s.lexeme.here s.here :=
    ⟨hs.lexeme.startsAt (by omega), hstops⟩
  refine ⟨?_, trivial⟩
  exact {
    sound_before := hs
    sound := ⟨hstands, hle⟩
    start_le := by dsimp only; omega
    stop_le := by dsimp only; omega
    limit_eq := rfl
    suffix := hsuffix.trans hs.lexeme.takes.suffix
    last := .inr hstops
    ordered := ⟨Nat.le_refl _, hlt, Nat.le_refl _, trivial⟩
    nested := List.forall_mem_singleton.2 hhere
    hosts := ⟨[], rfl, trivial, trivial⟩
    proper := fun h => ⟨h, List.forall_mem_singleton.2 trivial⟩
    scanned := fun _ => Lexeme.scan_scanned hl
    steps := {
      moved := .inr hlt
      first _ := .inr ⟨l, hl, .inl ⟨rfl, rfl, .inl rfl⟩⟩
      hosts _ := ⟨[], rfl, List.forall_mem_nil _⟩ } }

theorem advance_here (hs : s.Sound) (hne : s.lexeme.token ≠ .endOfInput) :
    Ensures advance s fun _ s' => Reads s [s.here] s' :=
  (advance_takes hs hne).of fun _ _ h => h.1

theorem advance_reads (hs : s.Sound) (hne : s.lexeme.token ≠ .endOfInput) :
    Ensures advance s fun _ s' => Reads s [] s' :=
  (advance_here hs hne).of fun _ _ h => h.sublist (List.nil_sublist _)

theorem advance_mark {mark : String} (hs : s.Sound) (h : isMark s.lexeme.token mark = true) :
    Ensures advance s fun _ s' => Reads s [] s' :=
  advance_reads hs (ne_endOfInput_of_isMark h)

theorem advance_keyword {word : String} (hs : s.Sound)
    (h : isKeyword s.lexeme.token word = true) : Ensures advance s fun _ s' => Reads s [] s' :=
  advance_reads hs (ne_endOfInput_of_isKeyword h)

/-- The token that comes next becomes the current one. -/
theorem advance_scans :
    Ensures advance s fun _ s' => Lexeme.scan s.lexeme.stop s.lexeme.rest = .ok s'.lexeme := by
  simp only [advance, ensures_bind, ensures_get, ensures_liftM, ensures_set]
  exact fun _ hl => hl

theorem advance_peeked {l : Lexeme} (hl : Lexeme.scan s.lexeme.stop s.lexeme.rest = .ok l) :
    Ensures advance s fun _ s' => s'.lexeme = l :=
  advance_scans.of fun _ _ h => Except.ok.inj (h.symm.trans hl)

/-- A token that is read is no host form. -/
theorem advance_hosts : Ensures advance s fun _ s' => s'.hosts = s.hosts := by
  simp only [advance, ensures_bind, ensures_get, ensures_liftM, ensures_set]
  exact fun _ _ => trivial

@[simp] theorem ensures_eatMark {mark : String} {Q : Bool → State → Prop} :
    Ensures (eatMark mark) s Q ↔
      if isMark s.lexeme.token mark then Ensures advance s fun _ s' => Q true s'
      else Q false s := by
  simp only [eatMark, ensures_bind, ensures_atMark, ensures_ite, ensures_pure]

@[simp] theorem ensures_eatKeyword {word : String} {Q : Bool → State → Prop} :
    Ensures (eatKeyword word) s Q ↔
      if isKeyword s.lexeme.token word then Ensures advance s fun _ s' => Q true s'
      else Q false s := by
  simp only [eatKeyword, ensures_bind, ensures_atKeyword, ensures_ite, ensures_pure]

theorem eatMark_hosts {mark : String} :
    Ensures (eatMark mark) s fun _ s' => s'.hosts = s.hosts := by
  rw [ensures_eatMark]
  split
  · exact advance_hosts
  · rfl

theorem eatKeyword_hosts {word : String} :
    Ensures (eatKeyword word) s fun _ s' => s'.hosts = s.hosts := by
  rw [ensures_eatKeyword]
  split
  · exact advance_hosts
  · rfl

theorem eatMark_reads {mark : String} (hs : s.Sound) :
    Ensures (eatMark mark) s fun _ s' => Reads s [] s' := by
  rw [ensures_eatMark]
  split
  · next hmark => exact advance_mark hs hmark
  · exact .refl hs

theorem eatKeyword_reads {word : String} (hs : s.Sound) :
    Ensures (eatKeyword word) s fun _ s' => Reads s [] s' := by
  rw [ensures_eatKeyword]
  split
  · next hword => exact advance_keyword hs hword
  · exact .refl hs

theorem expectMark_reads {mark : String} (hs : s.Sound) :
    Ensures (expectMark mark) s fun _ s' => Reads s [s.here] s' := by
  simp only [expectMark, ensures_bind, ensures_eatMark, ensures_ite, ensures_missing,
    ensures_pure, ↓reduceIte, Bool.false_eq_true]
  split
  · next hmark => exact advance_here hs (ne_endOfInput_of_isMark hmark)
  · trivial

theorem expectMark_at {mark : String} :
    Ensures (expectMark mark) s fun _ _ => isMark s.lexeme.token mark = true := by
  simp only [expectMark, ensures_bind, ensures_eatMark, ensures_ite, ensures_missing,
    ensures_pure, ↓reduceIte, Bool.false_eq_true]
  split
  · next hmark => exact .of_forall fun _ _ => hmark
  · trivial

theorem expectMark_scans {mark : String} :
    Ensures (expectMark mark) s fun _ s' => s.Next s'.lexeme := by
  simp only [expectMark, ensures_bind, ensures_eatMark, ensures_ite, ensures_missing,
    ensures_pure, ↓reduceIte, Bool.false_eq_true]
  split
  · exact advance_scans
  · trivial

theorem expectMark_hosts {mark : String} :
    Ensures (expectMark mark) s fun _ s' => s'.hosts = s.hosts := by
  simp only [expectMark, ensures_bind, ensures_eatMark, ensures_ite, ensures_missing,
    ensures_pure, ↓reduceIte, Bool.false_eq_true]
  split
  · exact advance_hosts
  · trivial

theorem expectKeyword_reads {word : String} (hs : s.Sound) :
    Ensures (expectKeyword word) s fun _ s' => Reads s [s.here] s' := by
  simp only [expectKeyword, ensures_bind, ensures_eatKeyword, ensures_ite, ensures_missing,
    ensures_pure, ↓reduceIte, Bool.false_eq_true]
  split
  · next hword => exact advance_here hs (ne_endOfInput_of_isKeyword hword)
  · trivial

theorem endStatement_reads (hs : s.Sound) :
    Ensures endStatement s fun _ s' => Reads s [] s' := by
  simp only [endStatement, atImplicitEnd, ensures_bind, ensures_eatMark, ensures_ite,
    ensures_current, ensures_get, ensures_fail, ensures_pure, ↓reduceIte, Bool.false_eq_true]
  split
  · next hmark => exact advance_mark hs hmark
  · split
    · exact .refl hs
    · trivial

/-! ## Loops and lists -/

section Loops

variable {σ : Type} {Inv : σ → State → Prop} {step : σ → Parser (Sum σ α)}

theorem ensures_iterate
    (hstep : ∀ a s, Inv a s → Ensures (step a) s fun r s' => r.elim (Inv · s') (Q · s'))
    (rounds : Nat) {a : σ} (h : Inv a s) : Ensures (iterate step rounds a) s Q := by
  induction rounds generalizing a s with
  | zero => simp only [iterate, ensures_unexpected]
  | succ rounds ih =>
    simp only [iterate, ensures_bind]
    refine (hstep a s h).of fun r s1 h1 => ?_
    cases r with
    | inl b => exact ih h1
    | inr b => exact ensures_pure.2 h1

/-- What holds before a loop and is kept by each of its rounds. -/
theorem ensures_repeatFrom (Inv : σ → State → Prop) {a : σ} (h : Inv a s)
    (hstep : ∀ a s, Inv a s → Ensures (step a) s fun r s' => r.elim (Inv · s') (Q · s')) :
    Ensures (repeatFrom a step) s Q := by
  simp only [repeatFrom, ensures_bind, ensures_get]
  exact ensures_iterate hstep _ h

end Loops

/-- The parts that the items of a list take, and what each of the items is. -/
theorem separated_reads {close : String} {item : Parser α} {parts : α → List Part} {P : α → Prop}
    (hitem : ∀ {s}, s.Sound → Ensures item s fun a s' => Reads s (parts a) s' ∧ P a)
    (hs : s.Sound) :
    Ensures (separated close item) s fun r s' =>
      Reads s (r.1.flatMap parts) s' ∧ ∀ a ∈ r.1, P a := by
  simp only [separated, ensures_bind, ensures_atMark, ensures_atEnd, ensures_ite, ensures_pure]
  split
  · exact ⟨.refl hs, by simp⟩
  refine ensures_repeatFrom
    (fun items s' => Reads s (items.reverse.flatMap parts) s' ∧ ∀ a ∈ items, P a)
    ⟨.refl hs, by simp⟩ fun items s1 h1 => ?_
  obtain ⟨h1, hitems⟩ := h1
  simp only [ensures_bind, ensures_atMark, ensures_atEnd, ensures_current, ensures_eatMark,
    ensures_missing, ensures_ite, ensures_pure, ↓reduceIte, Bool.false_eq_true, Sum.elim_inl,
    Sum.elim_inr]
  refine (hitem h1.sound).of fun a s2 h2 => ?_
  obtain ⟨h2, ha⟩ := h2
  have hread : Reads s ((a :: items).reverse.flatMap parts) s2 := by
    simpa using h1.trans h2
  have hall : ∀ b ∈ a :: items, P b := List.forall_mem_cons.2 ⟨ha, hitems⟩
  have hreversed : ∀ b ∈ (a :: items).reverse, P b := fun b hb => hall b (List.mem_reverse.1 hb)
  split
  · exact ⟨hread, hreversed⟩
  split
  · next hcomma =>
    refine (advance_mark h2.sound hcomma).of fun _ s3 h3 => ?_
    split
    · exact ⟨hread.before h3, hreversed⟩
    · exact ⟨hread.before h3, hall⟩
  · trivial

/-- A list of which nothing is kept. -/
theorem separated_moves {close : String} {item : Parser α}
    (hitem : ∀ {s}, s.Sound → Ensures item s fun _ s' => Reads s [] s') (hs : s.Sound) :
    Ensures (separated close item) s fun _ s' => Reads s [] s' := by
  have hnothing {s : State} (hs : s.Sound) :
      Ensures item s fun _ s' => Reads s [] s' ∧ True :=
    (hitem hs).of fun _ _ h => ⟨h, trivial⟩
  exact (separated_reads hnothing hs).of fun _ _ h => h.1.sublist (List.nil_sublist _)

/-- If a list has a single item, the item comes first and no other one is read. -/
theorem separated_single {close : String} {item : Parser α} {Q : α → State → Prop}
    (hitem : Ensures item s Q) (hsound : ∀ {a s'}, Q a s' → s'.Sound) :
    Ensures (separated close item) s fun r s' =>
      ∀ a, r.1 = [a] → ∃ s1, Q a s1 ∧ Reads s1 [] s' ∧ s'.hosts = s1.hosts := by
  simp only [separated, ensures_bind, ensures_atMark, ensures_atEnd, ensures_ite, ensures_pure]
  split
  · nofun
  refine ensures_repeatFrom (fun items s' => items = [] → s' = s) (fun _ => rfl)
    fun items s1 h1 => ?_
  simp only [ensures_bind, ensures_atMark, ensures_atEnd, ensures_current, ensures_eatMark,
    ensures_missing, ensures_ite, ensures_pure, ↓reduceIte, Bool.false_eq_true, Sum.elim_inl,
    Sum.elim_inr]
  have hfirst : Ensures item s1 fun a s2 => items = [] → Q a s2 := by
    intro a s2 ha hitems
    rw [h1 hitems] at ha
    exact hitem a s2 ha
  refine hfirst.of fun a s2 h2 => ?_
  have hsingle {b : α} (hb : (a :: items).reverse = [b]) : Q b s2 := by
    rw [List.reverse_eq_iff] at hb
    obtain ⟨rfl, hitems⟩ := List.cons.inj hb
    exact h2 hitems
  split
  · exact fun b hb => ⟨s2, hsingle hb, .refl (hsound (hsingle hb)), rfl⟩
  split
  · next hcomma =>
    intro _ s3 h3
    split
    · intro b hb
      have hb := hsingle hb
      exact ⟨s2, hb, advance_mark (hsound hb) hcomma _ _ h3, advance_hosts _ _ h3⟩
    · nofun
  · trivial

/-- What holds before a list of steps and is kept by each of them. -/
theorem ensures_forM (Inv : State → Prop) {f : α → Parser PUnit} {items : List α} (h : Inv s)
    (hf : ∀ a s, Inv s → Ensures (f a) s fun _ s' => Inv s') :
    Ensures (items.forM f) s fun _ s' => Inv s' := by
  induction items generalizing s with
  | nil => exact ensures_pure.2 h
  | cons a items ih => exact ensures_bind.2 ((hf a s h).of fun _ s1 h1 => ih h1)

theorem ensures_forIn (Inv : State → Prop) {f : α → PUnit → Parser (ForInStep PUnit)}
    {items : List α} (h : Inv s)
    (hf : ∀ a s, Inv s → Ensures (f a ⟨⟩) s fun _ s' => Inv s') :
    Ensures (forIn items ⟨⟩ f) s fun _ s' => Inv s' := by
  induction items generalizing s with
  | nil => exact ensures_pure.2 h
  | cons a items ih =>
    rw [List.forIn_cons, ensures_bind]
    refine (hf a s h).of fun r s1 h1 => ?_
    cases r with
    | done => exact ensures_pure.2 h1
    | yield => exact ih h1

theorem addExports_reads {names : List String} {span : Span} (hs : s.Sound) :
    Ensures (addExports names span) s fun _ s' => Reads s [] s' := by
  refine ensures_forM (Reads s []) (.refl hs) fun name s1 h1 => ?_
  simp only [ensures_bind, ensures_get, ensures_ite, ensures_fail, ensures_set]
  split
  · trivial
  · exact { h1 with
      sound := ⟨h1.sound.lexeme, h1.sound.stop_le⟩
      steps := h1.steps.congr rfl rfl h1.steps.hosts }

/-! ## Names and copied expressions -/

theorem name_reads {ctx : Context} (hs : s.Sound) :
    Ensures (name ctx) s fun r s' => Reads s [(r.2 : Part)] s' ∧ s'.lastStop = r.2.stop := by
  simp only [name, ensures_bind, ensures_current]
  split
  · next text hname =>
    have hne : s.lexeme.token ≠ .endOfInput := by
      intro h
      simp [h, name?] at hname
    simp only [ensures_bind, ensures_pure]
    exact advance_takes hs hne
  · exact ensures_unexpected.2 trivial

end Parser

/-! ## Productions -/

/-- No semicolon follows a string literal that comes first. -/
def State.GoesOn (s : State) : Prop :=
  s.AtString → ∀ l, s.Next l → isMark l.token ";" = false

namespace State

variable {s : State}

theorem goesOn_of_token {token : Token} (h : s.lexeme.token = token)
    (hother : ∀ value isSound, token ≠ .string value isSound) : s.GoesOn := by
  rintro ⟨value, isSound, hstring⟩
  exact absurd (h.symm.trans hstring) (hother value isSound)

theorem goesOn_of_isMark {mark : String} (h : isMark s.lexeme.token mark = true) : s.GoesOn :=
  goesOn_of_token (beq_iff_eq.1 h) nofun

end State

/-- What is read goes on past a string literal that comes first, or stops there and another token
than a semicolon is the next one. -/
theorem Reads.goesOn {s s' : State} {part : Part} {xs : List Part} (h : Reads s (part :: xs) s')
    (hgo : s.GoesOn ∨ s'.lastStop = s.lexeme.stop)
    (hmark : isMark s'.lexeme.token ";" = false) : s.GoesOn := by
  refine hgo.elim id fun hstop hstring l hl => ?_
  have hlt := h.start_lt_stop
  have hlast := h.sound_before.stop_le
  obtain ⟨-, hsame⟩ | ⟨next, hnext, hbefore⟩ := h.steps.first hstring.isFixed
  · omega
  · obtain rfl : next = l := Except.ok.inj (hnext.symm.trans hl)
    obtain hbefore | hlt := hbefore
    · rw [← Bool.not_eq_true]
      intro hsemicolon
      have htoken : next.token = .punctuator ";" := beq_iff_eq.1 hsemicolon
      rw [hbefore.eq_of_isOpen (by rw [htoken]; rfl), htoken] at hmark
      cases hmark
    · have hle := h.sound_before.stop_le_next hl
      omega

/-- A term is all that is read between two states.  The place of a term that can be assigned to
holds all host forms in it, and it is the whole term unless it stands in parentheses.  A name is the
word that comes first.  A term that starts with a string literal goes on past it, if at all, by
another token than a semicolon. -/
structure ReadsTerm (s : State) (t : Term) (s' : State) : Prop extends Reads s [t.span] s' where
  whole : t.span = ⟨s.lexeme.start, s'.lastStop⟩
  placed : t.targetObstacle = none → Holds s t.place s'
  place_eq : t.place = t.span ∨ isMark s.lexeme.token "(" = true
  named : ∀ name, t.shape = .name name → ∃ isEscaped, s.lexeme.token = .word name isEscaped
  goesOn : s.GoesOn ∨ s'.lastStop = s.lexeme.stop

theorem ReadsTerm.holds {s s' : State} {t : Term} (h : ReadsTerm s t s') : Holds s t.span s' :=
  h.whole ▸ h.toReads.holds

namespace Parser

/-- The host forms that are met from a state on. -/
theorem hostsSince_of_holds {s s' : State} {span : Span} (h : Holds s span s') :
    Reads s [.expression ⟨span, (s'.hosts.take (s'.hosts.length - s.hosts.length)).reverse⟩]
      s' := by
  obtain ⟨hosts, heq, hread⟩ := h
  rw [heq, List.length_append, Nat.add_sub_cancel, List.take_left, List.reverse_reverse]
  exact hread

variable {s : State} {term : Parser Term}

theorem copied_reads (hterm : Ensures term s fun t s' => ReadsTerm s t s') :
    Ensures (copied term) s fun e s' => Reads s [.expression e] s' := by
  simp only [copied, ensures_bind, ensures_get, ensures_value, ensures_hostsSince, ensures_pure]
  exact hterm.of fun t s1 h1 _ => hostsSince_of_holds h1.holds

/-- A copied expression holds just the host forms that are met in it. -/
theorem copied_hosts (hterm : Ensures term s fun t s' => ReadsTerm s t s') :
    Ensures (copied term) s fun e s' => s'.hosts = e.hosts.reverse ++ s.hosts := by
  simp only [copied, ensures_bind, ensures_get, ensures_value, ensures_hostsSince, ensures_pure]
  refine hterm.of fun t s1 h1 _ => ?_
  obtain ⟨hosts, heq, -⟩ := h1.hosts
  rw [heq, List.length_append, Nat.add_sub_cancel, List.take_left, List.reverse_reverse]

end Parser

/-- A pattern is read between two states; it stops where the last token read does. -/
structure ReadsPattern (s : State) (p : Pattern) (s' : State) : Prop extends
    Reads s p.parts s' where
  stop_eq : s'.lastStop = p.span.stop
  start_lt_stop : s.lexeme.start < s'.lastStop

/-- The parts of a statement are read between two states, also those that are left out when it
stands outside functions. -/
structure ReadsStatement (s : State) (st : Statement) (s' : State) : Prop extends
    Reads s (st.parts true) s' where
  formed : st.Formed

/-- The parts of the source that a production answers with are read between the states before and
after it. -/
structure Productions.Sound (g : Productions) : Prop where
  assignment (ctx : Context) {s : State} (hs : s.Sound) :
    (g.assignment ctx).Ensures s fun t s' => ReadsTerm s t s'
  unary (ctx : Context) {s : State} (hs : s.Sound) :
    (g.unary ctx).Ensures s fun t s' => ReadsTerm s t s'
  binary (ctx : Context) (least : Nat) {s : State} (hs : s.Sound) :
    (g.binary ctx least).Ensures s fun t s' => ReadsTerm s t s'
  access (ctx : Context) (calls : Bool) {s : State} (hs : s.Sound) :
    (g.access ctx calls).Ensures s fun t s' => ReadsTerm s t s'
  pattern (ctx : Context) {s : State} (hs : s.Sound) :
    (g.pattern ctx).Ensures s fun p s' => ReadsPattern s p s'
  statement (ctx : Context) (placement : Placement) {s : State} (hs : s.Sound) :
    (g.statement ctx placement).Ensures s fun st s' => ReadsStatement s st s'

end Rebind.Grammar
