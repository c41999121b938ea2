import Rebind.Proofs.Parameters
import Rebind.Proofs.Reading.Places
import Rebind.Proofs.Reading.Prologue
import Rebind.Proofs.StatementEnds

/-!
# Directives of functions

The body of a function is written with its directives first.  What a reader finds at the head of the
written body are the directives, and then the string literals that stand alone in the source, past
statements for which nothing is written (`function_body_prologue`).
-/

namespace Rebind

open Rebind.Text (Span Boundary byteSize)
open Rebind.Layout
open Rebind.Snippet

/-! ## Statements that become directives -/

namespace Snippet

/-- The text of a statement that is written as a string literal only. -/
def Statement.literal? (source : List Char) : Statement → Option (List Char)
  | .expression _ value =>
    let text := value.span.slice source
    if value.hosts.isEmpty && Snippet.literal? text == some (text, []) then some text else none
  | _ => none

/-- The string literals that come first in the code of statements, if it is read from there. -/
def promoted (source : List Char) : List Statement → List (List Char)
  | [] => []
  | s :: rest =>
    if s.isSilent then promoted source rest
    else match s.literal? source with
      | some text => text :: promoted source rest
      | none => []

/-- A string literal that stands alone past statements for which nothing is written, and past
no other one. -/
def Promotes (source : List Char) (statements : List Statement) : Prop :=
  ∃ silent s rest, statements = silent ++ s :: rest ∧ silent ≠ [] ∧
    (∀ x ∈ silent, x.isSilent = true) ∧ (s.literal? source).isSome = true

end Snippet

theorem Snippet.promoted_ne_nil_iff {source : List Char} {body : List Statement} :
    promoted source body ≠ [] ↔ ∃ silent s rest, body = silent ++ s :: rest ∧
      (∀ x ∈ silent, x.isSilent = true) ∧ (s.literal? source).isSome = true := by
  induction body with
  | nil => simp [promoted]
  | cons s rest ih =>
    rw [promoted]
    constructor
    · intro hne
      split at hne
      · next hsilent =>
        obtain ⟨silent, lone, others, rfl, hall, hlone⟩ := ih.1 hne
        exact ⟨s :: silent, lone, others, rfl, List.forall_mem_cons.2 ⟨hsilent, hall⟩, hlone⟩
      · cases hliteral : s.literal? source with
        | none => simp [hliteral] at hne
        | some text => exact ⟨[], s, rest, rfl, List.forall_mem_nil _, by simp [hliteral]⟩
    · rintro ⟨silent, lone, others, heq, hall, hlone⟩
      cases silent with
      | nil =>
        obtain ⟨rfl, -⟩ := List.cons.inj heq
        obtain ⟨text, hliteral⟩ := Option.isSome_iff_exists.1 hlone
        have hspeaks : s.isSilent = false := by
          cases s <;> first | rfl | cases hliteral
        rw [if_neg (by simp [hspeaks]), hliteral]
        exact List.cons_ne_nil _ _
      | cons x silent =>
        obtain ⟨rfl, rfl⟩ := List.cons.inj heq
        obtain ⟨hsilent, hall⟩ := List.forall_mem_cons.1 hall
        rw [if_pos hsilent]
        exact ih.2 ⟨silent, lone, others, rfl, hall, hlone⟩

/-! ## The text of an expression -/

namespace Code

variable {filling : Filling} {source : List Char} {e : Expression}

/-- The name of the module object starts as names do. -/
def NameStarts (filling : Filling) : Prop :=
  ∃ c cs, filling.moduleObject.toList = c :: cs ∧ Unicode.isNameStart c = true

theorem head_hostSite (hname : NameStarts filling) (source : List Char) (host : HostForm) :
    ∃ c cs, textOf filling source (hostSite host).2 = c :: cs ∧ Unicode.isNameStart c = true := by
  obtain ⟨rest, hrest⟩ : ∃ rest, (hostSite host).2 = .slot .moduleObject :: rest := by
    cases host <;> exact ⟨_, rfl⟩
  obtain ⟨c, cs, hcs, hc⟩ := hname
  rw [hrest, textOf_cons, Piece.fill, hcs]
  exact ⟨c, _, rfl, hc⟩

/-- The text of an expression is a stretch of the source, with the name of the module object behind
it unless this is all of the expression. -/
theorem textOf_expression_front (hname : NameStarts filling)
    (h : e.Nested (byteSize source) source) (hlt : e.span.start < e.span.stop) :
    ∃ middle tail, textOf filling source (expression e) =
        Span.slice ⟨e.span.start, middle⟩ source ++ tail ∧
      Boundary source middle ∧ e.span.start ≤ middle ∧
      ((middle = e.span.stop ∧ e.hosts = [] ∧ tail = []) ∨
        (∃ host ∈ e.hosts, host.span.start = middle) ∧
          ∃ c cs, tail = c :: cs ∧ Unicode.isNameStart c = true) := by
  cases hhosts : e.hosts with
  | nil =>
    refine ⟨e.span.stop, [], ?_, h.onTokens.stops.boundary, Nat.le_of_lt hlt, .inl ⟨rfl, rfl, rfl⟩⟩
    rw [expression_eq, hhosts, copied_nil]
    simp [textOf, Piece.fill]
  | cons host hosts =>
    have hbetween := h.hosts
    rw [hhosts] at hbetween
    obtain ⟨c, cs, hcs, hc⟩ := head_hostSite hname source host
    refine ⟨host.span.start, c :: cs ++ textOf filling source
      (copied host.span.stop e.span.stop hosts), ?_, hbetween.nested.1.onTokens.starts.boundary,
      hbetween.ordered.1, .inr ⟨⟨host, List.mem_cons_self, rfl⟩, c, _, rfl, hc⟩⟩
    rw [expression_eq, hhosts, copied_cons hbetween, textOf_cons, textOf_append, hcs, Piece.fill,
      String.toList_ofList]

end Code

/-! ## What an expression begins with -/

section Expression

variable {filling : Filling} {source : List Char} {e : Expression}

/-- The first character of a token stands not between tokens, and is a mark of string literals only
if the token is one. -/
theorem Snippet.Lexeme.IsOf.head {l : Lexeme} (h : l.IsOf source)
    (hlt : l.start < byteSize source) : ∃ c more, l.here = c :: more ∧ isGap c = false ∧
      (isQuote c = true → l.IsString) := by
  cases hhere : l.here with
  | nil =>
    have hsize := h.stands.here
    rw [hhere, Text.byteSize_nil] at hsize
    omega
  | cons c more =>
    refine ⟨c, more, rfl, ?_, h.isString_of_head hhere⟩
    obtain hscan | ⟨-, hhead⟩ | ⟨-, hhead⟩ := h.scanned
    · rw [hhere] at hscan
      exact isGap_of_scanToken hscan
    · rw [hhere, List.head?_cons, Option.some.injEq] at hhead
      rw [hhead]
      decide
    · rw [hhere, List.head?_cons, Option.some.injEq] at hhead
      rw [hhead]
      decide

theorem Snippet.literal?_of_head {c : Char} {cs : List Char} (h : isQuote c = false) :
    literal? (c :: cs) = none := by
  rw [literal?, if_neg (by simp [h])]

variable {l : Lexeme}

/-- No string literal comes first. -/
theorem prologue_of_not_isString (hname : Code.NameStarts filling)
    (hnested : e.Nested (byteSize source) source) (hlt : e.span.start < e.span.stop)
    (hl : l.IsOf source) (hstart : l.start = e.span.start) (hother : ¬ l.IsString) :
    (e.hosts = [] → literal? (e.span.slice source) = none) ∧
      ∀ more, prologue (Code.textOf filling source (Code.expression e) ++ more) = [] := by
  obtain ⟨c, cs, hhere, hgap, hstring⟩ := hl.head (hstart ▸ hnested.onTokens.starts.lt)
  have hquote : isQuote c = false := by
    rw [← Bool.not_eq_true]
    exact fun h => hother (hstring h)
  obtain ⟨middle, tail, htext, hmiddle, hle, hends⟩ :=
    Code.textOf_expression_front hname hnested hlt
  rw [← hstart] at htext hle hlt
  obtain ⟨rest, hrest, hsize⟩ := eq_slice_append hl.suffix hl.stands.here hmiddle hle
  -- The stretch of the source is empty only if a host form comes first.
  cases hslice : Span.slice ⟨l.start, middle⟩ source with
  | nil =>
    rw [hslice, Text.byteSize_nil] at hsize
    rw [htext, hslice, List.nil_append]
    obtain ⟨hmiddle, -⟩ | ⟨⟨host, hhost, -⟩, d, ds, rfl, hd⟩ := hends
    · omega
    · refine ⟨fun hnone => ?_, fun more => ?_⟩
      · rw [hnone] at hhost
        cases hhost
      · exact prologue_other (isGap_of_isNameStart hd) (isQuote_of_isNameStart hd)
  | cons d ds =>
    rw [hslice, hhere, List.cons_append] at hrest
    obtain ⟨rfl, -⟩ := List.cons.inj hrest
    rw [htext, hslice]
    refine ⟨fun hnone => ?_, fun more => prologue_other hgap hquote⟩
    obtain ⟨hmiddle, -⟩ | ⟨⟨host, hhost, -⟩, -⟩ := hends
    · have hspan : e.span = ⟨l.start, middle⟩ := by rw [hstart, hmiddle]
      rw [hspan, hslice]
      exact literal?_of_head hquote
    · rw [hnone] at hhost
      cases hhost

/-- A string literal comes first, and the expression goes on past it. -/
theorem prologue_of_goesPast (hname : Code.NameStarts filling)
    (hnested : e.Nested (byteSize source) source) (hlt : e.span.start < e.span.stop)
    (hl : l.IsOf source) (hstart : l.start = e.span.start) (hstring : l.IsString)
    (hpast : e.GoesPast l) :
    (e.hosts = [] → literal? (e.span.slice source) ≠ some (e.span.slice source, [])) ∧
      ∀ more, prologue (Code.textOf filling source (Code.expression e) ++ ';' :: more) = [] := by
  obtain ⟨⟨next, hnext, hmark, hnextlt⟩, hhosts⟩ := hpast
  obtain ⟨middle, tail, htext, hmiddle, -, hends⟩ :=
    Code.textOf_expression_front hname hnested hlt
  have hstop := hl.stands.stop_add_byteSize
  have hle := (Lexeme.scan_stands hstop hnext).1
  have hpast : l.stop ≤ middle := by
    obtain ⟨hmiddle, -⟩ | ⟨⟨host, hhost, rfl⟩, -⟩ := hends
    · omega
    · exact hhosts host hhost
  obtain ⟨read, hread, hhere, hlstop⟩ := hl.literal hstring
  obtain ⟨rest, hrest, hsize⟩ :=
    eq_slice_append (hl.stands.takes.suffix.trans hl.suffix) hstop hmiddle hpast
  -- The stretch is the literal and what comes past it.
  have hslice : Span.slice ⟨e.span.start, middle⟩ source =
      read ++ Span.slice ⟨l.stop, middle⟩ source := by
    have hlow := hnested.onTokens.starts.boundary
    have hliteral := hl.slice_span hhere hlstop
    rw [Lexeme.span] at hliteral
    rw [← hstart] at hlow ⊢
    rw [← hliteral]
    exact (hlow.slice_append (boundary_of_suffix (hl.stands.takes.suffix.trans hl.suffix) hstop)
      hmiddle (by omega) hpast).symm
  generalize Span.slice ⟨l.stop, middle⟩ source = past at hslice hrest hsize
  rw [hrest] at hnext
  constructor
  · intro hnone
    obtain ⟨rfl, -⟩ | ⟨⟨host, hhost, -⟩, -⟩ := hends
    · rw [hslice, hread]
      intro hall
      obtain rfl : past = [] := (Prod.mk.inj (Option.some.inj hall)).2
      rw [Text.byteSize_nil] at hsize
      omega
    · rw [hnone] at hhost
      cases hhost
  · intro more
    rw [htext, hslice, List.append_assoc, List.append_assoc]
    refine prologue_goesOn hread (head_ne_semicolon hnext hmark ?_)
    obtain ⟨rfl, -⟩ | ⟨-, c, cs, rfl, hc⟩ := hends
    · exact .inl (by omega)
    · exact .inr ⟨c, _, rfl, hc⟩

/-- An expression as a statement is a string literal, or none comes first in its code. -/
theorem literal?_expression (hname : Code.NameStarts filling)
    (hnested : e.Nested (byteSize source) source) (hlt : e.span.start < e.span.stop)
    (hopens : e.Opens source) (start : Nat) :
    let text := Code.textOf filling source (Code.expression e)
    ((Statement.expression start e).literal? source = some text ∧ IsLiteral text ∧
        IsLiteralSpan source e.span) ∨
      ((Statement.expression start e).literal? source = none ∧
        ∀ more, prologue (text ++ ';' :: more) = []) := by
  obtain ⟨l, hl, hstart, hopens⟩ := hopens
  by_cases hstring : l.IsString
  · obtain rfl | hpast := hopens hstring
    · obtain ⟨read, hread, hhere, hstop⟩ := hl.literal hstring
      have hslice := hl.slice_span hhere hstop
      have htext : Code.textOf filling source (Code.expression ⟨l.span, []⟩) = read := by
        rw [Code.expression_eq, Code.copied_nil]
        simpa [Code.textOf, Piece.fill] using hslice
      have hliteral := hread []
      rw [List.append_nil] at hliteral
      refine .inl ⟨?_, htext ▸ hread, l, hl, hstring, rfl⟩
      simp [Statement.literal?, hslice, hliteral, htext]
    · have h := prologue_of_goesPast hname hnested hlt hl hstart hstring hpast
      refine .inr ⟨?_, h.2⟩
      simpa [Statement.literal?] using h.1
  · have h := prologue_of_not_isString hname hnested hlt hl hstart hstring
    refine .inr ⟨?_, fun more => h.2 _⟩
    rw [Statement.literal?, ite_eq_right_iff, Bool.and_eq_true, List.isEmpty_iff]
    rintro ⟨hnone, hliteral⟩
    rw [h.1 hnone] at hliteral
    cases hliteral

end Expression

/-! ## What a template begins with -/

namespace Template

variable {filling : Filling} {source : List Char} {found found' : List (List Char)} {t u : Template}

/-- From the start of a line, the template begins with string literals and ends its line. -/
def Continues (filling : Filling) (source : List Char) (found : List (List Char))
    (t : Template) : Prop :=
  ∀ state : State, state.atLineStart = true → (t.layOut filling source state).atLineStart = true ∧
    ∃ out, (t.layOut filling source state).text.toList = state.text.toList ++ out ∧
      ∀ more, prologue (out ++ more) = found ++ prologue more

/-- From the start of a line, the template begins with string literals before something else. -/
def Stops (filling : Filling) (source : List Char) (found : List (List Char))
    (t : Template) : Prop :=
  ∀ state : State, state.atLineStart = true →
    ∃ out, (t.layOut filling source state).text.toList = state.text.toList ++ out ∧
      ∀ more, prologue (out ++ more) = found

theorem continues_nil : Continues filling source [] [] :=
  fun _ hstate => ⟨hstate, [], by simp, fun _ => rfl⟩

theorem Continues.append (ht : Continues filling source found t)
    (hu : Continues filling source found' u) :
    Continues filling source (found ++ found') (t ++ u) := by
  intro state hstate
  obtain ⟨hline, front, hfront, hfound⟩ := ht state hstate
  obtain ⟨hline', back, hback, hfound'⟩ := hu _ hline
  rw [layOut_append]
  refine ⟨hline', front ++ back, by rw [hback, hfront, List.append_assoc], fun more => ?_⟩
  rw [List.append_assoc, hfound, hfound', List.append_assoc]

theorem Continues.stops (ht : Continues filling source found t)
    (hu : Stops filling source found' u) : Stops filling source (found ++ found') (t ++ u) := by
  intro state hstate
  obtain ⟨hline, front, hfront, hfound⟩ := ht state hstate
  obtain ⟨back, hback, hfound'⟩ := hu _ hline
  rw [layOut_append]
  refine ⟨front ++ back, by rw [hback, hfront, List.append_assoc], fun more => ?_⟩
  rw [List.append_assoc, hfound, hfound']

theorem Stops.append (ht : Stops filling source found t) (u : Template) :
    Stops filling source found (t ++ u) := by
  intro state hstate
  obtain ⟨front, hfront, hfound⟩ := ht state hstate
  obtain ⟨back, hback⟩ := layOut_text filling source (t.layOut filling source state) u
  rw [layOut_append]
  refine ⟨front ++ back.toList, by rw [hback, String.toList_append, hfront, List.append_assoc],
    fun more => ?_⟩
  rw [List.append_assoc, hfound]

theorem isGap_of_mem_blanks {n : Nat} : ∀ c ∈ ("".pushn ' ' n).toList, isGap c = true := by
  intro c hc
  rw [Text.toList_pushn] at hc
  rw [List.eq_of_mem_replicate hc]
  decide

/-- A fragment is written past blanks. -/
theorem layOut_fragment (filling : Filling) (source : List Char) (state : State)
    (fragment : Fragment) :
    ∃ blanks : List Char, (∀ c ∈ blanks, isGap c = true) ∧
      ((write fragment).layOut filling source state).text.toList =
        state.text.toList ++ (blanks ++ Code.textOf filling source fragment) := by
  obtain ⟨n, htext⟩ := state.run_write filling.indentWidth
    (String.join (fragment.map (Piece.fill filling source)))
  refine ⟨("".pushn ' ' n).toList, isGap_of_mem_blanks, ?_⟩
  rw [layOut_write, htext, String.toList_append, String.toList_append, String.toList_join,
    List.flatMap_map]
  rfl

/-- A fragment as a statement takes a line. -/
theorem layOut_statement (filling : Filling) (source : List Char) (state : State)
    (fragment : Fragment) :
    let after := (write fragment ++ endStatement).layOut filling source state
    after.atLineStart = true ∧ ∃ blanks : List Char, (∀ c ∈ blanks, isGap c = true) ∧
      after.text.toList = state.text.toList ++
        (blanks ++ (Code.textOf filling source fragment ++ ';' :: ['\n'])) := by
  have hsplit : write fragment ++ endStatement =
      write (fragment ++ [Piece.text ";"]) ++ [Step.newline] := by
    simp [write, endStatement]
  obtain ⟨blanks, hblanks, htext⟩ :=
    layOut_fragment filling source state (fragment ++ [Piece.text ";"])
  rw [hsplit, layOut_append, layOut_newline]
  refine ⟨rfl, blanks, hblanks, ?_⟩
  rw [String.toList_append, htext, Code.textOf_append]
  simp [Code.textOf, Piece.fill]

theorem continues_literal {fragment : Fragment}
    (h : IsLiteral (Code.textOf filling source fragment)) :
    Continues filling source [Code.textOf filling source fragment]
      (write fragment ++ endStatement) := by
  intro state _
  obtain ⟨hline, blanks, hblanks, htext⟩ := layOut_statement filling source state fragment
  refine ⟨hline, _, htext, fun more => ?_⟩
  have hbreak : ∀ c ∈ ['\n'], isGap c = true := List.forall_mem_singleton.2 (by decide)
  rw [List.append_assoc, prologue_gaps hblanks, List.append_assoc, List.cons_append,
    prologue_literal h, prologue_gaps hbreak]
  rfl

theorem stops_other {fragment : Fragment}
    (h : ∀ more, prologue (Code.textOf filling source fragment ++ ';' :: more) = []) :
    Stops filling source [] (write fragment ++ endStatement) := by
  intro state _
  obtain ⟨-, blanks, hblanks, htext⟩ := layOut_statement filling source state fragment
  refine ⟨_, htext, fun more => ?_⟩
  rw [List.append_assoc, prologue_gaps hblanks, List.append_assoc, List.cons_append, h]

/-- The template begins with a fixed text that begins no string literal. -/
theorem stops_text {text : String}
    (h : text.toList.head?.any (fun c => !isGap c && !isQuote c) = true) (t : Template) :
    Stops filling source [] (Step.write (.text text) :: t) := by
  have hfirst : Stops filling source [] [Step.write (.text text)] := by
    intro state _
    obtain ⟨blanks, hblanks, htext⟩ :=
      layOut_fragment filling source state [Piece.text text]
    refine ⟨_, htext, fun more => ?_⟩
    rw [List.append_assoc, prologue_gaps hblanks, Code.textOf_cons, Piece.fill]
    cases hcs : text.toList with
    | nil =>
      rw [hcs] at h
      cases h
    | cons c cs =>
      rw [hcs, List.head?_cons, Option.any_some, Bool.and_eq_true, Bool.not_eq_true',
        Bool.not_eq_true'] at h
      exact prologue_other h.1 h.2
  exact hfirst.append t

end Template

/-! ## Statements in a function -/

namespace Code

open Template

variable {filling : Filling} {source : List Char} {depth : Nat} {t : Template}

theorem registration_functionBody (s : Statement) : registration .functionBody s = [] := by
  have hnames : registeredNames .functionBody s = [] := by
    unfold registeredNames
    split <;> simp [redirects, ScopeMode.redirectsVar]
  rw [registration, hnames]
  rfl

/-- Whatever is written for a statement that is no expression begins with no string literal. -/
theorem stops_statement {s : Statement} (h : statement .functionBody depth .listed s = .ok t)
    (hsilent : s.isSilent = false) (hshown : s.Shown source)
    (hexpression : ∀ start value, s ≠ .expression start value) : Stops filling source [] t := by
  cases s with
  | block =>
    rw [statement_block_ok, if_neg (by decide)] at h
    obtain ⟨-, inner, -, rfl⟩ := h
    exact stops_text (by decide) _
  | conditional =>
    obtain ⟨-, inner, -, arm, -, rfl⟩ := statement_conditional_ok.1 h
    exact stops_text (by decide) _
  | whileLoop =>
    obtain ⟨-, inner, -, rfl⟩ := statement_whileLoop_ok.1 h
    exact stops_text (by decide) _
  | doLoop =>
    obtain ⟨-, inner, -, rfl⟩ := statement_doLoop_ok.1 h
    exact stops_text (by decide) _
  | withObject =>
    obtain ⟨-, inner, -, rfl⟩ := statement_withObject_ok.1 h
    exact stops_text (by decide) _
  | choice =>
    obtain ⟨-, inner, -, rfl⟩ := statement_choice_ok.1 h
    exact stops_text (by decide) _
  | attempt =>
    obtain ⟨-, inner, -, caught, -, final, -, rfl⟩ := statement_attempt_ok.1 h
    exact stops_text (by decide) _
  | forLoop =>
    obtain ⟨-, inner, -, rfl⟩ := statement_forLoop_ok.1 h
    rw [registrationUnless, if_neg (by decide), registration_functionBody]
    exact stops_text (by decide) _
  | forIn =>
    obtain ⟨-, inner, -, rfl⟩ := statement_forIn_ok.1 h
    rw [registrationUnless, if_neg (by decide), registration_functionBody]
    exact stops_text (by decide) _
  | forOf start isAwait =>
    obtain ⟨-, inner, -, rfl⟩ := statement_forOf_ok.1 h
    rw [registrationUnless, if_neg (by decide), registration_functionBody]
    cases isAwait <;> exact stops_text (by decide) _
  | labeled start labels body =>
    rw [statement_labeled_ok, if_neg (by decide)] at h
    obtain ⟨-, inner, -, rfl⟩ := h
    obtain ⟨hne, hnames⟩ := hshown
    obtain ⟨label, others, rfl⟩ := List.exists_cons_of_ne_nil hne
    obtain ⟨c, hhead, hc⟩ := hnames label List.mem_cons_self
    have hnested : ScopeMode.functionBody.nested = .functionBody := rfl
    rw [hnested, registration_functionBody]
    refine stops_text ?_ _
    rw [String.toList_append, List.head?_append, hhead]
    simp [isGap_of_isNameStart hc, isQuote_of_isNameStart hc]
  | returnValue =>
    rw [(statement_returnValue_ok.1 h).2]
    exact stops_text (by decide) _
  | throwValue =>
    rw [(statement_throwValue_ok.1 h).2]
    exact stops_text (by decide) _
  | jump start kind label =>
    rw [(statement_jump_ok.1 h).2]
    refine stops_text ?_ _
    rw [jumpText.eq_def, String.toList_append, List.head?_append]
    cases kind <;> rfl
  | expression start value => exact absurd rfl (hexpression start value)
  | declaration start d =>
    rw [(statement_declaration_ok.1 h).2, registrationUnless, if_neg (by decide),
      registration_functionBody]
    have hplain : variableStatement .functionBody d = write (declaration d) ++ endStatement := by
      simp [variableStatement, redirects, ScopeMode.redirectsVar, ScopeMode.redirectsLexical]
    rw [hplain]
    refine stops_text ?_ _
    cases d.kind <;> decide
  | function start callable =>
    obtain ⟨-, name, -, body, -, rfl⟩ := statement_function_ok.1 h
    have hword : ∀ isGenerator : Bool,
        (if isGenerator then "function*" else "function").toList.head?.any
          (fun c => !isGap c && !isQuote c) = true := by decide
    rw [if_neg (by decide)]
    obtain ⟨isAsync, isGenerator, _, _, _, _⟩ := callable
    cases isAsync
    · exact stops_text (hword isGenerator) _
    · exact stops_text (by decide) _
  | classDeclaration start definition =>
    obtain ⟨-, h⟩ := statement_classDeclaration_ok.1 h
    rw [if_neg (by decide)] at h
    obtain ⟨inner, hinner, rfl⟩ := h
    obtain ⟨-, members, -, rfl⟩ := classDefinition_ok.1 hinner
    obtain ⟨_, values, _, _, _⟩ := definition
    cases values <;> exact stops_text (by decide) _
  | idle => cases hsilent
  | moduleItem => cases hsilent

/-- What statements in a function begin with. -/
theorem statements_begin (hname : NameStarts filling) {body : List Statement}
    (h : statements .functionBody depth body = .ok t) (hshown : ∀ s ∈ body, s.Shown source)
    (hparts : ∀ part ∈ listParts true body, part.Nested (byteSize source) source ∧
      part.span.start < part.span.stop) :
    Continues filling source (promoted source body) t ∨
      Stops filling source (promoted source body) t := by
  induction body generalizing t with
  | nil =>
    rw [statements, ok_eq_ok] at h
    rw [h]
    exact .inl continues_nil
  | cons s rest ih =>
    obtain ⟨first, hfirst, others, hothers, rfl⟩ := statements_cons_ok.1 h
    obtain ⟨hs, hrest⟩ := List.forall_mem_cons.1 hshown
    rw [listParts, List.forall_mem_append] at hparts
    obtain ⟨hsparts, hparts⟩ := hparts
    have hothers := ih hothers hrest hparts
    rw [promoted]
    split
    · next hsilent =>
      rw [statement_eq_nil_of_isSilent s hfirst hsilent]
      exact hothers
    next hsilent =>
    by_cases hexpression : ∃ start value, s = .expression start value
    · obtain ⟨start, value, rfl⟩ := hexpression
      obtain ⟨-, rfl⟩ := statement_expression_ok.1 hfirst
      obtain ⟨hnested, hlt⟩ := hsparts (.expression value) List.mem_cons_self
      obtain ⟨hliteral, htext, -⟩ | ⟨hliteral, htext⟩ :=
        literal?_expression hname hnested hlt hs start
      · rw [hliteral]
        exact hothers.imp (continues_literal htext).append (continues_literal htext).stops
      · rw [hliteral]
        exact .inr ((stops_other htext).append others)
    · have hother (start : Nat) (value : Expression) : s ≠ .expression start value :=
        fun h => hexpression ⟨start, value, h⟩
      have hliteral : s.literal? source = none := by
        cases s with
        | expression start value => exact absurd rfl (hother start value)
        | _ => rfl
      rw [hliteral]
      exact .inr ((stops_statement hfirst (by simpa using hsilent) hs hother).append others)

theorem continues_directives {directives : List Span}
    (h : ∀ span ∈ directives, IsLiteral (span.slice source)) :
    Continues filling source (directives.map (·.slice source)) (directives.flatMap directive) := by
  induction directives with
  | nil => exact continues_nil
  | cons span directives ih =>
    obtain ⟨hspan, hdirectives⟩ := List.forall_mem_cons.1 h
    have htext : textOf filling source [Piece.copy span] = span.slice source := by
      simp [textOf, Piece.fill]
    have hfirst : Continues filling source [textOf filling source [Piece.copy span]]
        (write [Piece.copy span] ++ endStatement) := continues_literal (htext ▸ hspan)
    rw [htext] at hfirst
    exact hfirst.append (ih hdirectives)

end Code

namespace Template

theorem layOut_freshLine_dedent (filling : Filling) (source : List Char) (state : State) :
    ∃ blanks : List Char, (∀ c ∈ blanks, isGap c = true) ∧
      (layOut filling source state [Step.freshLine, .dedent]).text.toList =
        state.text.toList ++ blanks := by
  simp only [layOut, List.flatMap_cons, List.flatMap_nil, Step.fill, List.append_nil,
    List.cons_append, List.nil_append, List.foldl_cons, List.foldl_nil, State.run]
  split
  · exact ⟨[], List.forall_mem_nil _, (List.append_nil _).symm⟩
  · exact ⟨['\n'], List.forall_mem_singleton.2 (by decide), String.toList_append⟩

/-- What a reader finds in a template before a closing brace. -/
theorem begins_before_brace {filling : Filling} {source : List Char} {found : List (List Char)}
    {t : Template} (h : Continues filling source found t ∨ Stops filling source found t)
    (state : State) (hstate : state.atLineStart = true) :
    ∃ out, (t.layOut filling source state).text.toList = state.text.toList ++ out ∧
      ∀ blanks more, (∀ c ∈ blanks, isGap c = true) →
        prologue (out ++ (blanks ++ '\x7d' :: more)) = found := by
  obtain h | h := h
  · obtain ⟨-, out, htext, hfound⟩ := h state hstate
    refine ⟨out, htext, fun blanks more hblanks => ?_⟩
    rw [hfound, prologue_gaps hblanks, prologue_other (by decide) (by decide), List.append_nil]
  · obtain ⟨out, htext, hfound⟩ := h state hstate
    exact ⟨out, htext, fun _ _ _ => hfound _⟩

/-- What a reader finds between the braces around a template. -/
theorem layOut_braced {filling : Filling} {source : List Char} {found : List (List Char)}
    {t : Template} (h : Continues filling source found t ∨ Stops filling source found t)
    (state : State) :
    ∃ blanks inner : List Char, (∀ c ∈ blanks, isGap c = true) ∧
      ((braced t).layOut filling source state).text.toList =
        state.text.toList ++ (blanks ++ '\x7b' :: (inner ++ ['\x7d'])) ∧
      ∀ more, prologue (inner ++ '\x7d' :: more) = found := by
  have hsplit : braced t = write [Piece.text "\x7b"] ++ ([Step.newline, .indent] ++
      (t ++ ([Step.freshLine, .dedent] ++ write [Piece.text "\x7d"]))) := by
    simp [braced, write]
  have hline (s : State) : layOut filling source s [Step.newline, .indent] =
      ⟨s.text ++ "\n", s.level + 1, true⟩ := rfl
  have htext (mark : String) : Code.textOf filling source [Piece.text mark] = mark.toList :=
    List.flatMap_singleton _ _
  rw [hsplit, layOut_append, layOut_append, layOut_append, layOut_append, hline]
  obtain ⟨before, hbefore, hopen⟩ :=
    layOut_fragment filling source state [Piece.text "\x7b"]
  generalize layOut filling source state (write [Piece.text "\x7b"]) = opened at hopen ⊢
  obtain ⟨out, hout, hfound⟩ :=
    begins_before_brace h ⟨opened.text ++ "\n", opened.level + 1, true⟩ rfl
  generalize layOut filling source ⟨opened.text ++ "\n", opened.level + 1, true⟩ t = filled
    at hout ⊢
  obtain ⟨fresh, hfresh, hclosed⟩ := layOut_freshLine_dedent filling source filled
  generalize layOut filling source filled [Step.freshLine, .dedent] = closed at hclosed ⊢
  obtain ⟨last, hlast, hend⟩ :=
    layOut_fragment filling source closed [Piece.text "\x7d"]
  refine ⟨before, '\n' :: (out ++ (fresh ++ last)), hbefore, ?_, fun more => ?_⟩
  · rw [hend, hclosed, hout, String.toList_append, hopen, htext, htext]
    simp
  · have hbreak : ∀ c ∈ ['\n'], isGap c = true := List.forall_mem_singleton.2 (by decide)
    have hgaps := hfound (fresh ++ last) more (List.forall_mem_append.2 ⟨hfresh, hlast⟩)
    rw [← prologue_gaps hbreak] at hgaps
    simpa using hgaps

end Template

/-! ## Bodies -/

theorem nameStarts_of_isBindingName {options : Options}
    (h : isBindingName options.moduleBinding = true) : Code.NameStarts options.filling := by
  have hname := (Bool.and_eq_true_iff.1 h).1
  unfold Unicode.isIdentifierName at hname
  split at hname
  · cases hname
  · next c cs hcs => exact ⟨c, cs, hcs, (Bool.and_eq_true_iff.1 hname).1⟩

section Bodies

variable {options : Options} {source : List Char} {p : Program} {b : Body} {depth : Nat}
variable {t : Template}

/-- The parts of the statements of a body are stretches from a token to a token. -/
theorem parts_of_body (hp : Program.parse source = .ok p) (hb : Node.body b ∈ p.nodes) :
    ∀ part ∈ listParts true b.statements,
      part.Nested (byteSize source) source ∧ part.span.start < part.span.stop := by
  intro part hpart
  have hmem : part ∈ listParts true p.statements := by
    refine (Node.parts_sublist_list p.statements hb).subset ?_
    cases b
    exact List.mem_append_right _ hpart
  have hall : part ∈ p.directives.map Part.verbatim ++ listParts true p.statements :=
    List.mem_append_right _ hmem
  obtain ⟨stop, hordered⟩ := Program.parse_ordered hp
  exact ⟨Program.parse_nested hp part hall,
    (hordered.between_of_mem _ (List.mem_map_of_mem hall)).2.1⟩

/-- The body of a function begins with its directives and with what is promoted. -/
theorem functionBody_begins (hvalid : options.validate = .ok ())
    (hp : Program.parse source = .ok p) (hb : Node.body b ∈ p.nodes)
    (ht : Code.functionBody depth b = .ok t) (state : State) :
    ∃ blanks inner : List Char, (∀ c ∈ blanks, isGap c = true) ∧
      (t.layOut options.filling source state).text.toList =
        state.text.toList ++ (blanks ++ '\x7b' :: (inner ++ ['\x7d'])) ∧
      ∀ more, prologue (inner ++ '\x7d' :: more) =
        b.directives.map (·.slice source) ++ promoted source b.statements := by
  have hname := nameStarts_of_isBindingName (Options.validate_ok.1 hvalid).2.2
  have hplaced : b.Placed source := Program.parse_placed hp _ hb
  have hparts := parts_of_body hp hb
  obtain ⟨-, inner, hinner, rfl⟩ := Code.functionBody_ok.1 ht
  have hliterals : ∀ span ∈ b.directives, IsLiteral (span.slice source) := by
    intro span hspan
    obtain ⟨l, hl, hstring, rfl⟩ := hplaced.directives span hspan
    obtain ⟨read, hread, hhere, hstop⟩ := hl.literal hstring
    rwa [hl.slice_span hhere hstop]
  have hdirectives : Template.Continues options.filling source _ _ :=
    Code.continues_directives hliterals
  refine Template.layOut_braced ?_ state
  exact (Code.statements_begin hname hinner hplaced.statements hparts).imp hdirectives.append
    hdirectives.stops

/-- Nothing is promoted exactly if no string literal stands alone past silent statements. -/
theorem promoted_eq_nil_iff (hvalid : options.validate = .ok ())
    (hp : Program.parse source = .ok p) (hb : Node.body b ∈ p.nodes) :
    promoted source b.statements = [] ↔ ¬ Promotes source b.statements := by
  have hname := nameStarts_of_isBindingName (Options.validate_ok.1 hvalid).2.2
  have hplaced : b.Placed source := Program.parse_placed hp _ hb
  have hparts := parts_of_body hp hb
  -- A string literal that comes first is a directive.
  have hfirst : ∀ s ∈ b.statements.head?, s.literal? source = none := by
    intro s hs
    have hmem := List.mem_of_mem_head? hs
    cases s with
    | expression start value =>
      have hpart : Part.expression value ∈ listParts true b.statements := by
        rw [listParts_eq]
        exact List.mem_flatMap.2 ⟨_, hmem, List.mem_cons_self⟩
      obtain ⟨hnested, hlt⟩ := hparts _ hpart
      obtain ⟨-, -, hlone⟩ | ⟨hliteral, -⟩ :=
        literal?_expression hname hnested hlt (hplaced.statements _ hmem) start
      · exact absurd hlone (hplaced.first _ hs)
      · exact hliteral
    | _ => rfl
  rw [← not_iff_not, not_not, ← ne_eq, promoted_ne_nil_iff]
  constructor
  · rintro ⟨silent, s, rest, heq, hall, hlone⟩
    refine ⟨silent, s, rest, heq, ?_, hall, hlone⟩
    rintro rfl
    rw [hfirst s (by rw [heq]; rfl)] at hlone
    cases hlone
  · rintro ⟨silent, s, rest, heq, -, hall, hlone⟩
    exact ⟨silent, s, rest, heq, hall, hlone⟩

end Bodies

/-- What stands at the head of the body of a function, if code is written for it: its directives,
and what is promoted. -/
def Snippet.Node.head? (source : List Char) : Node → Option (List (List Char) × List (List Char))
  | .body b =>
    if (Code.functionBody 1 b).toOption.isSome then
      some (b.directives.map (·.slice source), promoted source b.statements)
    else none
  | _ => none

theorem exists_body_of_head? (source : List Char)
    (heads : List (List (List Char) × List (List Char)))
    (h : (parse source).toOption.map (·.nodes.filterMap (Node.head? source)) = some heads) :
    ∃ p, parse source = .ok p ∧ ∀ head ∈ heads, ∃ b t, Node.body b ∈ p.nodes ∧
      Code.functionBody 1 b = .ok t ∧ b.directives.map (·.slice source) = head.1 ∧
        promoted source b.statements = head.2 := by
  cases hp : parse source with
  | error e =>
    rw [hp] at h
    cases h
  | ok p =>
    rw [hp] at h
    obtain rfl := Option.some.inj h
    refine ⟨p, rfl, fun head hhead => ?_⟩
    obtain ⟨node, hnode, hhead⟩ := List.mem_filterMap.1 hhead
    cases node with
    | body b =>
      rw [Node.head?] at hhead
      split at hhead
      · next hsome =>
        obtain ⟨t, ht⟩ := Option.isSome_iff_exists.1 hsome
        cases hhead
        exact ⟨b, t, hnode, Code.eq_ok_of_toOption ht, rfl, rfl⟩
      · cases hhead
    | statement | callable | definition | member => cases hhead

/-- **Directives of functions are kept, and string literals past silent statements become ones.**
What a reader finds at the head of the code between the braces of a function are the directives in
the source, as they are spelled and in order, and then the string literals that stand alone in the
source past statements for which nothing is written.  So it is just the directives exactly if no
string literal stands alone behind such statements at the head of the body. -/
theorem function_body_prologue {options : Options} (hvalid : options.validate = .ok ())
    {source : List Char} {p : Program} (hp : parse source = .ok p) {b : Body}
    (hb : Node.body b ∈ p.nodes) {depth : Nat} {t : Template}
    (ht : Code.functionBody depth b = .ok t) (state : State) :
    ∃ blanks inner : List Char, (∀ c ∈ blanks, isGap c = true) ∧
      (t.layOut options.filling source state).text.toList =
        state.text.toList ++ (blanks ++ '\x7b' :: (inner ++ ['\x7d'])) ∧
      ∀ more, prologue (inner ++ '\x7d' :: more) =
          b.directives.map (·.slice source) ++ promoted source b.statements ∧
        (prologue (inner ++ '\x7d' :: more) = b.directives.map (·.slice source) ↔
          ¬ Promotes source b.statements) := by
  have hp := parse_eq_ok.1 hp
  obtain ⟨blanks, inner, hblanks, htext, hfound⟩ := functionBody_begins hvalid hp hb ht state
  refine ⟨blanks, inner, hblanks, htext, fun more => ⟨hfound more, ?_⟩⟩
  rw [hfound, List.append_right_eq_self, promoted_eq_nil_iff hvalid hp hb]

/-- A directive, with an empty statement behind it. -/
theorem directive_before_empty_statement :
    let source := "function f() \x7b 'use strict'; ; return 1; \x7d".toList
    Options.validate {} = .ok () ∧ ∃ p b t, parse source = .ok p ∧ Node.body b ∈ p.nodes ∧
      Code.functionBody 1 b = .ok t ∧
      ∃ blanks inner : List Char, (t.layOut ({} : Options).filling source {}).text.toList =
          blanks ++ '\x7b' :: (inner ++ ['\x7d']) ∧
        prologue (inner ++ ['\x7d']) = ["'use strict'".toList] := by
  intro source
  have hvalid : Options.validate {} = .ok () := Code.eq_ok_of_toOption (by decide +kernel)
  obtain ⟨p, hp, hbodies⟩ :=
    exists_body_of_head? source [(["'use strict'".toList], [])] (by decide +kernel)
  obtain ⟨b, t, hb, ht, hdirectives, hpromoted⟩ := hbodies _ List.mem_cons_self
  obtain ⟨blanks, inner, -, htext, hfound⟩ := function_body_prologue hvalid hp hb ht {}
  have hprologue := (hfound []).1
  rw [hdirectives, hpromoted] at hprologue
  exact ⟨hvalid, p, b, t, hp, hb, ht, blanks, inner, htext, hprologue⟩

/-- A string literal that stands alone past an empty statement becomes a directive, as the empty
statement is not written. -/
theorem literal_past_empty_statement_becomes_directive :
    (rebind {} "function f() \x7b ; \"use strict\"; \x7d").toOption =
        some { code := "window[\"f\"] = function () \x7b\n    \"use strict\";\n\x7d;\n"
               bindings := { global := ["f"] } } ∧
      ¬ ∀ (options : Options) (source : List Char) (p : Program) (b : Body) (depth : Nat)
        (t : Template) (state : State) (blanks inner more : List Char),
        options.validate = .ok () → parse source = .ok p → Node.body b ∈ p.nodes →
          Code.functionBody depth b = .ok t → (∀ c ∈ blanks, isGap c = true) →
            (t.layOut options.filling source state).text.toList =
              state.text.toList ++ (blanks ++ '\x7b' :: (inner ++ ['\x7d'])) →
              prologue (inner ++ '\x7d' :: more) = b.directives.map (·.slice source) := by
  refine ⟨by decide +kernel, fun h => ?_⟩
  have hvalid : Options.validate {} = .ok () := Code.eq_ok_of_toOption (by decide +kernel)
  obtain ⟨p, hp, hbodies⟩ :=
    exists_body_of_head? "function f() \x7b ; \"use strict\"; \x7d".toList
      [([], ["\"use strict\"".toList])] (by decide +kernel)
  obtain ⟨b, t, hb, ht, hdirectives, hpromoted⟩ := hbodies _ List.mem_cons_self
  obtain ⟨blanks, inner, hblanks, htext, hfound⟩ :=
    functionBody_begins hvalid (parse_eq_ok.1 hp) hb ht {}
  have hnone := h {} _ p b 1 t {} blanks inner [] hvalid hp hb ht hblanks htext
  rw [hfound, hdirectives, hpromoted] at hnone
  cases hnone

end Rebind
