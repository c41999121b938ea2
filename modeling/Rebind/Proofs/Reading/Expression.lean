import Rebind.Grammar.Expression
import Rebind.Proofs.Reading.Definition

/-!
# What expressions read

Every production for an expression answers with a term whose span lies between the states before
and after it.  A term that goes on, by a call or an operator, keeps the start of its first operand
and stops at the last token read (`ReadsTerm.extend`).
-/

namespace Rebind.Grammar

open Rebind.Text (Span)
open Rebind.Snippet
open Rebind.Grammar.Parser

/-! ## Terms -/

namespace ReadsTerm

variable {s s' s'' : State} {t : Term} {part : Part} {xs : List Part} {shape : Shape}

/-- A term of all that is read. -/
theorem cover (h : Reads s (part :: xs) s') (hgo : s.GoesOn)
    (hshape : ∀ name, shape ≠ .name name) :
    ReadsTerm s (.plain ⟨s.lexeme.start, s'.lastStop⟩ shape) s' where
  toReads := h.cover
  whole := rfl
  placed _ := h.holds
  place_eq := .inl rfl
  named name h := absurd h (hshape name)
  goesOn := .inl hgo

/-- A term of one token. -/
theorem token (h : Reads s [(s.here : Part)] s' ∧ s'.lastStop = s.lexeme.stop)
    (hshape : ∀ name, shape = .name name → ∃ isEscaped, s.lexeme.token = .word name isEscaped) :
    ReadsTerm s (.plain s.here shape) s' := by
  obtain ⟨h, hstop⟩ := h
  rw [State.here, ← hstop]
  exact ⟨h.cover, rfl, fun _ => h.holds, .inl rfl, hshape, .inr hstop⟩

/-- A literal that may be a pattern. -/
theorem literal (h : Reads s (part :: xs) s') (hgo : s.GoesOn) (view : PatternView) :
    ReadsTerm s (view.term ⟨s.lexeme.start, s'.lastStop⟩) s' where
  toReads := h.cover
  whole := rfl
  placed _ := h.holds
  place_eq := .inl rfl
  named := nofun
  goesOn := .inl hgo

/-- A term that goes on past another one. -/
theorem extend (h : ReadsTerm s t s') (hxs : Reads s' xs s'')
    (hmark : isMark s'.lexeme.token ";" = false)
    (hshape : ∀ name, shape ≠ .name name) :
    ReadsTerm s (.plain ⟨t.span.start, s''.lastStop⟩ shape) s'' := by
  have hstart : t.span.start = s.lexeme.start := by rw [h.whole]
  rw [hstart]
  exact cover (h.toReads.before hxs) (h.toReads.goesOn h.goesOn hmark) hshape

end ReadsTerm

variable {g : Productions} {ctx : Context} {s : State}

/-! ## Lists of values -/

theorem sequence_reads (hg : g.Sound) (hs : s.Sound) :
    (sequence g ctx).Ensures s fun t s' => ReadsTerm s t s' := by
  simp only [sequence, ensures_bind, ensures_atMark, ensures_ite, ensures_value, ensures_pure]
  refine (hg.assignment ctx hs).of fun first s1 h1 => ?_
  split
  · next hcomma =>
    intro _
    have hstop : first.span.stop = s1.lastStop := by rw [h1.whole]
    refine ensures_repeatFrom (fun stop s' => stop = s'.lastStop ∧ Reads s1 [] s')
      ⟨hstop, .refl h1.sound⟩ fun stop s2 h2 => ?_
    obtain ⟨rfl, h2⟩ := h2
    simp only [ensures_bind, ensures_eatMark, ensures_value, ensures_ite, ensures_pure, ↓reduceIte,
      Bool.false_eq_true, Sum.elim_inl, Sum.elim_inr]
    split
    · next hmark =>
      refine (advance_mark h2.sound hmark).of fun _ s3 h3 => ?_
      refine (hg.assignment _ h3.sound).of fun next s4 h4 _ => ?_
      have hnext : next.span.stop = s4.lastStop := by rw [h4.whole]
      exact ⟨hnext, (h2.trans h3).before h4.toReads⟩
    · exact h1.extend h2 (isMark_of_isMark hcomma (by decide)) (by simp)
  · exact h1

/-- An item is read between two states.  Around its term no host form is met. -/
structure ReadsItem (s : State) (i : Item) (s' : State) : Prop where
  moved : Reads s [] s'
  placed : i.term.targetObstacle = none → Holds s i.term.place s'

theorem item_reads (hg : g.Sound) (hs : s.Sound) :
    (item g ctx).Ensures s fun i s' => ReadsItem s i s' := by
  simp only [item, ensures_bind, ensures_current, ensures_eatMark, ensures_ite, ensures_pure,
    ↓reduceIte, Bool.false_eq_true]
  split
  · next hmark =>
    refine ((advance_mark hs hmark).and advance_hosts).of fun _ s1 h1 => ?_
    obtain ⟨h1, hpoints⟩ := h1
    refine (hg.assignment _ h1.sound).of fun t s2 h2 => ⟨h1.before h2.toReads, fun hplace => ?_⟩
    exact (h2.placed hplace).within h1 hpoints (.refl h2.sound) rfl
  · exact (hg.assignment _ hs).of fun t s1 h1 =>
      ⟨h1.toReads.sublist (List.nil_sublist _), h1.placed⟩

/-- A group is all that is read between two states.  Its item, if it is the only one, holds all host
forms in the group. -/
structure ReadsGroup (s : State) (r : Group) (s' : State) : Prop extends Reads s [r.span] s' where
  opens : isMark s.lexeme.token "(" = true
  whole : r.span = ⟨s.lexeme.start, s'.lastStop⟩
  placed : ∀ i, r.items = [i] → i.term.targetObstacle = none → Holds s i.term.place s'

theorem group_reads (hg : g.Sound) (hs : s.Sound) :
    (group g ctx).Ensures s fun r s' => ReadsGroup s r s' := by
  simp only [group, ensures_bind, ensures_position, ensures_spanFrom, ensures_pure]
  refine (((expectMark_reads hs).and expectMark_hosts).and expectMark_at).of fun _ s1 h1 => ?_
  obtain ⟨⟨h1, hopen⟩, hmark⟩ := h1
  have hitem {s : State} (hs : s.Sound) : (item g ctx).Ensures s fun _ s' => Reads s [] s' :=
    (item_reads hg hs).of fun _ _ h => h.moved
  refine ((separated_moves hitem h1.sound).and
    (separated_single (item_reads hg h1.sound) fun h => h.moved.sound)).of fun r s2 h2 => ?_
  obtain ⟨h2, hsingle⟩ := h2
  refine ((expectMark_reads h2.sound).and expectMark_hosts).of fun _ s3 h3 => ?_
  obtain ⟨h3, hclose⟩ := h3
  refine ⟨((h1.trans h2).trans h3).cover, hmark, rfl, fun i hi hplace => ?_⟩
  obtain ⟨s', hitem, hend, hhosts⟩ := hsingle i hi
  exact (hitem.placed hplace).within h1 hopen (hend.trans h3) (hclose.trans hhosts)

theorem checkArguments_ensures {r : Group} :
    r.checkArguments.Ensures s fun _ s' => s' = s := by
  refine ensures_forM (· = s) rfl fun i s1 h1 => ?_
  simp only [ensures_bind, ensures_value, ensures_pure]
  exact fun _ => h1

theorem arguments_reads (hg : g.Sound) (hs : s.Sound) :
    (arguments g ctx).Ensures s fun _ s' => Reads s [] s' := by
  simp only [arguments, ensures_bind]
  refine (group_reads hg hs).of fun r s1 h1 => ?_
  refine checkArguments_ensures.of fun _ s2 h2 => ?_
  rw [h2]
  exact h1.toReads.sublist (List.nil_sublist _)

theorem groupTerm_reads {r : Group} {s1 : State} (h1 : ReadsGroup s r s1) :
    r.term.Ensures s1 fun t s' => ReadsTerm s t s' := by
  simp only [Group.term, ensures_bind]
  refine (ensures_forIn (· = s1) rfl fun i s2 h2 => ?_).of fun _ s2 h2 => ?_
  · split
    · simp only [ensures_bind, ensures_fail]
    · exact ensures_pure.2 h2
  subst h2
  refine checkArguments_ensures.of fun _ s3 h3 => ?_
  subst h3
  have hgo : s.GoesOn := State.goesOn_of_isMark h1.opens
  split
  · simp only [ensures_bind, ensures_fail]
  split
  · exact ensures_fail.2 trivial
  · next i hitems =>
    have hshape (name : String) :
        (if i.term.isPlace = true then Shape.enclosedPlace else .value) ≠ .name name := by
      split <;> simp
    refine ensures_pure.2 ⟨h1.toReads, h1.whole, ?_, .inr h1.opens,
      fun name hname => absurd hname (hshape name), .inl hgo⟩
    clear hshape
    have hplaced := h1.placed i hitems
    -- The parentheses keep a single place, and only that.
    obtain ⟨spread, span, shape, place, pending⟩ := i
    cases shape with
    | name | member | enclosedPlace => exact fun _ => hplaced rfl
    | _ =>
      intro hplace
      cases hplace
  · refine ensures_pure.2 ⟨h1.toReads, h1.whole, fun hplace => ?_, .inr h1.opens, by simp, .inl hgo⟩
    cases hplace

/-! ## Literals -/

theorem arrayLiteral_reads (hg : g.Sound) (hs : s.Sound) :
    (arrayLiteral g ctx).Ensures s fun t s' => ReadsTerm s t s' := by
  simp only [arrayLiteral, ensures_bind, ensures_position, ensures_spanFrom, ensures_pure]
  refine ((expectMark_reads hs).and expectMark_at).of fun _ s1 h1 => ?_
  obtain ⟨h1, hmark⟩ := h1
  have hitem {s : State} (hs : s.Sound) :
      Ensures (atMark "," >>= fun isHole =>
        if isHole then pure none else return some (← item g ctx)) s fun _ s' => Reads s [] s' := by
    simp only [ensures_bind, ensures_atMark, ensures_ite, ensures_pure]
    split
    · exact .refl hs
    · exact (item_reads hg hs).of fun i s1 h1 => h1.moved
  refine (separated_moves hitem h1.sound).of fun r s2 h2 => ?_
  refine (expectMark_reads h2.sound).of fun _ s3 h3 => ?_
  exact .literal ((h1.trans h2).trans h3) (State.goesOn_of_isMark hmark) _

theorem memberModifiers_reads (hs : s.Sound) :
    memberModifiers.Ensures s fun _ s' => Reads s [] s' := by
  simp only [memberModifiers, ensures_bind, ensures_current, ensures_eatMark, ensures_ite,
    ensures_pure, ↓reduceIte, Bool.false_eq_true]
  split
  · next hmark => exact advance_mark hs hmark
  split
  · next haccessor =>
    simp only [ensures_bind, ensures_peek, ensures_ite, ensures_pure]
    intro l _
    split
    · refine advance_reads hs fun hend => ?_
      simp [hend, isKeyword] at haccessor
    · exact .refl hs
  · simp only [ensures_bind, ensures_peek, ensures_ite, ensures_pure]
    split
    · next hasync =>
      intro l _
      split
      · refine (advance_keyword hs hasync).of fun _ s1 h1 => ?_
        exact (eatMark_reads h1.sound).of fun _ s2 h2 => h1.trans h2
      · exact .refl hs
    · exact .refl hs

theorem objectMember_reads (hg : g.Sound) (hs : s.Sound) :
    (objectMember g ctx).Ensures s fun _ s' => Reads s [] s' := by
  have hvalue {s1 : State} (h1 : Reads s [] s1) {mark : String}
      (hmark : isMark s1.lexeme.token mark = true) {ctx : Context} :
      advance.Ensures s1 fun _ s2 => (g.assignment ctx).Ensures s2 fun _ s3 => Reads s [] s3 := by
    refine (advance_mark h1.sound hmark).of fun _ s2 h2 => ?_
    exact (hg.assignment _ h2.sound).of fun t s3 h3 =>
      h3.toReads.sublist (List.nil_sublist _) |>.after (h1.trans h2)
  simp only [objectMember, ensures_bind, ensures_position, ensures_spanFrom, ensures_current,
    ensures_atMark, ensures_eatMark, ensures_ite, ensures_unexpected, ensures_pure, ↓reduceIte,
    Bool.false_eq_true]
  split
  · next hmark => exact hvalue (.refl hs) hmark
  refine (memberModifiers_reads hs).of fun modifiers s1 h1 => ?_
  refine (key_reads hg h1.sound).of fun name s2 h2 => ?_
  have h12 : Reads s [] s2 := h1.before h2
  split
  · split
    · exact (method_reads hg h2.sound).of fun c s3 h3 => h12.before h3.1
    · trivial
  split
  · next hmark => exact hvalue h12 hmark
  split
  · simp only [ensures_ite, ensures_bind, ensures_eatMark, ensures_fail, ensures_spanFrom,
      ensures_value, ensures_pure, ↓reduceIte, Bool.false_eq_true]
    split
    · split
      · next hmark => exact (hvalue h12 hmark).of fun _ s3 h3 => h3.of fun _ s4 h4 _ => h4
      · exact h12
    · trivial
  · simp only [ensures_ite, ensures_bind, ensures_atMark, ensures_unexpected, ensures_missing,
      ite_self]

theorem objectLiteral_reads (hg : g.Sound) (hs : s.Sound) :
    (objectLiteral g ctx).Ensures s fun t s' => ReadsTerm s t s' := by
  simp only [objectLiteral, ensures_bind, ensures_position, ensures_spanFrom, ensures_pure]
  refine ((expectMark_reads hs).and expectMark_at).of fun _ s1 h1 => ?_
  obtain ⟨h1, hmark⟩ := h1
  refine (separated_moves (objectMember_reads hg) h1.sound).of fun r s2 h2 => ?_
  refine (expectMark_reads h2.sound).of fun _ s3 h3 => ?_
  exact .literal ((h1.trans h2).trans h3) (State.goesOn_of_isMark hmark) _

/-! ## Templates and host forms -/

/-- Another reading of the current token starts where it does. -/
theorem reread_reads {scan : Lexeme → Except LocatedFault Lexeme}
    (hscan : ∀ {next}, scan s.lexeme = .ok next → s.lexeme.Rereads s.limit next)
    (hopen : s.lexeme.token.isOpen = true) (hs : s.Sound) :
    (reread scan).Ensures s fun _ s' => Reads s [] s' ∧ s'.lexeme.start = s.lexeme.start ∧
      s'.lexeme.token ≠ .endOfInput := by
  simp only [reread, ensures_bind, ensures_get, ensures_liftM, ensures_set]
  intro next hnext
  have hnext := hscan hnext
  have hstart := hnext.start_eq
  have hread : Reads s [] { s with lexeme := next } :=
    { Reads.refl hs with
      sound := ⟨hnext.stands, Nat.le_trans hs.stop_le (Nat.le_of_eq hstart.symm)⟩
      start_le := Nat.le_of_eq hstart.symm
      suffix := hnext.here_eq ▸ List.suffix_rfl
      scanned := fun _ => hnext.scanned
      steps := {
        moved := .inl ⟨rfl, hstart, .inr ⟨hopen, hnext.isFixed_eq⟩⟩
        first hfixed := absurd hfixed (by simp [Token.isFixed_of_isOpen hopen])
        hosts hstring := absurd hstring.isFixed (by simp [Token.isFixed_of_isOpen hopen]) } }
  exact ⟨hread, hstart, hnext.ne_endOfInput⟩

theorem template_reads (hg : g.Sound) {isTagged : Bool} (hs : s.Sound) :
    (template g ctx isTagged).Ensures s fun _ s' =>
      Reads s [(⟨s.lexeme.start, s'.lastStop⟩ : Span)] s' := by
  refine ensures_repeatFrom (fun _ s' => Reads s [] s') (.refl hs) fun _ s1 h1 => ?_
  simp only [ensures_bind, ensures_current]
  split
  · next heq =>
    simp only [ensures_bind, ensures_ite, ensures_value, ensures_atMark, ensures_missing,
      ensures_fail, ensures_pure, Sum.elim_inl, Sum.elim_inr]
    split
    · refine (advance_here h1.sound (by simp [heq])).of fun _ s2 h2 => ?_
      split
      · exact (h1.trans h2).cover
      · refine (sequence_reads hg h2.sound).of fun t s3 h3 _ => ?_
        split
        · next hmark =>
          have hbrace := h3.sound.lexeme.takes.mark (beq_iff_eq.1 hmark)
          have hopen : s3.lexeme.token.isOpen = true := by rw [beq_iff_eq.1 hmark]; rfl
          refine (reread_reads (Lexeme.scanTemplatePart_stands h3.sound.lexeme hbrace) hopen
            h3.sound).of fun _ s4 h4 => ?_
          exact h4.1.after ((h1.trans h2).trans h3.toReads)
        · trivial
    · trivial
  · exact ensures_unexpected.2 trivial

/-- The word `meta` stands behind a point past the current token. -/
def State.BeforeMeta (s : State) : Prop :=
  ∃ point word, Lexeme.scan s.lexeme.stop s.lexeme.rest = .ok point ∧
    isMark point.token "." = true ∧ Lexeme.scan point.stop point.rest = .ok word ∧
    isKeyword word.token "meta" = true

/-- A term is one host form, which is recorded in place of those in it. -/
structure ReadsHost (s : State) (t : Term) (s' : State) : Prop extends ReadsTerm s t s' where
  recorded : ∃ host, s'.hosts = host :: s.hosts ∧ host.span = t.span ∧
    ((∃ span, host = .metadata span) ↔ s.BeforeMeta)

theorem recordHost_reads {host : HostForm} {s1 : State} {part : Part} {xs : List Part}
    (h1 : Reads s (part :: xs) s1) (hspan : host.span = ⟨s.lexeme.start, s1.lastStop⟩)
    (hnested : host.Nested s.limit s.lexeme.here) (hproper : AllProper s.hosts → host.Proper)
    (hstring : ¬ s.AtString)
    (hkind : (∃ span, host = .metadata span) ↔ s.BeforeMeta) :
    (recordHost s.hosts.length host).Ensures s1 fun _ s' =>
      ReadsHost s (.plain ⟨s.lexeme.start, s1.lastStop⟩) s' := by
  refine ensures_modify.2 ?_
  obtain ⟨hosts, heq, -⟩ := h1.hosts
  have hlt := h1.start_lt_stop
  have hdrop : s1.hosts.drop (s1.hosts.length - s.hosts.length) = s.hosts := by
    rw [heq, List.length_append, Nat.add_sub_cancel, List.drop_left]
  rw [hdrop]
  have hhost : HostsBetween s.limit s.lexeme.here s.lexeme.start s1.lastStop [host] := by
    refine ⟨?_, hnested, trivial⟩
    rw [List.map_singleton, hspan]
    exact ⟨Nat.le_refl _, hlt, Nat.le_refl _, trivial⟩
  have hread : Reads s (part :: xs) { s1 with hosts := host :: s.hosts } :=
    { h1 with
      sound := ⟨h1.sound.lexeme, h1.sound.stop_le⟩
      hosts := ⟨[host], rfl, hhost⟩
      proper := fun hs => ⟨⟨hproper hs, hs⟩, (h1.proper hs).2⟩
      steps := h1.steps.congr rfl rfl fun h => absurd h hstring }
  exact ⟨.cover hread (fun h => absurd h hstring) (by simp), host, rfl, hspan, hkind⟩

/-- A dynamic import whose first words are read already. -/
theorem dynamicImport_reads (hg : g.Sound) {s1 : State} {part : Part} {xs : List Part}
    (h1 : Reads s (part :: xs) s1) (hwords : s1.hosts = s.hosts) (hstring : ¬ s.AtString)
    (hkind : ¬ s.BeforeMeta) :
    (dynamicImport g ctx s.lexeme.start).Ensures s1 fun t s' => ReadsHost s t s' := by
  have hend {s2 : State} {e : Expression} (h2 : Reads s (part :: xs ++ [.expression e]) s2) :
      Ensures (expectMark ")") s2 fun _ s3 =>
        (recordHost s.hosts.length (.load ⟨s.lexeme.start, s3.lastStop⟩ e.span e.hosts)).Ensures s3
          fun _ s4 => ReadsHost s (.plain ⟨s.lexeme.start, s3.lastStop⟩) s4 := by
    refine (expectMark_reads h2.sound).of fun _ s3 h3 => ?_
    have h23 := h2.before h3
    have hspecifier := h23.sublist (List.sublist_append_right _ [Part.expression e])
    obtain ⟨hstart, -, hstop, -⟩ := hspecifier.ordered
    -- The first word lies before the specifier.
    obtain ⟨hfirst, hlt, hapart⟩ : s.lexeme.start ≤ part.span.start ∧
        part.span.start < part.span.stop ∧ part.span.stop ≤ e.span.start := by
      have hordered := h23.ordered
      obtain ⟨hfirst, hlt, -⟩ := hordered
      refine ⟨hfirst, hlt, ?_⟩
      have hpairwise := h23.ordered.pairwise
      rw [List.cons_append, List.map_cons, List.pairwise_cons] at hpairwise
      exact hpairwise.1 _ (List.mem_map_of_mem (List.mem_append_right xs List.mem_cons_self))
    have hproper (hs : AllProper s.hosts) :
        (HostForm.load ⟨s.lexeme.start, s3.lastStop⟩ e.span e.hosts).Proper :=
      ⟨by dsimp only; omega, (hspecifier.proper hs).2 _ List.mem_cons_self⟩
    exact recordHost_reads h23 rfl (HostForm.nested_load.2 ⟨h23.cover.nested _ List.mem_cons_self,
      hstart, hstop, hspecifier.nested _ List.mem_cons_self⟩) hproper hstring
      (iff_of_false (by simp) hkind)
  simp only [dynamicImport, ensures_bind, ensures_get, ensures_value, ensures_hostsSince,
    ensures_ite, ensures_atMark, ensures_spanFrom, ensures_pure]
  refine ((expectMark_reads h1.sound).and expectMark_hosts).of fun _ s2 h2 => ?_
  obtain ⟨h2, hopen⟩ := h2
  refine (hg.assignment _ h2.sound).of fun t s3 h3 _ => ?_
  have hspecifier := hostsSince_of_holds h3.holds
  rw [hopen, hwords] at hspecifier ⊢
  have h13 := (h1.before h2).trans hspecifier
  refine (eatMark_reads h13.sound).of fun hasOptions s4 h4 => ?_
  have h14 := h13.before h4
  split
  · split
    · exact hend h14
    · refine (hg.assignment _ h14.sound).of fun options s5 h5 _ => ?_
      have h15 := h14.before h5.toReads
      exact (eatMark_reads h15.sound).of fun _ s6 h6 => hend (h15.before h6)
  · exact hend h14

theorem importForm_reads (hg : g.Sound) (hs : s.Sound) (hne : s.lexeme.token ≠ .endOfInput)
    (hstring : ¬ s.AtString) :
    (importForm g ctx).Ensures s fun t s' => ReadsHost s t s' := by
  simp only [importForm, ensures_bind, ensures_position, ensures_ite, ensures_atMark,
    ensures_eatMark, ensures_unexpected, ensures_get, ensures_spanFrom, ensures_pure, ↓reduceIte,
    Bool.false_eq_true]
  refine (((advance_here hs hne).and advance_hosts).and advance_scans).of fun _ s1 h1 => ?_
  obtain ⟨⟨h1, hosts1⟩, hpoint⟩ := h1
  split
  · next hmark =>
    refine (((advance_mark h1.sound hmark).and advance_hosts).and advance_scans).of
      fun _ s2 h2 => ?_
    obtain ⟨⟨h2, hosts2⟩, hword⟩ := h2
    have h12 := h1.before h2
    have hosts12 := hosts2.trans hosts1
    have hmeta : s.BeforeMeta ↔ isKeyword s2.lexeme.token "meta" = true := by
      constructor
      · rintro ⟨point, word, hpoint', -, hword', hmeta⟩
        cases hpoint.symm.trans hpoint'
        cases hword.symm.trans hword'
        exact hmeta
      · exact fun hmeta => ⟨s1.lexeme, s2.lexeme, hpoint, hmark, hword, hmeta⟩
    rw [ensures_eatKeyword]
    split
    · next hkeyword =>
      refine ((advance_keyword h12.sound hkeyword).and advance_hosts).of fun _ s3 h3 => ?_
      have h13 := h12.before h3.1
      rw [if_pos rfl, h3.2, hosts12]
      exact recordHost_reads h13 rfl (h13.cover.nested _ List.mem_cons_self) (fun _ => trivial)
        hstring (iff_of_true ⟨_, rfl⟩ (hmeta.2 hkeyword))
    · next hkeyword =>
      have hkind : ¬ s.BeforeMeta := fun h => hkeyword (hmeta.1 h)
      rw [if_neg Bool.false_ne_true]
      refine ((eatKeyword_reads h12.sound).and eatKeyword_hosts).of fun isDefer s3 h3 => ?_
      have h13 := h12.before h3.1
      have hosts13 := h3.2.trans hosts12
      split
      · exact dynamicImport_reads hg h13 hosts13 hstring hkind
      · refine ((eatKeyword_reads h13.sound).and eatKeyword_hosts).of fun isSource s4 h4 => ?_
        split
        · exact dynamicImport_reads hg (h13.before h4.1) (h4.2.trans hosts13) hstring hkind
        · trivial
  · next hmark =>
    have hkind : ¬ s.BeforeMeta := by
      rintro ⟨point, word, hpoint', hpointMark, -⟩
      cases hpoint.symm.trans hpoint'
      exact hmark hpointMark
    split
    · exact dynamicImport_reads hg h1 hosts1 hstring hkind
    · trivial

/-! ## Values -/

theorem newForm_reads (hg : g.Sound) (hs : s.Sound) (hne : s.lexeme.token ≠ .endOfInput)
    (hgo : s.GoesOn) :
    (newForm g ctx).Ensures s fun t s' => ReadsTerm s t s' := by
  have hend {s1 : State} (h1 : Reads s [s.here] s1) :
      Ensures (atMark "(" >>= fun hasArguments => if hasArguments then (do
        arguments g ctx
        return .plain (← spanFrom s.lexeme.start)) else return .plain (← spanFrom s.lexeme.start))
        s1 fun t s' => ReadsTerm s t s' := by
    simp only [ensures_bind, ensures_atMark, ensures_ite, ensures_spanFrom, ensures_pure]
    split
    · exact (arguments_reads hg h1.sound).of fun _ s2 h2 => .cover (h1.trans h2) hgo (by simp)
    · exact .cover h1 hgo (by simp)
  simp only [newForm, ensures_bind, ensures_position, ensures_ite, ensures_unexpected,
    ensures_get, ensures_spanFrom, ensures_pure, ensures_value]
  refine (advance_here hs hne).of fun _ s1 h1 => ?_
  refine (eatMark_reads h1.sound).of fun isMember s2 h2 => ?_
  have h12 := h1.before h2
  split
  · refine (eatKeyword_reads h12.sound).of fun isTarget s3 h3 => ?_
    split
    · exact .cover (h12.before h3) hgo (by simp)
    · trivial
  · refine (hg.access _ _ h12.sound).of fun callee s3 h3 _ => ?_
    have h13 := h12.before h3.toReads
    split
    · simp only [ensures_ite]
      split
      · simp only [ensures_bind, ensures_fail]
      · exact hend h13
    · exact hend h13

theorem wordForm_reads (hg : g.Sound) (hs : s.Sound) {word : String} {isEscaped : Bool}
    (htoken : s.lexeme.token = .word word isEscaped) :
    (wordForm g ctx word isEscaped).Ensures s fun t s' => ReadsTerm s t s' := by
  have hne : s.lexeme.token ≠ .endOfInput := by simp [htoken]
  have hgo : s.GoesOn := State.goesOn_of_token htoken (by simp)
  have hword (shape : Shape) (hshape : shape = .value ∨ shape = .name word) :
      advance.Ensures s fun _ s' => ReadsTerm s (.plain s.here shape) s' := by
    refine (advance_takes hs hne).of fun _ s1 h1 => .token h1 fun name hname => ?_
    obtain rfl | rfl := hshape
    · cases hname
    · cases hname
      exact ⟨isEscaped, htoken⟩
  simp only [wordForm, ensures_bind, ensures_current, ensures_ite, ensures_fail]
  split
  · trivial
  split
  case h_1 | h_2 | h_3 | h_4 =>
    simp only [ensures_bind, ensures_pure]
    exact hword _ (.inl rfl)
  case h_5 =>
    simp only [ensures_bind, ensures_spanFrom, ensures_pure]
    exact (function_reads hg hs).of fun c s1 h1 => .cover h1.1 hgo (by simp)
  case h_6 =>
    simp only [ensures_bind, ensures_spanFrom, ensures_pure]
    exact (classDefinition_reads hg hs).of fun c s1 h1 => .cover h1.1 hgo (by simp)
  case h_7 => exact newForm_reads hg hs hne hgo
  case h_8 =>
    have hstring : ¬ s.AtString := by simp [State.AtString, htoken]
    exact (importForm_reads hg hs hne hstring).of fun _ _ h => h.toReadsTerm
  case h_9 =>
    simp only [ensures_bind, ensures_current, ensures_ite, ensures_peek, ensures_fail,
      ensures_pure]
    refine (hword .value (.inl rfl)).of fun _ s1 h1 => ?_
    split
    · intro l _
      split
      · exact h1
      · trivial
    · split
      · exact h1
      · trivial
  case h_10 =>
    simp only [ensures_bind, ensures_ite, ensures_peek, ensures_unexpected, ensures_spanFrom,
      ensures_pure]
    split
    · intro l _
      split
      · refine (advance_here hs hne).of fun _ s1 h1 => ?_
        exact (function_reads hg h1.sound).of fun c s2 h2 => .cover (h1.trans h2.1) hgo (by simp)
      · split
        · exact hword _ (.inr rfl)
        · trivial
    · split
      · exact hword _ (.inr rfl)
      · trivial

/-- The word `import` starts a host form wherever a value starts. -/
theorem primary_import (hg : g.Sound) (hs : s.Sound)
    (hword : isKeyword s.lexeme.token "import" = true) :
    (primary g ctx).Ensures s fun t s' => ReadsHost s t s' := by
  have htoken : s.lexeme.token = .word "import" false := beq_iff_eq.1 hword
  simp only [primary, wordForm, htoken, ensures_bind, ensures_current, Bool.false_and,
    Bool.false_eq_true, ↓reduceIte]
  exact importForm_reads hg hs (ne_endOfInput_of_isKeyword hword)
    (by simp [State.AtString, htoken])

theorem primary_reads (hg : g.Sound) (hs : s.Sound) :
    (primary g ctx).Ensures s fun t s' => ReadsTerm s t s' := by
  have htoken (hne : s.lexeme.token ≠ .endOfInput) (shape : Shape)
      (hshape : ∀ name, shape ≠ .name name) :
      Ensures (advance >>= fun _ => pure (Term.plain s.here shape)) s
        fun t s' => ReadsTerm s t s' := by
    simp only [ensures_bind, ensures_pure]
    exact (advance_takes hs hne).of fun _ s1 h1 =>
      .token h1 fun name hname => absurd hname (hshape name)
  simp only [primary, ensures_bind, ensures_current]
  split
  case h_1 heq => exact wordForm_reads hg hs heq
  case h_2 heq => exact htoken (by simp [heq]) _ (by simp)
  case h_3 heq => exact htoken (by simp [heq]) _ (by simp)
  case h_4 heq =>
    simp only [ensures_bind, ensures_spanFrom, ensures_pure]
    exact (template_reads hg hs).of fun _ s1 h1 =>
      .cover h1 (State.goesOn_of_token heq (by simp)) (by simp)
  case h_5 => exact arrayLiteral_reads hg hs
  case h_6 => exact objectLiteral_reads hg hs
  case h_7 =>
    simp only [ensures_bind]
    exact (group_reads hg hs).of fun r s1 h1 => groupTerm_reads h1
  case h_8 heq | h_9 heq =>
    simp only [ensures_bind, ensures_current, ensures_pure]
    have hslash := hs.lexeme.takes.mark heq
    have hopen : s.lexeme.token.isOpen = true := by rw [heq]; rfl
    refine (reread_reads (Lexeme.scanRegularExpression_stands hs.lexeme hslash) hopen hs).of
      fun _ s1 h1 => ?_
    obtain ⟨h1, hstart, hne⟩ := h1
    refine (advance_takes h1.sound hne).of fun _ s2 h2 => ?_
    obtain ⟨h2, hstop⟩ := h2
    rw [hstart, ← hstop]
    exact .cover (h2.after h1) (State.goesOn_of_token heq (by simp)) (by simp)
  case h_10 heq =>
    simp only [ensures_bind, ensures_atKeyword, ensures_ite, ensures_unexpected, ensures_spanFrom,
      ensures_pure]
    refine (decorators_reads hg hs).of fun ds s1 h1 => ?_
    split
    · refine (classDefinition_reads hg h1.sound).of fun d s2 h2 => ?_
      exact .cover (h2.1.after h1) (State.goesOn_of_token heq (by simp)) (by simp)
    · trivial
  case h_11 => exact ensures_unexpected.2 trivial

/-! ## Properties and calls -/

/-- An expression in brackets. -/
theorem subscript_reads (hg : g.Sound) (hs : s.Sound) {Q : State → Prop}
    (hQ : ∀ s', Reads s [] s' → Q s') :
    Ensures (expectMark "[") s fun _ s1 => (sequence g ctx).Ensures s1 fun t s2 =>
      t.pending = none → Ensures (expectMark "]") s2 fun _ s3 => Q s3 := by
  refine (expectMark_reads hs).of fun _ s1 h1 => ?_
  refine (sequence_reads hg h1.sound).of fun t s2 h2 _ => ?_
  refine (expectMark_reads h2.sound).of fun _ s3 h3 => ?_
  exact hQ s3 (((h1.trans h2.toReads).trans h3).sublist (List.nil_sublist _))

/-- A value goes on past its head; each round of the loop starts past the head. -/
theorem accessRest_reads (hg : g.Sound) {calls : Bool} {head : Term} {s1 : State}
    (h1 : ReadsTerm s head s1) :
    (accessRest g ctx calls head).Ensures s1 fun t s' => ReadsTerm s t s' := by
  refine ensures_repeatFrom
    (fun (r : Term × Bool) s' => ReadsTerm s r.1 s' ∧ Reads s1 [] s') ⟨h1, .refl h1.sound⟩
    fun r s2 h2 => ?_
  obtain ⟨t, isOptional⟩ := r
  obtain ⟨h2, hmoved⟩ := h2
  have hnext (hmark : isMark s2.lexeme.token ";" = false) {s3 : State} (h3 : Reads s2 [] s3)
      {c : Prop} [Decidable c] {shape : Shape} (hshape : ∀ name, shape ≠ .name name) :
      ReadsTerm s (.plain ⟨head.span.start, s3.lastStop⟩ (if c then .value else shape)) s3 ∧
        Reads s1 [] s3 := by
    have hstart : head.span.start = t.span.start := by rw [h1.whole, h2.whole]
    have hshape (name : String) : (if c then Shape.value else shape) ≠ .name name := by
      split
      · simp
      · exact hshape name
    rw [hstart]
    exact ⟨h2.extend h3 hmark hshape, hmoved.trans h3⟩
  simp only [accessRound, subscript, ensures_bind, ensures_current]
  split
  case h_1 heq =>
    have hmark : isMark s2.lexeme.token ";" = false := by rw [heq]; rfl
    simp only [ensures_bind, ensures_value, ensures_current, ensures_ite, ensures_unexpected,
      ensures_spanFrom, ensures_pure, Sum.elim_inl]
    intro _
    refine (advance_reads h2.sound (by simp [heq])).of fun _ s3 h3 => ?_
    split
    case h_1 heq | h_2 heq =>
      refine of_check ((advance_reads h3.sound (by simp [heq])).of fun _ s4 h4 => ?_)
      exact hnext hmark (h3.trans h4) (by simp)
    case h_3 => simp only [Bool.false_eq_true, ↓reduceIte]
  case h_2 heq =>
    have hmark : isMark s2.lexeme.token ";" = false := by rw [heq]; rfl
    simp only [ensures_bind, ensures_value, ensures_ite, ensures_unexpected]
    intro _
    split
    · refine (advance_reads h2.sound (by simp [heq])).of fun _ s3 h3 => ?_
      simp only [ensures_current]
      split
      case h_1 heq | h_2 heq =>
        simp only [ensures_bind, ensures_spanFrom, ensures_pure, Sum.elim_inl]
        exact (advance_reads h3.sound (by simp [heq])).of fun _ s4 h4 =>
          hnext hmark (h3.trans h4) (by simp)
      case h_3 =>
        simp only [ensures_bind, ensures_value, ensures_spanFrom, ensures_pure, Sum.elim_inl]
        exact subscript_reads hg h3.sound fun s4 h4 => hnext hmark (h3.trans h4) (by simp)
      case h_4 =>
        simp only [ensures_bind, ensures_spanFrom, ensures_pure, Sum.elim_inl]
        exact (arguments_reads hg h3.sound).of fun _ s4 h4 => hnext hmark (h3.trans h4) (by simp)
      case h_5 => simp only [ensures_bind, ensures_unexpected]
    · trivial
  case h_3 heq =>
    simp only [ensures_bind, ensures_value, ensures_ite, ensures_spanFrom, ensures_pure,
      Sum.elim_inl, Sum.elim_inr]
    split
    · exact h2
    · intro _
      exact subscript_reads hg h2.sound fun s3 h3 => hnext (by rw [heq]; rfl) h3 (by simp)
  case h_4 heq =>
    simp only [ensures_bind, ensures_value, ensures_ite, ensures_spanFrom, ensures_pure,
      Sum.elim_inl, Sum.elim_inr]
    split
    · intro _
      exact (arguments_reads hg h2.sound).of fun _ s3 h3 => hnext (by rw [heq]; rfl) h3 (by simp)
    · exact h2
  case h_5 heq =>
    simp only [ensures_bind, ensures_value, ensures_ite, ensures_unexpected, ensures_spanFrom,
      ensures_pure, Sum.elim_inl]
    intro _
    split
    · trivial
    · refine (template_reads hg h2.sound).of fun _ s3 h3 => ?_
      exact hnext (by rw [heq]; rfl) (h3.sublist (List.nil_sublist _)) (by simp)
  case h_6 => exact ensures_pure.2 h2

theorem access_reads (hg : g.Sound) {calls : Bool} (hs : s.Sound) :
    (access g ctx calls).Ensures s fun t s' => ReadsTerm s t s' := by
  simp only [access, ensures_bind]
  exact (primary_reads hg hs).of fun head s1 h1 => accessRest_reads hg h1

/-! ## Operators -/

theorem requirePlace_ensures {t : Term} :
    (requirePlace t).Ensures s fun _ s' => s' = s := by
  simp only [requirePlace, ensures_ite, ensures_fail, ensures_pure]
  exact of_check trivial

theorem postfixRest_reads {t : Term} {s1 : State} (h1 : ReadsTerm s t s1) :
    (postfixRest t).Ensures s1 fun t s' => ReadsTerm s t s' := by
  simp only [postfixRest, ensures_bind, ensures_current, ensures_ite, ensures_spanFrom,
    ensures_pure]
  split
  · next hmark =>
    refine requirePlace_ensures.of fun _ s2 h2 => ?_
    rw [h2]
    have hother : isMark s1.lexeme.token ";" = false := by
      rw [← Bool.not_eq_true]
      intro hsemicolon
      simp [beq_iff_eq.1 hsemicolon, isMark] at hmark
    refine (advance_reads h1.sound fun hend => ?_).of fun _ s3 h3 =>
      h1.extend h3 hother (by simp)
    simp [hend, isMark] at hmark
  · exact h1

theorem unaryOperand_reads (hg : g.Sound) {s1 : State} {part : Part} {xs : List Part}
    (h1 : Reads s (part :: xs) s1) (hgo : s.GoesOn) :
    (unaryOperand g ctx s.lexeme.start).Ensures s1 fun t s' => ReadsTerm s t s' := by
  simp only [unaryOperand, ensures_bind, ensures_value, ensures_spanFrom, ensures_atMark,
    ensures_ite, ensures_fail, ensures_pure]
  refine (hg.unary _ h1.sound).of fun t s2 h2 _ => ?_
  split
  · trivial
  · exact .cover (h1.before h2.toReads) hgo (by simp)

theorem unary_reads (hg : g.Sound) (hs : s.Sound) :
    (unary g ctx).Ensures s fun t s' => ReadsTerm s t s' := by
  have hoperator (hne : s.lexeme.token ≠ .endOfInput) (hgo : s.GoesOn) :
      advance.Ensures s fun _ s1 =>
        (unaryOperand g ctx s.lexeme.start).Ensures s1 fun t s' => ReadsTerm s t s' :=
    (advance_here hs hne).of fun _ s1 h1 => unaryOperand_reads hg h1 hgo
  have hstep (hne : s.lexeme.token ≠ .endOfInput) (hgo : s.GoesOn) :
      advance.Ensures s fun _ s1 => (g.unary ctx).Ensures s1 fun operand s2 =>
        (requirePlace operand).Ensures s2 fun _ s3 =>
          ReadsTerm s (.plain ⟨s.lexeme.start, s3.lastStop⟩) s3 := by
    refine (advance_here hs hne).of fun _ s1 h1 => ?_
    refine (hg.unary _ h1.sound).of fun operand s2 h2 => ?_
    refine requirePlace_ensures.of fun _ s3 h3 => ?_
    rw [h3]
    exact .cover (h1.before h2.toReads) hgo (by simp)
  simp only [unary, ensures_bind, ensures_current]
  split
  case h_8 heq =>
    simp only [ensures_ite, ensures_bind, ensures_unexpected]
    exact of_check (hoperator (by simp [heq]) (State.goesOn_of_token heq (by simp)))
  case h_9 heq | h_10 heq =>
    simp only [ensures_bind, ensures_spanFrom, ensures_pure]
    exact hstep (by simp [heq]) (State.goesOn_of_token heq (by simp))
  case h_11 =>
    rw [ensures_bind]
    exact (access_reads hg hs).of fun t s1 h1 => postfixRest_reads h1
  all_goals
    next heq =>
    rw [ensures_bind]
    exact hoperator (by simp [heq]) (State.goesOn_of_token heq (by simp))

theorem joined_ensures {token : Token} {left right : Term} {span : Span} :
    (joined token left right span).Ensures s fun shape s' =>
      s' = s ∧ ∀ name, shape ≠ .name name := by
  simp only [joined]
  split
  all_goals simp only [ensures_bind, ensures_ite, ensures_fail, ensures_pure]
  case h_4 => exact ⟨trivial, by simp⟩
  all_goals
    split
    · trivial
    · exact ⟨trivial, by simp⟩

theorem strength?_endOfInput : strength? ctx .endOfInput = none := rfl

theorem strength?_semicolon : strength? ctx (.punctuator ";") = none := rfl

theorem binaryRest_reads (hg : g.Sound) {least : Nat} {left : Term} {s1 : State}
    (h1 : ReadsTerm s left s1) :
    (binaryRest g ctx least left).Ensures s1 fun t s' => ReadsTerm s t s' := by
  refine ensures_repeatFrom (fun t s' => ReadsTerm s t s') h1 fun t s2 h2 => ?_
  simp only [ensures_bind, ensures_current]
  split
  · next heq =>
    have hne : s2.lexeme.token ≠ .endOfInput := by
      intro hend
      rw [hend, strength?_endOfInput] at heq
      cases heq
    have hmark : isMark s2.lexeme.token ";" = false := by
      rw [← Bool.not_eq_true]
      intro hsemicolon
      rw [beq_iff_eq.1 hsemicolon, strength?_semicolon] at heq
      cases heq
    simp only [ensures_ite, ensures_bind, ensures_value, ensures_spanFrom, ensures_pure,
      Sum.elim_inl, Sum.elim_inr]
    split
    · intro _
      refine (advance_reads h2.sound hne).of fun _ s3 h3 => ?_
      refine (hg.binary _ _ h3.sound).of fun right s4 h4 _ => ?_
      refine joined_ensures.of fun shape s5 h5 => ?_
      obtain ⟨rfl, hshape⟩ := h5
      exact h2.extend (h3.trans h4.toReads) hmark hshape
    · exact h2
  · exact ensures_pure.2 h2

theorem binary_reads (hg : g.Sound) {least : Nat} (hs : s.Sound) :
    (binary g ctx least).Ensures s fun t s' => ReadsTerm s t s' := by
  simp only [binary, ensures_bind, ensures_current]
  split
  · next heq =>
    simp only [ensures_ite, ensures_bind, ensures_value, ensures_unexpected, ensures_spanFrom]
    refine of_check ((advance_here hs (by simp [heq])).of fun _ s1 h1 => ?_)
    refine (eatKeyword_reads h1.sound).of fun isIn s2 h2 => of_check ?_
    refine (hg.binary _ _ h2.sound).of fun object s3 h3 _ => ?_
    exact binaryRest_reads hg
      (.cover ((h1.before h2).before h3.toReads) (State.goesOn_of_token heq (by simp)) (by simp))
  · rw [ensures_bind]
    exact (unary_reads hg hs).of fun t s1 h1 => binaryRest_reads hg h1

/-! ## Assignments and arrow functions -/

theorem assignmentRest_reads (hg : g.Sound) {left : Term} {s1 : State}
    (h1 : ReadsTerm s left s1) :
    (assignmentRest g ctx left).Ensures s1 fun t s' => ReadsTerm s t s' := by
  have hvalue (hmark : isAssignmentOperator s1.lexeme.token = true) {shape : Shape}
      (hshape : ∀ name, shape ≠ .name name) :
      advance.Ensures s1 fun _ s2 => (g.assignment ctx).Ensures s2 fun right s3 =>
        right.pending = none → ReadsTerm s (.plain ⟨left.span.start, s3.lastStop⟩ shape) s3 := by
    have hne : s1.lexeme.token ≠ .endOfInput := by
      intro hend
      simp [hend, isAssignmentOperator] at hmark
    have hother : isMark s1.lexeme.token ";" = false := by
      rw [← Bool.not_eq_true]
      intro hsemicolon
      rw [beq_iff_eq.1 hsemicolon] at hmark
      revert hmark
      decide
    refine (advance_reads h1.sound hne).of fun _ s2 h2 => ?_
    exact (hg.assignment _ h2.sound).of fun right s3 h3 _ =>
      h1.extend (h2.trans h3.toReads) hother hshape
  simp only [assignmentRest, ensures_bind, ensures_current, ensures_ite, ensures_value,
    ensures_spanFrom, ensures_pure]
  split
  · next hmark =>
    split
    · split
      · simp only [ensures_bind, ensures_fail]
      · simp only [ensures_bind, ensures_value, ensures_spanFrom, ensures_pure]
        exact hvalue hmark (by simp)
    · refine requirePlace_ensures.of fun _ s2 h2 => ?_
      rw [h2]
      exact hvalue hmark (by simp)
  split
  · next hmark =>
    intro _
    refine (advance_mark h1.sound hmark).of fun _ s2 h2 => ?_
    refine (hg.assignment _ h2.sound).of fun consequent s3 h3 _ => ?_
    refine (expectMark_reads h3.sound).of fun _ s4 h4 => ?_
    refine (hg.assignment _ h4.sound).of fun alternate s5 h5 _ => ?_
    exact h1.extend (((h2.trans h3.toReads).trans h4).trans h5.toReads)
      (isMark_of_isMark hmark (by decide)) (by simp)
  · exact h1

/-- An arrow function whose parameters are read already. -/
theorem arrow_reads (hg : g.Sound) {isAsync : Bool} {s1 : State} {part : Part} {xs : List Part}
    (h1 : Reads s (part :: xs) s1) (hgo : s.GoesOn ∨ s1.lastStop = s.lexeme.stop) :
    (arrow g ctx isAsync s.lexeme.start).Ensures s1 fun t s' => ReadsTerm s t s' := by
  simp only [arrow, ensures_bind, ensures_current, ensures_ite, ensures_unexpected, ensures_atMark,
    ensures_value, ensures_spanFrom, ensures_pure]
  split
  · trivial
  refine ((expectMark_reads h1.sound).and expectMark_at).of fun _ s2 h2 => ?_
  obtain ⟨h2, harrow⟩ := h2
  have h12 := h1.before h2
  have hgo : s.GoesOn := h1.goesOn hgo (isMark_of_isMark harrow (by decide))
  split
  · exact (functionBody_reads hg h12.sound).of fun body s3 h3 =>
      .cover (h12.before h3.1) hgo (by simp)
  · exact (hg.assignment _ h12.sound).of fun value s3 h3 _ =>
      .cover (h12.before h3.toReads) hgo (by simp)

theorem assignmentFrom_reads (hg : g.Sound) {head : Term} {s1 : State}
    (h1 : ReadsTerm s head s1) :
    (assignmentFrom g ctx head).Ensures s1 fun t s' => ReadsTerm s t s' := by
  simp only [assignmentFrom, ensures_bind]
  refine (accessRest_reads hg h1).of fun t s2 h2 => ?_
  refine (postfixRest_reads h2).of fun t s3 h3 => ?_
  exact (binaryRest_reads hg h3).of fun t s4 h4 => assignmentRest_reads hg h4

theorem assignmentFromOperand_reads (hg : g.Sound) (hs : s.Sound) :
    (assignmentFromOperand g ctx).Ensures s fun t s' => ReadsTerm s t s' := by
  simp only [assignmentFromOperand, ensures_bind, ensures_position, ensures_atMark, ensures_ite]
  refine (binary_reads hg hs).of fun t s1 h1 => ?_
  have harrow (isArrow : Bool) : if isArrow
      then (arrow g ctx false s.lexeme.start).Ensures s1 fun t s' => ReadsTerm s t s'
      else (assignmentRest g ctx t).Ensures s1 fun t s' => ReadsTerm s t s' := by
    split
    · exact arrow_reads hg h1.toReads h1.goesOn
    · exact assignmentRest_reads hg h1
  exact harrow _

/-- A call of `async`, or an arrow function with its parameters in parentheses. -/
theorem asyncGroup_reads (hg : g.Sound) (hgo : s.GoesOn) {s1 : State}
    (h1 : Reads s [(s.here : Part)] s1)
    {isArrow : State → Group → Bool} :
    (group g ctx).Ensures s1 fun r s2 =>
      if isArrow s2 r then (arrow g ctx true s.lexeme.start).Ensures s2 fun t s' => ReadsTerm s t s'
      else r.checkArguments.Ensures s2 fun _ s3 =>
        (assignmentFrom g ctx (.plain ⟨s.lexeme.start, r.span.stop⟩)).Ensures s3
          fun t s' => ReadsTerm s t s' := by
  refine (group_reads hg h1.sound).of fun r s2 h2 => ?_
  have h12 := h1.before h2.toReads
  split
  · exact arrow_reads hg h12 (.inl hgo)
  · refine checkArguments_ensures.of fun _ s3 h3 => ?_
    have hstop : r.span.stop = s2.lastStop := by rw [h2.whole]
    rw [h3, hstop]
    exact assignmentFrom_reads hg (.cover h12 hgo (by simp))

theorem assignmentFromAsync_reads (hg : g.Sound) (hs : s.Sound)
    (hne : s.lexeme.token ≠ .endOfInput) (hgo : s.GoesOn) :
    (assignmentFromAsync g ctx).Ensures s fun t s' => ReadsTerm s t s' := by
  have hgroup (isGroup : Bool) :
      if isGroup then advance.Ensures s fun _ s1 => (group g ctx).Ensures s1 fun r s2 =>
        if isMark s2.lexeme.token "=>" && !s2.lexeme.afterBreak && r.isParameters then
          (arrow g ctx true s.lexeme.start).Ensures s2 fun t s' => ReadsTerm s t s'
        else r.checkArguments.Ensures s2 fun _ s3 =>
          (assignmentFrom g ctx (.plain ⟨s.lexeme.start, r.span.stop⟩)).Ensures s3
            fun t s' => ReadsTerm s t s'
      else (assignmentFromOperand g ctx).Ensures s fun t s' => ReadsTerm s t s' := by
    split
    · exact (advance_here hs hne).of fun _ s1 h1 => asyncGroup_reads hg hgo h1
    · exact assignmentFromOperand_reads hg hs
  simp only [assignmentFromAsync, ensures_bind, ensures_current, ensures_peek, ensures_liftM,
    ensures_ite, ensures_atMark]
  intro l hl
  split
  · next hname =>
    intro after _
    split
    · refine ((advance_here hs hne).and (advance_peeked hl)).of fun _ s1 h1 => ?_
      obtain ⟨h1, hlexeme⟩ := h1
      have hword : s1.lexeme.token ≠ .endOfInput := by
        intro hend
        rw [hlexeme] at hend
        simp [hend, name?] at hname
      exact (advance_reads h1.sound hword).of fun _ s2 h2 =>
        arrow_reads hg (h1.before h2) (.inl hgo)
    · exact hgroup _
  · exact hgroup _

theorem yieldForm_reads (hg : g.Sound) (hs : s.Sound) (hne : s.lexeme.token ≠ .endOfInput)
    (hgo : s.GoesOn) :
    (yieldForm g ctx).Ensures s fun t s' => ReadsTerm s t s' := by
  simp only [yieldForm, ensures_bind, ensures_position, ensures_current, ensures_ite,
    ensures_value, ensures_spanFrom, ensures_pure]
  refine (advance_here hs hne).of fun _ s1 h1 => ?_
  split
  · exact .cover h1 hgo (by simp)
  refine (eatMark_reads h1.sound).of fun isDelegate s2 h2 => ?_
  have h12 := h1.before h2
  have hvalue (hasValue : Bool) : if hasValue
      then (g.assignment ctx).Ensures s2 fun value s3 => value.pending = none →
        ReadsTerm s (.plain ⟨s.lexeme.start, s3.lastStop⟩) s3
      else ReadsTerm s (.plain ⟨s.lexeme.start, s2.lastStop⟩) s2 := by
    split
    · exact (hg.assignment _ h12.sound).of fun value s3 h3 _ =>
        .cover (h12.before h3.toReads) hgo (by simp)
    · exact .cover h12 hgo (by simp)
  exact hvalue _

theorem assignment_reads (hg : g.Sound) (hs : s.Sound) :
    (assignment g ctx).Ensures s fun t s' => ReadsTerm s t s' := by
  simp only [assignment, ensures_bind, ensures_current]
  split
  · next heq =>
    rw [ensures_ite]
    split
    · exact yieldForm_reads hg hs (by simp [heq]) (State.goesOn_of_token heq (by simp))
    · exact assignmentFromOperand_reads hg hs
  · next heq =>
    exact assignmentFromAsync_reads hg hs (by simp [heq]) (State.goesOn_of_token heq (by simp))
  · simp only [ensures_bind, ensures_atMark, ensures_ite]
    refine (group_reads hg hs).of fun r s1 h1 => ?_
    split
    · exact arrow_reads hg h1.toReads (.inl (State.goesOn_of_isMark h1.opens))
    · exact (groupTerm_reads h1).of fun t s2 h2 => assignmentFrom_reads hg h2
  · exact assignmentFromOperand_reads hg hs

end Rebind.Grammar
