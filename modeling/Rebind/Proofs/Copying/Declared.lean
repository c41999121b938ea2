import Rebind.Proofs.Copying.Printed

/-!
# The patterns that declarations bind

The patterns of a declaration among the statements of a snippet are printed as texts that are read
again (`Program.parse_restored`).
-/

namespace Rebind.Grammar

open Rebind.Text (Span byteSize)
open Rebind.Snippet
open Rebind.Grammar.Parser

variable {source : List Char} {s : State} {g : Productions} {placement : Placement} {start : Nat}
  {kind : DeclarationKind}

/-! ## Declarations -/

/-- The targets of a declaration are read again. -/
def TargetsRestored (source : List Char) (declarators : List Declarator) : Prop :=
  ∀ d ∈ declarators, ReadAgain source d.target.parts → PatternRestored (look source d.target) [] []

theorem declarator_restored (hg : g.Sound) (hp : g.Restores source) (hs : s.Settled source) :
    (declarator g {} kind).Ensures s fun d s' => s'.Within source ∧
      (ReadAgain source d.target.parts → PatternRestored (look source d.target) [] []) := by
  have hvalue {p : Pattern} {s1 : State} (h1 : s1.Within source)
      (hp : ReadAgain source p.parts → PatternRestored (look source p) [] []) :
      (eatMark "=" >>= fun isThere =>
        if isThere then copied (g.assignment {}) >>= fun e => pure (Declarator.mk p (some e))
        else pure (Declarator.mk p none)).Ensures s1 fun d s' => s'.Within source ∧
          (ReadAgain source d.target.parts → PatternRestored (look source d.target) [] []) := by
    simp only [ensures_bind, ensures_eatMark, ensures_ite, ensures_pure, ↓reduceIte,
      Bool.false_eq_true]
    split
    · refine (advance_settled h1).of fun _ s2 h2 => ?_
      exact (copied_within hg h2.toWithin).of fun e s3 h3 => ⟨h3, hp⟩
    · exact ⟨h1, hp⟩
  simp only [declarator]
  split
  · simp only [pure_bind]
    rw [ensures_bind]
    refine (name_spelled hs).of fun r s1 h1 => hvalue h1.1.toWithin fun _ => ?_
    rw [look_name]
    exact h1.2.pattern_restored _
  · rw [ensures_bind]
    exact (hp hs).of fun p s1 h1 => hvalue h1.1 h1.2

theorem declaration_restored (hg : g.Sound) (hp : g.Restores source) (hs : s.Settled source)
    {isStatement : Bool} :
    (declaration g {} kind isStatement).Ensures s fun d _ =>
      TargetsRestored source d.declarators := by
  refine ensures_repeatFrom (fun ds s' => s'.Settled source ∧ TargetsRestored source ds)
    ⟨hs, List.forall_mem_nil _⟩ fun ds s1 h1 => ?_
  obtain ⟨h1, hds⟩ := h1
  simp only [ensures_bind, ensures_ite, ensures_eatMark, ensures_pure, Sum.elim_inl, Sum.elim_inr,
    ↓reduceIte, Bool.false_eq_true]
  refine (declarator_restored hg hp h1).of fun d s2 h2 => ?_
  obtain ⟨h2, hd⟩ := h2
  have hall : TargetsRestored source (d :: ds) := List.forall_mem_cons.2 ⟨hd, hds⟩
  have hend : (if isMark s2.lexeme.token "," = true then
      advance.Ensures s2 fun _ s3 => s3.Settled source ∧ TargetsRestored source (d :: ds)
      else TargetsRestored source (d :: ds).reverse) := by
    split
    · exact (advance_settled h2).of fun _ s3 h3 => ⟨h3, hall⟩
    · exact fun d hd => hall d (List.mem_reverse.1 hd)
  split
  · refine requireValue_ensures.of fun _ s3 h3 => ?_
    rw [h3]
    exact hend
  · exact hend

/-! ## Statements -/

/-- The targets of a declaration are read again, if the statement is one. -/
def DeclaresRestored (source : List Char) : Statement → Prop
  | .declaration _ d => TargetsRestored source d.declarators
  | _ => True

theorem variableStatement_restored (hg : g.Sound) (hp : g.Restores source)
    (hs : s.Settled source) :
    (variableStatement g {} kind start).Ensures s fun st _ => DeclaresRestored source st := by
  simp only [variableStatement, ensures_bind, ensures_pure]
  exact (declaration_restored hg hp hs).of fun d s1 h1 => .of_forall fun _ _ => h1

theorem listedVariables_restored (hg : g.Sound) (hp : g.Restores source) (hs : s.Settled source) :
    (listedVariables g {} placement kind start).Ensures s fun st _ =>
      DeclaresRestored source st := by
  simp only [listedVariables, ensures_bind, ensures_pure]
  exact (variableStatement_restored hg hp hs).of fun st s1 h1 => .of_forall fun _ _ => h1

/-- A parser that answers with no declaration of variables. -/
def IsPlain (p : Parser Statement) : Prop :=
  ∀ s : State, p.Ensures s fun st _ => ∀ start d, st ≠ .declaration start d

namespace IsPlain

theorem restored {p : Parser Statement} (h : IsPlain p) :
    p.Ensures s fun st _ => DeclaresRestored source st := by
  refine (h s).of fun st s1 h1 => ?_
  cases st with
  | declaration start d => exact absurd rfl (h1 start d)
  | _ => trivial

theorem pure {st : Statement} (h : ∀ start d, st ≠ .declaration start d) :
    IsPlain (Pure.pure st) := fun _ => ensures_pure.2 h

/-- What is read last decides. -/
theorem bind {α : Type} {p : Parser α} {f : α → Parser Statement} (h : ∀ a, IsPlain (f a)) :
    IsPlain (p >>= f) := fun _ => ensures_bind.2 (.of_forall fun a _ => h a _)

theorem ite {c : Prop} [Decidable c] {p q : Parser Statement} (hp : IsPlain p) (hq : IsPlain q) :
    IsPlain (if c then p else q) := by
  split
  · exact hp
  · exact hq

theorem label (start : Nat) (text : String) (body : Statement) :
    IsPlain (Pure.pure (body.label start text)) := by
  refine pure fun _ _ => ?_
  cases body <;> nofun

end IsPlain

variable {ctx : Context}

theorem expressionOrLabel_plain : IsPlain (expressionOrLabel g ctx) := by
  refine .bind fun start => .bind fun state => .bind fun t => ?_
  have hexpression : IsPlain (t.value >>= fun span => hostsSince state.hosts.length >>= fun hosts =>
      endStatement >>= fun _ => pure (.expression start ⟨span, hosts⟩)) :=
    .bind fun _ => .bind fun _ => .bind fun _ => .pure nofun
  dsimp only
  split
  · refine .bind fun _ => .ite (.bind fun _ => .label _ _ _) hexpression
  · exact hexpression

theorem forEachRest_plain {isAwait : Bool} {target : LoopTarget} :
    IsPlain (forEachRest g ctx start isAwait target) := by
  refine .bind fun _ => .ite ?_ ?_
  · exact .bind fun _ => .bind fun _ => .bind fun _ => .pure nofun
  · dsimp only
    have hin : IsPlain (expectKeyword "in" >>= fun _ => expression g ctx >>= fun object =>
        expectMark ")" >>= fun _ => g.statement ctx .alone >>= fun body =>
          pure (.forIn start target object body)) :=
      .bind fun _ => .bind fun _ => .bind fun _ => .bind fun _ => .pure nofun
    exact .ite (.bind fun _ => hin) hin

theorem forRest_plain {isAwait : Bool} {init : Option LoopStart} :
    IsPlain (forRest g ctx start isAwait init) := by
  refine .bind fun _ => .bind fun _ => .bind fun _ => ?_
  refine .bind fun _ => .bind fun _ => .bind fun _ => .bind fun _ => ?_
  exact .bind fun _ => .bind fun _ => .bind fun _ => .pure nofun

theorem forDeclaration_plain {isAwait : Bool} :
    IsPlain (forDeclaration g ctx start isAwait kind) := by
  refine .bind fun _ => .bind fun _ => .ite ?_ forRest_plain
  exact .bind fun _ => .ite (.bind fun _ => forEachRest_plain) forEachRest_plain

theorem forExpression_plain {isAwait : Bool} : IsPlain (forExpression g ctx start isAwait) := by
  refine .bind fun _ => .bind fun _ => .bind fun _ => .bind fun t => .bind fun _ => .ite ?_ ?_
  · refine .bind fun _ => .ite (.bind fun _ => ?_) ?_
    · split
      · exact .bind fun _ => .bind fun _ => forEachRest_plain
      · exact .bind fun _ => forEachRest_plain
    · split
      · exact .bind fun _ => .bind fun _ => forEachRest_plain
      · exact .bind fun _ => forEachRest_plain
  · exact .bind fun _ => .bind fun _ => forRest_plain

theorem forStatement_plain : IsPlain (forStatement g ctx) := by
  refine .bind fun _ => .bind fun _ => .bind fun _ => .bind fun _ => .bind fun _ => ?_
  refine .ite forRest_plain (.bind fun kind => ?_)
  cases kind with
  | none => exact forExpression_plain
  | some kind => exact forDeclaration_plain

theorem ifStatement_plain : IsPlain (ifStatement g ctx) :=
  .bind fun _ => .bind fun _ => .bind fun _ => .bind fun _ => .bind fun _ => .pure nofun

theorem doStatement_plain : IsPlain (doStatement g ctx) :=
  .bind fun _ => .bind fun _ => .bind fun _ => .bind fun _ => .bind fun _ => .bind fun _ =>
    .pure nofun

theorem whileStatement_plain : IsPlain (whileStatement g ctx) :=
  .bind fun _ => .bind fun _ => .bind fun _ => .bind fun _ => .pure nofun

theorem withStatement_plain : IsPlain (withStatement g ctx) :=
  .bind fun _ => .bind fun _ => .bind fun _ => .bind fun _ => .pure nofun

theorem switchStatement_plain : IsPlain (switchStatement g ctx) :=
  .bind fun _ => .bind fun _ => .bind fun _ => .bind fun _ => .bind fun _ => .bind fun _ =>
    .pure nofun

theorem tryStatement_plain : IsPlain (tryStatement g ctx) := by
  refine .bind fun _ => .bind fun _ => .bind fun _ => .bind fun _ => .bind fun _ => ?_
  exact .ite (.bind fun _ => .bind fun _ => .pure nofun) (.pure nofun)

theorem returnStatement_plain : IsPlain (returnStatement g ctx) := by
  have hvalue (start : Nat) : IsPlain (advance >>= fun _ => atImplicitEnd >>= fun isAbsent =>
      optionalExpression g ctx isAbsent >>= fun value => endStatement >>= fun _ =>
        pure (.returnValue start value)) :=
    .bind fun _ => .bind fun _ => .bind fun _ => .bind fun _ => .pure nofun
  exact .bind fun start => .ite (hvalue start) (.bind fun _ => hvalue start)

theorem throwStatement_plain : IsPlain (throwStatement g ctx) := by
  have hvalue (start : Nat) : IsPlain (expression g ctx >>= fun value =>
      endStatement >>= fun _ => pure (.throwValue start value)) :=
    .bind fun _ => .bind fun _ => .pure nofun
  exact .bind fun start => .bind fun _ => .bind fun _ =>
    .ite (.bind fun _ => hvalue start) (hvalue start)

theorem jumpStatement_plain {jump : Jump} : IsPlain (jumpStatement ctx jump) :=
  .bind fun _ => .bind fun _ => .bind fun _ => .bind fun _ => .pure nofun

theorem functionDeclaration_plain : IsPlain (functionDeclaration g ctx placement) := by
  refine .bind fun _ => .bind fun _ => .bind fun _ => ?_
  exact .ite (.bind fun _ => .pure nofun) (.pure nofun)

theorem classDeclaration_plain {decorators : List Expression} :
    IsPlain (classDeclaration g ctx placement start decorators) :=
  .bind fun _ => .bind fun _ => .pure nofun

theorem importDeclaration_plain : IsPlain (importDeclaration ctx) := by
  have hend (start : Nat) : IsPlain (endStatement >>= fun _ => pure (.moduleItem start)) :=
    .bind fun _ => .pure nofun
  refine .bind fun start => .bind fun _ => .bind fun _ => .ite ?_ ?_
  · exact .bind fun _ => .bind fun _ => hend start
  · exact .bind fun _ => .bind fun _ => hend start

theorem exportDeclaration_plain {isDecorated : Bool} :
    IsPlain (exportDeclaration g ctx isDecorated) := by
  have hdone (start : Nat) : IsPlain (pure (.moduleItem start)) := .pure nofun
  have hend (start : Nat) : IsPlain (endStatement >>= fun _ => pure (.moduleItem start)) :=
    .bind fun _ => hdone start
  have hnames (start : Nat) : IsPlain (exportedNames g ctx >>= fun names => spanFrom start >>=
      fun span => addExports names span >>= fun _ => pure (.moduleItem start)) :=
    .bind fun _ => .bind fun _ => .bind fun _ => hdone start
  have hdefault (start : Nat) : IsPlain (defaultValue g ctx >>= fun _ => spanFrom start >>=
      fun span => addExports ["default"] span >>= fun _ => pure (.moduleItem start)) :=
    .bind fun _ => .bind fun _ => .bind fun _ => hdone start
  refine .bind fun start => .bind fun _ => .bind fun _ =>
    .ite ?_ (.ite ?_ (.bind fun _ => .ite ?_ ?_))
  · exact .ite (.bind fun _ => .ite (hdefault start) (.bind fun _ => hdefault start))
      (hdefault start)
  · exact .bind fun _ => .ite (hnames start) (.bind fun _ => hnames start)
  · exact .bind fun _ => .ite
      (.bind fun _ => .bind fun _ => .bind fun _ => .bind fun _ => hend start)
      (.bind fun _ => hend start)
  · exact .bind fun _ => .ite (.bind fun _ => hend start) (hnames start)

theorem decoratedStatement_plain : IsPlain (decoratedStatement g ctx placement) := by
  refine .bind fun _ => .bind fun _ => .bind fun _ => .ite exportDeclaration_plain ?_
  exact .bind fun _ => .ite classDeclaration_plain (.bind fun _ => classDeclaration_plain)

theorem letStatement_restored (hg : g.Sound) (hp : g.Restores source) (hs : s.Within source) :
    (letStatement g {} placement).Ensures s fun st _ => DeclaresRestored source st := by
  simp only [letStatement, ensures_bind, ensures_current, ensures_peek, ensures_ite, ensures_pure]
  intro l _
  split
  · exact .of_forall fun _ _ => .of_forall fun _ _ => trivial
  split
  · exact .of_forall fun _ _ => trivial
  split
  · exact .of_forall fun _ _ => .of_forall fun _ _ => trivial
  · exact (advance_settled hs).of fun _ s1 h1 => listedVariables_restored hg hp h1

theorem skipResourceKeywords_settled (hs : s.Within source) :
    (skipResourceKeywords {} kind).Ensures s fun _ s' => s'.Settled source := by
  simp only [skipResourceKeywords, ensures_bind, ensures_ite, ensures_unexpected]
  split
  · refine of_check ((advance_settled hs).of fun _ s1 h1 => ?_)
    exact advance_settled h1.toWithin
  · exact advance_settled hs

theorem resourceStatement_restored (hg : g.Sound) (hp : g.Restores source) (hs : s.Within source) :
    (resourceStatement g {} placement).Ensures s fun st _ => DeclaresRestored source st := by
  simp only [resourceStatement, ensures_bind, ensures_position]
  refine resourceKind?_ensures.of fun answer s1 h1 => ?_
  obtain ⟨rfl, -⟩ := h1
  cases answer with
  | none => exact expressionOrLabel_plain.restored
  | some kind =>
    refine ensures_bind.2 ((skipResourceKeywords_settled hs).of fun _ s2 h2 => ?_)
    exact listedVariables_restored hg hp h2

theorem keywordStatement_restored (hg : g.Sound) (hp : g.Restores source) (hs : s.Within source)
    {word : String} :
    (keywordStatement g {} placement word).Ensures s fun st _ => DeclaresRestored source st := by
  simp only [keywordStatement, ensures_bind, ensures_position]
  split
  case h_1 => exact ifStatement_plain.restored
  case h_2 => exact doStatement_plain.restored
  case h_3 => exact whileStatement_plain.restored
  case h_4 => exact forStatement_plain.restored
  case h_5 | h_6 => exact jumpStatement_plain.restored
  case h_7 => exact withStatement_plain.restored
  case h_8 => exact switchStatement_plain.restored
  case h_9 => exact throwStatement_plain.restored
  case h_10 => exact tryStatement_plain.restored
  case h_11 => exact returnStatement_plain.restored
  case h_12 =>
    simp only [ensures_bind, ensures_pure]
    exact .of_forall fun _ _ => .of_forall fun _ _ => trivial
  case h_13 => exact classDeclaration_plain.restored
  case h_14 => exact functionDeclaration_plain.restored
  case h_15 =>
    rw [ensures_bind]
    exact (advance_settled hs).of fun _ s1 h1 => variableStatement_restored hg hp h1
  case h_16 =>
    rw [ensures_bind]
    exact (advance_settled hs).of fun _ s1 h1 => listedVariables_restored hg hp h1
  case h_17 => exact letStatement_restored hg hp hs
  case h_18 => exact exportDeclaration_plain.restored
  case h_19 =>
    simp only [ensures_bind, ensures_peek, ensures_ite]
    intro l _
    split
    · exact expressionOrLabel_plain.restored
    · exact importDeclaration_plain.restored
  case h_20 =>
    simp only [ensures_bind, ensures_peek, ensures_ite]
    intro l _
    split
    · exact functionDeclaration_plain.restored
    · exact expressionOrLabel_plain.restored
  case h_21 | h_22 => exact resourceStatement_restored hg hp hs
  case h_23 => exact expressionOrLabel_plain.restored

theorem statement_restored (hg : g.Sound) (hp : g.Restores source) (hs : s.Within source) :
    (statement g {} placement).Ensures s fun st _ => DeclaresRestored source st := by
  simp only [statement, ensures_bind, ensures_current]
  split
  · simp only [ensures_bind, ensures_pure]
    exact .of_forall fun _ _ => trivial
  · simp only [ensures_bind, ensures_pure]
    exact .of_forall fun _ _ => trivial
  · exact decoratedStatement_plain.restored
  · exact keywordStatement_restored hg hp hs
  · exact expressionOrLabel_plain.restored

/-- The declarations among the statements of a snippet. -/
theorem directivesAndStatements_restored (n : Nat) (hs : s.Within source) {isClosed : Bool} :
    (directivesAndStatements (Productions.upTo n) {} isClosed).Ensures s fun r _ =>
      ∀ st ∈ r.2, DeclaresRestored source st := by
  have hnested {s1 : State} (h1 : s1.Within source) :
      ((Productions.upTo n).statement {} .listed).Ensures s1 fun st s2 =>
        s2.Within source ∧ DeclaresRestored source st := by
    cases n with
    | zero => exact ensures_unexpected.2 trivial
    | succ n =>
      refine (((Productions.sound_upTo (n + 1)).statement {} .listed h1.sound).and
        (statement_restored (Productions.sound_upTo n) (Productions.restores_upTo n) h1)).of ?_
      exact fun st s2 h2 => ⟨h1.after h2.1.toReads, h2.2⟩
  refine ensures_repeatFrom (fun (r : List Span × List Statement) s' =>
    s'.Within source ∧ ∀ st ∈ r.2, DeclaresRestored source st)
    ⟨hs, List.forall_mem_nil _⟩ fun r s1 h1 => ?_
  obtain ⟨directives, statements⟩ := r
  obtain ⟨h1, hstatements⟩ := h1
  simp only [ensures_bind, ensures_current, ensures_ite, ensures_pure, Sum.elim_inr]
  split
  · exact fun st hst => hstatements st (List.mem_reverse.1 hst)
  refine (hnested h1).of fun st s2 h2 => ?_
  obtain ⟨h2, hst⟩ := h2
  split
  · simp only [ensures_ite, ensures_pure, Sum.elim_inl]
    split
    · exact ⟨h2, List.forall_mem_nil _⟩
    · exact ⟨h2, List.forall_mem_singleton.2 trivial⟩
  · exact ensures_pure.2 ⟨h2, List.forall_mem_cons.2 ⟨hst, hstatements⟩⟩

end Rebind.Grammar

namespace Rebind.Snippet

open Rebind.Grammar

/-- The patterns that the statements of a snippet declare are read again. -/
theorem Program.parse_restored {source : List Char} {p : Program} (hp : parse source = .ok p) :
    ∀ st ∈ p.statements, DeclaresRestored source st := by
  obtain ⟨-, hp⟩ := parse_eq_ok.1 hp
  obtain ⟨lexeme, hlexeme, hp⟩ := exists_ok_of_bind hp
  obtain ⟨⟨⟨directives, statements⟩, s'⟩, hread, hp⟩ := exists_ok_of_bind hp
  cases hp
  obtain ⟨hhere, hstands⟩ := Lexeme.first_stands hlexeme
  have hs : (State.mk lexeme 0 (Text.byteSize source) [] []).Within source :=
    ⟨⟨hstands, Nat.zero_le _⟩, rfl, hhere, Lexeme.first_scanned hlexeme⟩
  exact directivesAndStatements_restored _ hs _ _ hread

end Rebind.Snippet
