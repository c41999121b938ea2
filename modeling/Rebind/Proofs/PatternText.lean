import Rebind.Proofs.Copying.Declared
import Rebind.Proofs.Copying.Operand
import Rebind.Proofs.KnownNames

/-!
# Patterns of single declarations

The first pattern of a declaration is written anew as a text that declares it again.
-/

namespace Rebind.Grammar

open Rebind.Text (Span byteSize byteSize_append byteSize_cons)
open Rebind.Snippet
open Rebind.Grammar.Parser

variable {t : State}

/-! ## A declaration of one pattern -/

theorem startsPattern_goesOn {token : Token} (h : startsPattern token = true) :
    isOperatorAfterLet {} token = false ∧ isMark token "." = false ∧ isMark token "(" = false ∧
      isMark token ";" = false := by
  cases token with
  | word name isEscaped =>
    refine ⟨?_, rfl, rfl, rfl⟩
    have hname : isName {} name = true := h
    have hin : name ≠ "in" := by
      rintro rfl
      cases hname
    have hof : name ≠ "instanceof" := by
      rintro rfl
      cases hname
    simp [isOperatorAfterLet, isAssignmentOperator, strength?, hin, hof]
  | punctuator mark =>
    obtain h | h : mark = "[" ∨ mark = "\x7b" := by
      simpa [startsPattern, isMark] using h
    · subst h
      decide
    · subst h
      decide
  | _ => cases h

/-- What stands behind the pattern. -/
def initializer : List Char := [' ', '=', ' ', '0']

theorem follows_initializer : Follows patternMarks initializer :=
  ⟨⟨' ', by decide, rfl⟩, fun offset => ⟨_, scan_equals (offset + 1) _⟩⟩

theorem scan_zero (offset : Nat) :
    Lexeme.scan offset ['0'] = .ok ⟨.number, offset, offset + 1, false, ['0'], []⟩ := rfl

/-- A pattern with a value behind it is a declaration. -/
theorem declaration_answers {shown : PatternLook} (h : PatternRestored shown [] [])
    {source : List Char} (ht : t.Ahead source [] (shown.text ++ initializer)) {n : Nat}
    (hn : 2 * byteSize (shown.text ++ initializer) ≤ n) :
    (declaration (Productions.upTo n) {} .lexical true).Answers t fun d t' =>
      (∃ p e, d = ⟨.lexical, [⟨p, some e⟩]⟩ ∧ look source p = shown) ∧
        t'.lexeme.token = .endOfInput := by
  rw [declaration, answers_repeatFrom, answers_iterate]
  have hresource : (DeclarationKind.lexical == .resource ||
      DeclarationKind.lexical == .awaitedResource) = false := rfl
  simp only [declarator, answers_bind, answers_eatMark, answers_ite, answers_pure, hresource,
    Bool.false_eq_true, ↓reduceIte]
  refine (h.restored source n initializer t ht follows_initializer hn).of fun p t1 h1 => ?_
  obtain ⟨h1, hp⟩ := h1
  have hequals := h1.skip_blank
  obtain ⟨htoken, hrest⟩ : t1.lexeme.token = .punctuator "=" ∧ t1.lexeme.rest = [' ', '0'] := by
    obtain ⟨offset, -, -, hl⟩ := hequals.scan
    rw [Except.ok.inj (hl.symm.trans (scan_equals _ _))]
    exact ⟨rfl, rfl⟩
  have hmark : isMark t1.lexeme.token "=" = true := by
    rw [htoken]
    rfl
  have hscans : Scans [' ', '0'] := fun _ => ⟨_, rfl⟩
  simp only [hmark, ↓reduceIte]
  refine (hequals.advance hrest hscans).of fun _ t2 h2 => ?_
  obtain ⟨offset, -, -, hl⟩ := h2.1.skip_blank.scan
  have hnumber := Except.ok.inj (hl.symm.trans (scan_zero offset))
  have hlast : advance.Answers t2 fun _ t' => t'.Stops ∧ t'.hosts = [] ∧
      t'.lexeme.token = .endOfInput := by
    rw [answers_advance]
    refine ⟨⟨.endOfInput, t2.lexeme.stop, t2.lexeme.stop, false, [], []⟩, ?_, .inl rfl,
      h2.1.hosts_eq, rfl⟩
    rw [State.Next, hnumber]
    rfl
  have hoperand : IsOperand t2.lexeme.token := .inl (by rw [hnumber])
  obtain ⟨m, rfl⟩ : ∃ m, n = m + 1 := by
    have hpos := byteSize_pos (List.append_ne_nil_of_right_ne_nil shown.text
      (show initializer ≠ [] by simp [initializer]))
    exact ⟨n - 1, by omega⟩
  have haccess : (access (Productions.upTo m) {} true).Answers t2 fun a t' =>
      t'.Stops ∧ t'.hosts = [] ∧ a.pending = none ∧ t'.lexeme.token = .endOfInput := by
    refine (access_operand hoperand hlast).of fun a t3 h3 => ?_
    obtain ⟨hstops, hpending, -, hhosts, hend⟩ := h3
    exact ⟨hstops, hhosts, hpending, hend⟩
  refine (copied_operand (Q := fun _ t' => t'.lexeme.token = .endOfInput) hoperand
    h2.1.hosts_eq haccess).of fun e t3 h3 => ?_
  obtain ⟨-, hend⟩ := h3
  have hcomma : isMark t3.lexeme.token "," = false := by
    rw [hend]
    rfl
  simp only [requireValue, Option.isSome_some, ↓reduceIte, answers_pure, hcomma,
    Bool.false_eq_true]
  exact ⟨⟨p, e, rfl, hp⟩, hend⟩

/-- A declaration of one pattern with a value is a snippet. -/
theorem statement_answers {shown : PatternLook} (h : PatternRestored shown [] [])
    {source : List Char} {n : Nat} (hword : t.lexeme.token = .word "let" false)
    (hrest : t.lexeme.rest = ' ' :: (shown.text ++ initializer))
    (ht : ∀ l, t.Next l → State.Ahead source [] (shown.text ++ initializer)
      { t with lexeme := l, lastStop := t.lexeme.stop })
    (hn : 2 * byteSize (shown.text ++ initializer) ≤ n) :
    ((Productions.upTo (n + 1)).statement {} .listed).Answers t fun st t' =>
      (∃ start p e, st = .declaration start ⟨.lexical, [⟨p, some e⟩]⟩ ∧ look source p = shown) ∧
        t'.lexeme.token = .endOfInput := by
  have hkeyword : keywordStatement (Productions.upTo n) {} .listed "let" =
      position >>= fun _ => letStatement (Productions.upTo n) {} .listed := rfl
  change (statement (Productions.upTo n) {} .listed).Answers t _
  simp only [statement, answers_bind, answers_current, hword, hkeyword, answers_position,
    letStatement, answers_peek]
  obtain ⟨l, hl, hstarts⟩ := h.opens (t.lexeme.stop + 1) initializer
    (follows_initializer.mono (by simp [patternMarks, endMarks]))
  have hnext : t.Next l := by
    rw [State.Next, hrest, scan_blank]
    exact hl
  obtain ⟨hoperator, hpoint, hcall, hsemicolon⟩ := startsPattern_goesOn hstarts
  refine ⟨l, hnext, ?_⟩
  have hlisted : (Placement.listed == .alone) = false := rfl
  simp only [hoperator, hpoint, hcall, hsemicolon, hlisted, Bool.or_self, Bool.false_and,
    Bool.false_eq_true, ↓reduceIte, answers_bind, answers_advance]
  refine ⟨l, hnext, ?_⟩
  simp only [listedVariables, variableStatement, answers_bind]
  refine (declaration_answers h (ht l hnext) hn).of fun d t1 h1 => ?_
  obtain ⟨⟨p, e, rfl, hp⟩, hend⟩ := h1
  simp only [endStatement, atImplicitEnd, requireListed, answers_bind, answers_eatMark, answers_ite,
    answers_current, answers_pure, hend, hlisted, beq_self_eq_true, Bool.or_true,
    Bool.true_or, Bool.false_eq_true, ↓reduceIte]
  exact ⟨⟨_, p, e, rfl, hp⟩, trivial⟩

end Rebind.Grammar

namespace Rebind.Snippet

open Rebind.Text (byteSize)
open Rebind.Grammar
open Rebind.Grammar.Parser

/-- A declaration of one pattern. -/
def declaring (text : List Char) : List Char :=
  'l' :: 'e' :: 't' :: ' ' :: (text ++ initializer)

/-- The state at the head of a text that declares a pattern. -/
def declaringState (text : List Char) : State where
  lexeme := ⟨.word "let" false, 0, 3, false, declaring text, ' ' :: (text ++ initializer)⟩
  lastStop := 0
  limit := byteSize (declaring text)
  hosts := []
  exports := []

theorem first_declaring (text : List Char) :
    Lexeme.first (declaring text) = .ok (declaringState text).lexeme := by
  have hsevered : Severed (' ' :: (text ++ initializer)) := by
    rintro _ ⟨rfl⟩
    decide
  exact scan_name (show Unicode.isNameStart 'l' = true by decide)
    (List.forall_mem_cons.2 ⟨by decide, List.forall_mem_singleton.2 (by decide)⟩) hsevered 0

/-- A text that declares a pattern is a snippet of one statement. -/
theorem Program.parse_declaring {shown : PatternLook} (h : PatternRestored shown [] [])
    (hsize : byteSize (declaring shown.text) ≤ maxOffset) :
    ∃ p start pattern e, parse (declaring shown.text) = .ok p ∧
      p.statements = [.declaration start ⟨.lexical, [⟨pattern, some e⟩]⟩] ∧
        look (declaring shown.text) pattern = shown := by
  have hlater : byteSize (declaring shown.text) = 4 + byteSize (shown.text ++ initializer) := by
    have hl : 'l'.utf8Size = 1 := by decide
    have he : 'e'.utf8Size = 1 := by decide
    have ht : 't'.utf8Size = 1 := by decide
    have hblank : ' '.utf8Size = 1 := by decide
    simp only [declaring, Text.byteSize_cons, hl, he, ht, hblank]
    omega
  have hread : (directivesAndStatements
      (Productions.upTo (2 * byteSize (declaring shown.text) + 4)) {} false).Answers
      (declaringState shown.text) fun r _ =>
      ∃ start pattern e, r.2 = [.declaration start ⟨.lexical, [⟨pattern, some e⟩]⟩] ∧
        look (declaring shown.text) pattern = shown := by
    rw [directivesAndStatements, answers_repeatFrom, answers_iterate]
    have hword : ((declaringState shown.text).lexeme.token == .endOfInput ||
      (false && isMark (declaringState shown.text).lexeme.token "\x7d")) = false := rfl
    simp only [answers_bind, answers_current, hword, Bool.false_eq_true, ↓reduceIte]
    have hnext (l : Lexeme) (hl : (declaringState shown.text).Next l) :
        State.Ahead (declaring shown.text) [] (shown.text ++ initializer)
          { declaringState shown.text with lexeme := l, lastStop := 3 } := {
      scan := ⟨4, by dsimp only; omega, by omega, hl⟩
      suffix := ⟨['l', 'e', 't', ' '], rfl⟩
      limit_eq := rfl
      hosts_eq := rfl
      exports_sub := List.Subset.refl _ }
    refine (statement_answers (t := declaringState shown.text)
      (n := 2 * byteSize (declaring shown.text) + 3) h rfl rfl hnext
      (by omega)).of fun st t1 h1 => ?_
    obtain ⟨⟨start, pattern, e, rfl, hlook⟩, hend⟩ := h1
    simp only [answers_pure]
    rw [answers_iterate]
    simp only [answers_bind, answers_current, hend, beq_self_eq_true, Bool.true_or, ↓reduceIte,
      answers_pure]
    exact ⟨start, pattern, e, rfl, hlook⟩
  obtain ⟨⟨directives, statements⟩, t, hrun, start, pattern, e, hstatements, hlook⟩ := hread
  refine ⟨⟨directives, statements⟩, start, pattern, e, parse_eq_ok.2 ⟨hsize, ?_⟩, hstatements,
    hlook⟩
  simp only [read, first_declaring, StateT.run]
  change (directivesAndStatements _ _ _ (declaringState shown.text) >>= _) = _
  rw [hrun]
  rfl

end Rebind.Snippet

namespace Rebind

open Rebind.Text (byteSize)
open Rebind.Snippet
open Rebind.Grammar

variable {source : List Char} {p : Pattern}

/-- The first pattern is the first target of a declaration. -/
theorem exists_declaration_of_firstPattern (h : firstPattern source = .ok p) :
    ∃ program start d declarator, parse source = .ok program ∧
      .declaration start d ∈ program.statements ∧ declarator ∈ d.declarators ∧
        declarator.target = p := by
  obtain ⟨program, hprogram, h⟩ := exists_ok_of_bind h
  split at h
  · next start d hfirst =>
    split at h
    · next declarator hdeclarator =>
      cases h
      exact ⟨program, start, d, declarator, hprogram, List.mem_of_mem_head? hfirst,
        List.mem_of_mem_head? hdeclarator, rfl⟩
    · cases h
  · cases h
  · cases h

/-- The first pattern is read again where it is printed, if the expressions in it are. -/
theorem firstPattern_restored (h : firstPattern source = .ok p) (hp : ReadAgain source p.parts) :
    PatternRestored (look source p) [] [] := by
  obtain ⟨program, start, d, declarator, hprogram, hd, hdeclarator, rfl⟩ :=
    exists_declaration_of_firstPattern h
  exact Program.parse_restored (parse_eq_ok.1 hprogram) _ hd declarator hdeclarator hp

/-- The parts of the first pattern lie in the source. -/
theorem firstPattern_areRead (h : firstPattern source = .ok p) : AreRead source p.parts := by
  obtain ⟨program, start, d, declarator, hprogram, hd, hdeclarator, rfl⟩ :=
    exists_declaration_of_firstPattern h
  intro part hpart
  refine Program.areRead (parse_eq_ok.1 hprogram) part (List.mem_append_right _ ?_)
  rw [listParts_eq]
  refine List.mem_flatMap.2 ⟨_, hd, List.mem_flatMap.2 ⟨declarator, hdeclarator, ?_⟩⟩
  exact List.mem_append_left _ hpart

/-- The expressions in the first pattern are printed as the reference says, so they are read again
if the grammar reads the reference. -/
theorem readAgain_of_reference (h : firstPattern source = .ok p)
    (hp : ∀ e, .expression e ∈ p.parts → ReadsAlone (e.reference "__module__".toList source)) :
    ReadAgain source p.parts := by
  intro e he
  have htext : expressionLook source e = e.reference "__module__".toList source :=
    Code.textOf_expression ((firstPattern_areRead h _ he).nested)
  rw [htext]
  exact (hp e he).restored

/-- The text and the names that are given for a declaration. -/
theorem patternText_eq (d : String) :
    patternNames d = (firstPattern d.toList >>= fun p => .ok p.names) ∧
      patternText d =
        (firstPattern d.toList >>= fun p => .ok (String.ofList (look d.toList p).text)) := by
  refine ⟨rfl, ?_⟩
  rw [patternText]
  cases hfirst : firstPattern d.toList with
  | error e => rfl
  | ok p =>
    have hname : Code.NameShown ({} : Options).filling := ⟨'_', "_module__".toList, rfl, by decide⟩
    have htext := Code.textOf_pattern_known hname (firstPattern_areRead hfirst)
    exact congrArg (fun text => Except.ok (String.ofList text)) htext

/-- A text that declares a pattern is given for itself, if it is no longer than a source can be. -/
theorem firstPattern_declaring {shown : PatternLook} (h : PatternRestored shown [] []) :
    (byteSize (declaring shown.text) ≤ maxOffset ∧ ∃ p,
        firstPattern (declaring shown.text) = .ok p ∧ look (declaring shown.text) p = shown) ∨
      (¬ byteSize (declaring shown.text) ≤ maxOffset ∧ firstPattern (declaring shown.text) =
        .error (.ofFault (declaring shown.text) ⟨.tooLong, ⟨0, 0⟩⟩)) := by
  by_cases hsize : byteSize (declaring shown.text) ≤ maxOffset
  · obtain ⟨⟨directives, statements⟩, start, p, e, hparse, hstatements, hlook⟩ :=
      Program.parse_declaring h hsize
    obtain rfl : statements = _ := hstatements
    refine .inl ⟨hsize, p, ?_, hlook⟩
    rw [firstPattern, parse_eq_ok.2 hparse]
    rfl
  · refine .inr ⟨hsize, ?_⟩
    rw [firstPattern, parse, Program.parse, if_neg hsize]
    rfl

/-- **Patterns are written anew without loss.**  The text and the names of a pattern are given for
the same declarations, and are given again for the text that declares the pattern, unless that text
is longer than any source can be.  This assumes of the grammar that it reads each expression in the
pattern, with its host forms replaced as the reference says, as one expression. -/
theorem pattern_text_is_read_again (d : String) :
    (∀ fault, patternText d = .error fault ↔ patternNames d = .error fault) ∧
      ∀ text names, patternText d = .ok text → patternNames d = .ok names →
        (∀ p, firstPattern d.toList = .ok p → ∀ e, .expression e ∈ p.parts →
          ReadsAlone (e.reference "__module__".toList d.toList)) →
        let again := "let " ++ text ++ " = 0"
        let tooLong := RebindError.ofFault again.toList ⟨.tooLong, ⟨0, 0⟩⟩
        (patternNames again = if byteSize again.toList ≤ maxOffset then .ok names
          else .error tooLong) ∧
        (patternText again = if byteSize again.toList ≤ maxOffset then .ok text
          else .error tooLong) := by
  obtain ⟨hnames, htext⟩ := patternText_eq d
  rw [hnames, htext]
  cases hfirst : firstPattern d.toList with
  | error fault =>
    refine ⟨fun _ => ⟨fun h => ?_, fun h => ?_⟩, fun text names h => ?_⟩
    · cases h
      rfl
    · cases h
      rfl
    · cases h
  | ok p =>
    refine ⟨fun _ => ⟨fun h => ?_, fun h => ?_⟩, fun text names ht hn hp => ?_⟩
    · cases h
    · cases h
    cases ht
    cases hn
    have hagain : ("let " ++ String.ofList (look d.toList p).text ++ " = 0").toList =
        declaring (look d.toList p).text := by
      simp [declaring, initializer]
    obtain ⟨hnames, htext⟩ :=
      patternText_eq ("let " ++ String.ofList (look d.toList p).text ++ " = 0")
    have hrestored := firstPattern_restored hfirst (readAgain_of_reference hfirst (hp p rfl))
    dsimp only
    rw [hnames, htext, hagain]
    rcases firstPattern_declaring hrestored with ⟨hsize, q, hq, hlook⟩ | ⟨hsize, hq⟩
    · rw [hq, if_pos hsize, if_pos hsize]
      refine ⟨congrArg Except.ok ?_, congrArg Except.ok ?_⟩
      · exact congrArg PatternLook.names hlook
      · rw [hlook]
    · rw [hq, if_neg hsize, if_neg hsize]
      exact ⟨rfl, rfl⟩

/-- The expression that a part is, with its host forms replaced. -/
def referenceText? (source : List Char) : Part → Option String
  | .expression e => some (String.ofList (e.reference "__module__".toList source))
  | _ => none

/-- A computed key, a default value with a host form and a hole stay where they are. -/
theorem nested_pattern_is_read_again :
    let d := "let \x7b [k] : a = import.meta.url, b: [ , c = 1, , ...r ] \x7d = f()"
    let text := "\x7b[k]: a = __module__.meta.url, b: [, c = 1, , ...r]\x7d"
    patternText d = .ok text ∧ patternNames d = .ok ["a", "c", "r"] ∧
      patternNames ("let " ++ text ++ " = 0") = .ok ["a", "c", "r"] ∧
        patternText ("let " ++ text ++ " = 0") = .ok text := by
  intro d text
  have htext : patternText d = .ok text := Code.eq_ok_of_toOption (by decide +kernel)
  have hnames : patternNames d = .ok ["a", "c", "r"] :=
    Code.eq_ok_of_toOption (by decide +kernel)
  have hsize : byteSize ("let " ++ text ++ " = 0").toList ≤ maxOffset := by decide +kernel
  have hkey : ReadsAlone ("k".toList ++ membersText []) :=
    readsAlone_name ⟨by decide, 'k', [], rfl, by decide, List.forall_mem_nil _⟩ (by decide)
      (List.forall_mem_nil _)
  have hhost : ReadsAlone ("__module__".toList ++ membersText ["meta", "url"]) := by
    have hparts : ∀ c ∈ "_module__".toList, Unicode.isNamePart c = true :=
      List.all_eq_true.1 (by decide)
    refine readsAlone_name ⟨by decide, '_', "_module__".toList, rfl, by decide, hparts⟩
      (by decide) ?_
    intro member hmember
    obtain rfl | rfl : member = "meta" ∨ member = "url" := by simpa using hmember
    · exact ⟨'m', "eta".toList, rfl, by decide, List.all_eq_true.1 (by decide)⟩
    · exact ⟨'u', "rl".toList, rfl, by decide, List.all_eq_true.1 (by decide)⟩
  have hscan : Lexeme.scan 0 ['1'] = .ok ⟨.number, 0, 1, false, ['1'], []⟩ := rfl
  have hone : ReadsAlone ['1'] := readsAlone_number (Lexeme.ungapped_of_scan hscan) rfl
  have hread : ∀ p, firstPattern d.toList = .ok p → ∀ e, .expression e ∈ p.parts →
      ReadsAlone (e.reference "__module__".toList d.toList) := by
    intro p hp e he
    have hparts : (firstPattern d.toList).toOption.map
        (fun p => p.parts.filterMap (referenceText? d.toList)) =
        some ["k", "__module__.meta.url", "1"] := by decide +kernel
    rw [hp] at hparts
    have hmem : String.ofList (e.reference "__module__".toList d.toList) ∈
        ["k", "__module__.meta.url", "1"] :=
      Option.some.inj hparts ▸ List.mem_filterMap.2 ⟨_, he, rfl⟩
    rw [← String.toList_ofList (l := e.reference _ _)]
    generalize String.ofList (e.reference "__module__".toList d.toList) = shown at hmem
    simp only [List.mem_cons, List.not_mem_nil, or_false] at hmem
    rcases hmem with rfl | rfl | rfl
    · exact hkey
    · exact hhost
    · exact hone
  obtain ⟨hnames', htext'⟩ := (pattern_text_is_read_again d).2 text _ htext hnames hread
  rw [if_pos hsize] at hnames' htext'
  exact ⟨htext, hnames, hnames', htext'⟩

end Rebind
