import Rebind.Proofs.Emission
import Rebind.Proofs.Layout
import Rebind.Proofs.LinePartition
import Rebind.Proofs.Reading.Token

/-!
# Registered names read back from the code

A registration call lists its names as string literals, and a function of the snippet is assigned
to a property whose key is such a literal.  The scanner of the grammar reads a literal back as the
name it was written for and stops right behind it, so neither a quote nor a separator inside a name
is taken for the end of a literal (`quotedName?_quoted`, `quotedName?_eq_none`), and a list of
literals has one reading (`quotedNames?_intercalate`).  The scanner knows nothing of how names are
written: it reads literals with any escapes.

A line break is the one thing that a literal cannot hold and that is not escaped.  No word of a
snippet has one in it (`unbroken_of_word`).
-/

namespace Rebind.Snippet

open Rebind.Text (Unbroken byteSize byteSize_nil byteSize_cons byteSize_append quoted quotedChar
  toList_quoted addCode addCode_toNat areCharacters areCharacters_toNat)

variable {start offset stop : Nat} {cs rest more : List Char} {name : String}

/-! ## The literal of a name -/

section Literal

variable {quote : Char} {codes : List Nat}

theorem scanString_of_code {n width : Nat} (h : stringStep quote cs = .code n width rest) :
    scanString quote start offset codes cs =
      scanString quote start (offset + width) (addCode n codes) rest := by
  rw [scanString]
  split <;> simp_all

theorem scanString_of_close (h : stringStep quote cs = .close rest) :
    scanString quote start offset codes cs =
      .ok (.string (String.ofList (codes.reverse.map Char.ofNat)) (areCharacters codes),
        offset + 1, rest) := by
  rw [scanString]
  split <;> simp_all
  rfl

end Literal

/-- The form of a character is one place of a literal, with the code of the character. -/
theorem stringStep_quotedChar {c : Char} (hbreak : ¬ (c = '\n' ∨ c = '\r')) (rest : List Char) :
    stringStep '"' (quotedChar c ++ rest) = .code c.toNat (byteSize (quotedChar c)) rest := by
  unfold quotedChar
  by_cases hquote : c = '"'
  · subst hquote
    rfl
  by_cases hslash : c = '\\'
  · subst hslash
    rfl
  by_cases hline : c = '\u2028'
  · subst hline
    rfl
  by_cases hparagraph : c = '\u2029'
  · subst hparagraph
    rfl
  rw [not_or] at hbreak
  rw [if_neg hquote, if_neg hslash, if_neg hline, if_neg hparagraph, List.singleton_append]
  simp [stringStep, hquote, hbreak]

/-- The forms of characters are read as the characters, up to the closing mark. -/
theorem scanString_flatMap {text : List Char} (h : Unbroken text) (start offset : Nat)
    (read rest : List Char) :
    scanString '"' start offset (read.map Char.toNat) (text.flatMap quotedChar ++ '"' :: rest) =
      .ok (.string (String.ofList (read.reverse ++ text)) true,
        offset + byteSize (text.flatMap quotedChar) + 1, rest) := by
  induction text generalizing read offset with
  | nil =>
    have hclose : stringStep '"' ('"' :: rest) = .close rest := rfl
    have hvalue : (read.map Char.toNat).reverse.map Char.ofNat = read.reverse := by
      simp [← List.map_reverse, Function.comp_def]
    rw [List.flatMap_nil, List.nil_append, scanString_of_close hclose, hvalue,
      areCharacters_toNat, List.append_nil]
    rfl
  | cons c text ih =>
    obtain ⟨hbreak, htext⟩ := Text.unbroken_cons.1 h
    rw [List.flatMap_cons, List.append_assoc, scanString_of_code (stringStep_quotedChar hbreak _),
      addCode_toNat, ← List.map_cons, ih htext, byteSize_append, List.reverse_cons,
      List.append_assoc, List.singleton_append, Nat.add_assoc offset]

/-- The literal of a name is one token, whatever follows it. -/
theorem scanToken_quoted (h : Unbroken name.toList) (start : Nat) (rest : List Char) :
    scanToken start ((quoted name).toList ++ rest) =
      .ok (.string name true, start + byteSize (quoted name).toList, rest) := by
  have hmark : '"'.utf8Size = 1 := by decide
  have hscan := scanString_flatMap h start (start + 1) [] rest
  rw [List.map_nil, List.reverse_nil, List.nil_append, String.ofList_toList] at hscan
  rw [toList_quoted, List.cons_append, List.append_assoc, List.singleton_append, scanToken, hscan,
    byteSize_cons, byteSize_append, byteSize_cons, byteSize_nil, hmark]
  congr 3
  omega

/-! ## Reading literals in double quotes -/

/-- The value of the literal in double quotes at the head of a text, and the text past it. -/
def quotedName? (cs : List Char) : Option (String × List Char) :=
  match cs.head?, scanToken 0 cs with
  | some '"', .ok (.string value true, _, rest) => some (value, rest)
  | _, _ => none

theorem quotedName?_quoted (h : Unbroken name.toList) (rest : List Char) :
    quotedName? ((quoted name).toList ++ rest) = some (name, rest) := by
  have hhead : ((quoted name).toList ++ rest).head? = some '"' := by
    rw [toList_quoted]
    rfl
  rw [quotedName?, hhead, scanToken_quoted h]
  rfl

/-- What is read as a name is a literal. -/
theorem isLiteral_of_quotedName? (h : quotedName? cs = some (name, rest)) :
    ∃ read, IsLiteral read ∧ cs = read ++ rest := by
  unfold quotedName? at h
  split at h
  · next hscan =>
    cases h
    obtain ⟨read, hread, hcs, -⟩ := scanToken_literal hscan
    exact ⟨read, hread, hcs⟩
  · cases h

theorem length_lt_of_quotedName? (h : quotedName? cs = some (name, rest)) :
    rest.length < cs.length := by
  obtain ⟨read, hread, rfl⟩ := isLiteral_of_quotedName? h
  obtain ⟨c, more, rfl, -⟩ := hread.head
  rw [List.length_append, List.length_cons]
  omega

/-- No literal stands at the head of a beginning of the literal of a name. -/
theorem quotedName?_eq_none {front : List Char} (h : Unbroken name.toList)
    (hfront : front <+: (quoted name).toList) (hne : front ≠ (quoted name).toList) :
    quotedName? front = none := by
  rw [Option.eq_none_iff_forall_ne_some]
  rintro ⟨value, more⟩ hvalue
  obtain ⟨back, hback⟩ := hfront
  obtain ⟨read, hread, rfl⟩ := isLiteral_of_quotedName? hvalue
  have hwhole := quotedName?_quoted h []
  rw [List.append_nil] at hwhole
  obtain ⟨all, hall, hquoted⟩ := isLiteral_of_quotedName? hwhole
  rw [List.append_nil] at hquoted
  -- A text starts with one literal only, so nothing is left past the shorter one.
  have hshort := hread (more ++ back)
  have hlong := hall []
  rw [← List.append_assoc, hback] at hshort
  rw [List.append_nil, ← hquoted, hshort] at hlong
  obtain ⟨-, hnil⟩ := Prod.mk.inj (Option.some.inj hlong)
  obtain ⟨rfl, rfl⟩ := List.append_eq_nil_iff.1 hnil
  rw [List.append_nil] at hback
  exact hne hback

/-- The values of the literals in double quotes at the head of a text, each but the last with a
comma and a blank behind it, and the text past them. -/
def quotedNames? (cs : List Char) : Option (List String × List Char) :=
  match _h : quotedName? cs with
  | none => none
  | some (name, ',' :: ' ' :: more) => (quotedNames? more).map (Prod.map (name :: ·) id)
  | some (name, rest) => some ([name], rest)
termination_by cs.length
decreasing_by
  have hlt := length_lt_of_quotedName? _h
  simp only [List.length_cons] at hlt
  omega

theorem quotedNames?_last (h : quotedName? cs = some (name, rest))
    (hrest : ¬ [',', ' '] <+: rest) : quotedNames? cs = some ([name], rest) := by
  rw [quotedNames?]
  split
  · next hnone => cases h.symm.trans hnone
  · next hsome =>
    cases h.symm.trans hsome
    exact absurd (List.prefix_append [',', ' '] _) hrest
  · next hsome =>
    cases h.symm.trans hsome
    rfl

theorem quotedNames?_cons {names : List String}
    (h : quotedName? cs = some (name, ',' :: ' ' :: more))
    (hmore : quotedNames? more = some (names, rest)) :
    quotedNames? cs = some (name :: names, rest) := by
  rw [quotedNames?]
  split
  · next hnone => cases h.symm.trans hnone
  · next hsome =>
    cases h.symm.trans hsome
    rw [hmore]
    rfl
  · next hne hsome =>
    cases h.symm.trans hsome
    exact absurd rfl (hne _)

/-- A list of literals is read as the names it was written for. -/
theorem quotedNames?_intercalate {names : List String} (hne : names ≠ [])
    (h : ∀ name ∈ names, Unbroken name.toList) (hrest : ¬ [',', ' '] <+: rest) :
    quotedNames? ((", ".intercalate (names.map quoted)).toList ++ rest) = some (names, rest) := by
  induction names with
  | nil => exact absurd rfl hne
  | cons name names ih =>
    obtain ⟨hname, hnames⟩ := List.forall_mem_cons.1 h
    cases names with
    | nil =>
      rw [List.map_singleton, String.intercalate_singleton]
      exact quotedNames?_last (quotedName?_quoted hname rest) hrest
    | cons next names =>
      have hmore := ih (List.cons_ne_nil _ _) hnames
      rw [List.map_cons, List.map_cons, String.intercalate_cons_cons, String.toList_append,
        String.toList_append, List.append_assoc, List.append_assoc]
      exact quotedNames?_cons (quotedName?_quoted hname _) hmore

/-- No word of a snippet has a line break in it. -/
theorem unbroken_of_word {isEscaped : Bool}
    (h : scanToken start cs = .ok (.word name isEscaped, stop, rest)) : Unbroken name.toList := by
  have hparts := isNamePart_of_word h
  constructor
  · intro hmem
    exact absurd (hparts '\n' hmem) (by decide)
  · intro hmem
    exact absurd (hparts '\r' hmem) (by decide)

end Rebind.Snippet

namespace Rebind

open Rebind.Layout
open Rebind.Snippet (quotedName? quotedNames? quotedName?_quoted quotedName?_eq_none
  quotedNames?_intercalate scanToken unbroken_of_word)
open Rebind.Text (Unbroken quoted)

/-! ## What is laid out -/

namespace Template

variable (filling : Filling) (source : List Char) (state : State) (sink : Sink)

/-- A registration call takes one line, past the blanks of the line. -/
theorem layOut_registration {names : List String} (h : names ≠ []) :
    (registration sink names).layOut filling source state =
      { state with
        text := state.text ++ (state.margin filling.indentWidth ++
          (filling.moduleObject ++ "." ++ sink.method ++ "(" ++
            ", ".intercalate (names.map quoted) ++ ");\n"))
        atLineStart := true } := by
  have hsplit : registration sink names =
      [Step.enter (.sink sink) names] ++
        (write [.slot .moduleObject, .text ("." ++ sink.method ++ "("),
          .text (", ".intercalate (names.map quoted)), .text ")", .text ";"] ++
          [Step.newline]) := by
    rw [registration, if_neg (by simpa using h)]
    rfl
  have henter : layOut filling source state [Step.enter (.sink sink) names] = state := rfl
  rw [hsplit, layOut_append, henter, layOut_append, layOut_write, State.run_write_of_ne,
    layOut_newline]
  · simp [Piece.fill, String.append_assoc]
  · simp [Piece.fill]

/-- A function of the snippet is assigned to the property that its name is the key of. -/
theorem layOut_functionStatement {mode : ScopeMode} {depth start : Nat} {role : Code.Role}
    {callable : Snippet.Callable} {name : String} {t : Template}
    (hmode : mode.redirectsVar = true) (hname : callable.name = some name)
    (h : Code.statement mode depth role (.function start callable) = .ok t) :
    ∃ value, (t.layOut filling source state).text =
      state.text ++ (state.margin filling.indentWidth ++
        (filling.globalObject ++ "[" ++ quoted name ++ "] = " ++ value)) := by
  obtain ⟨-, name', hname', body, -, rfl⟩ := Code.statement_function_ok.1 h
  obtain rfl : name' = name := Option.some.inj (hname'.symm.trans hname)
  let value := Code.functionHead callable false ++ body ++ endStatement
  have hsplit : Code.functionTarget name' ++ Code.functionHead callable false ++ body ++
        endStatement =
      [Step.enter (.sink .global) [name']] ++
        (write [.slot .globalObject, .text ("[" ++ quoted name' ++ "] = ")] ++ value) := by
    simp [Code.functionTarget, write, value]
  have henter : layOut filling source state [Step.enter (.sink .global) [name']] = state := rfl
  rw [if_pos hmode, hsplit, layOut_append, henter, layOut_append, layOut_write,
    State.run_write_of_ne]
  · obtain ⟨out, hout⟩ := layOut_text filling source _ value
    refine ⟨out, ?_⟩
    rw [hout]
    simp [Piece.fill, String.append_assoc]
  · simp [Piece.fill]

/-- Calls with one text register one list of names. -/
theorem eq_of_layOut_registration {names others : List String}
    (hnames : ∀ name ∈ names, Unbroken name.toList)
    (hothers : ∀ name ∈ others, Unbroken name.toList)
    (h : ((registration sink names).layOut filling source state).text =
      ((registration sink others).layOut filling source state).text) : names = others := by
  have hend : ¬ [',', ' '] <+: ");\n".toList := by decide
  -- A call with names writes something, so it is told from none.
  have hsome {names : List String} (hne : names ≠ []) :
      ((registration sink names).layOut filling source state).text ≠
        ((registration sink []).layOut filling source state).text := by
    rw [layOut_registration filling source state sink hne]
    intro hempty
    have hnothing := String.append_eq_left_iff.1 hempty
    simp at hnothing
  by_cases hother : others = []
  · subst hother
    by_cases hne : names = []
    · exact hne
    · exact absurd h (hsome hne)
  by_cases hne : names = []
  · subst hne
    exact absurd h.symm (hsome hother)
  rw [layOut_registration filling source state sink hne,
    layOut_registration filling source state sink hother, String.append_right_inj,
    String.append_right_inj, String.append_left_inj, String.append_right_inj] at h
  have hread := quotedNames?_intercalate hne hnames hend
  rw [h, quotedNames?_intercalate hother hothers hend] at hread
  exact (Prod.mk.inj (Option.some.inj hread)).1.symm

end Template

/-! ## The names of calls and targets -/

/-- **Registration calls decode to the names.**  The text of a call that registers names is the
module's method with arguments that are read, as literals in double quotes with commas between
them, as the names in their order with duplicates kept.  So different lists have different texts.
The literal of a name is read up to its last mark whatever follows, and no beginning of it is a
literal.  What a function of the snippet is assigned to has the function's name as its key in the
same way.  All this is for names without line breaks, and no word of a snippet has one. -/
theorem registered_names_are_decoded (filling : Filling) (source : List Char) (state : State)
    (sink : Sink) {names : List String} (hne : names ≠ [])
    (hnames : ∀ name ∈ names, Unbroken name.toList) :
    (∃ arguments : String,
      (Template.registration sink names).layOut filling source state =
        { state with
          text := state.text ++ (state.margin filling.indentWidth ++
            (filling.moduleObject ++ "." ++ sink.method ++ "(" ++ arguments ++ ");\n"))
          atLineStart := true } ∧
      ∀ rest, ¬ [',', ' '] <+: rest →
        quotedNames? (arguments.toList ++ rest) = some (names, rest)) ∧
    (∀ others : List String, (∀ name ∈ others, Unbroken name.toList) → names ≠ others →
      ((Template.registration sink names).layOut filling source state).text ≠
        ((Template.registration sink others).layOut filling source state).text) ∧
    (∀ name ∈ names,
      (∀ rest, quotedName? ((quoted name).toList ++ rest) = some (name, rest)) ∧
      ∀ front, front <+: (quoted name).toList → front ≠ (quoted name).toList →
        quotedName? front = none) ∧
    (∀ mode depth role start callable name t, mode.redirectsVar = true →
      callable.name = some name → Unbroken name.toList →
      Code.statement mode depth role (.function start callable) = .ok t →
      ∃ key value : String,
        (t.layOut filling source state).text =
          state.text ++ (state.margin filling.indentWidth ++
            (filling.globalObject ++ "[" ++ key ++ "] = " ++ value)) ∧
        ∀ rest, quotedName? (key.toList ++ rest) = some (name, rest)) ∧
    ∀ start cs name isEscaped stop rest,
      scanToken start cs = .ok (.word name isEscaped, stop, rest) → Unbroken name.toList := by
  refine ⟨⟨", ".intercalate (names.map quoted), ?_, ?_⟩, ?_, ?_, ?_, ?_⟩
  · exact Template.layOut_registration filling source state sink hne
  · intro rest hrest
    exact quotedNames?_intercalate hne hnames hrest
  · intro others hothers hdifferent htext
    exact hdifferent
      (Template.eq_of_layOut_registration filling source state sink hnames hothers htext)
  · intro name hname
    exact ⟨quotedName?_quoted (hnames name hname),
      fun front hfront hshort => quotedName?_eq_none (hnames name hname) hfront hshort⟩
  · intro mode depth role start callable name t hmode hcallable hname ht
    obtain ⟨value, htext⟩ :=
      Template.layOut_functionStatement filling source state hmode hcallable ht
    exact ⟨quoted name, value, htext, quotedName?_quoted hname⟩
  · intro start cs name isEscaped stop rest hword
    exact unbroken_of_word hword

/-- A name may hold quotes, backslashes and what stands between two literals. -/
theorem names_with_marks_are_decoded :
    let names := ["a\"b", "\\", "c\", \"d", "\u2028", "a\"b"]
    let callable : Snippet.Callable := ⟨false, false, some "f\"] = ", [], none, ⟨0, [], []⟩⟩
    let filling : Filling := ⟨"window", "module", 2⟩
    let state : State := { level := 1 }
    names ≠ [] ∧ (∀ name ∈ names, Unbroken name.toList) ∧
    (∃ arguments : String,
      ((Template.registration .scope names).layOut filling [] state).text =
        "  " ++ ("module" ++ "." ++ "scope" ++ "(" ++ arguments ++ ");\n") ∧
      quotedNames? (arguments.toList ++ ");\n".toList) = some (names, ");\n".toList)) ∧
    ((Template.registration .scope names).layOut filling [] state).text ≠
      ((Template.registration .scope ["a\"b", "\\", "c", "d"]).layOut filling [] state).text ∧
    quotedName? "\"c\\\"".toList = none ∧
    ∃ t, Code.statement .topLevel 0 .listed (.function 0 callable) = .ok t ∧
      ∃ key value : String,
        (t.layOut filling [] state).text = "  " ++ ("window" ++ "[" ++ key ++ "] = " ++ value) ∧
        quotedName? (key.toList ++ "] = ".toList) = some ("f\"] = ", "] = ".toList) := by
  intro names callable filling state
  have hne : names ≠ [] := by decide
  have hnames : ∀ name ∈ names, Unbroken name.toList := by decide
  have hmargin : state.margin filling.indentWidth = "  " := by decide
  obtain ⟨⟨arguments, htext, hread⟩, hdifferent, hends, htarget, -⟩ :=
    registered_names_are_decoded filling [] state .scope hne hnames
  refine ⟨hne, hnames, ⟨arguments, ?_, hread _ (by decide)⟩, hdifferent _ (by decide) (by decide),
    (hends "c\", \"d" (by decide)).2 _ (by decide) (by decide), ?_⟩
  · rw [htext, hmargin]
    exact String.empty_append
  · obtain ⟨t, ht⟩ : ∃ t, Code.statement .topLevel 0 .listed (.function 0 callable) = .ok t :=
      ⟨_, Code.statement_function_ok.2 ⟨by decide, _, rfl, _, rfl, rfl⟩⟩
    obtain ⟨key, value, hkey, hname⟩ :=
      htarget .topLevel 0 .listed 0 callable "f\"] = " t rfl rfl (by decide) ht
    refine ⟨t, ht, key, value, ?_, hname _⟩
    rw [hkey, hmargin]
    exact String.empty_append

end Rebind
