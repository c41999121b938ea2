import Rebind.Proofs.Copying.Separated
import Rebind.Proofs.Splicing

/-!
# What patterns look like

The text that is written for a pattern, put together from the looks of its parts.
-/

namespace Rebind.Grammar

open Rebind.Text (Span byteSize byteSize_append byteSize_cons)
open Rebind.Unicode (isNameStart isNamePart isAsciiDigit)
open Rebind.Snippet
open Rebind.Grammar.Parser

/-- What the host objects are called where a pattern is printed alone. -/
abbrev printing : Filling := ({} : Options).filling

/-- What a pattern looks like: its text, and the names that it binds. -/
structure PatternLook where
  text : List Char
  names : List String

/-- What a pattern of a source looks like. -/
def look (source : List Char) (p : Pattern) : PatternLook :=
  ⟨Code.textOf printing source (Code.pattern p), p.names⟩

/-- What an element of an array pattern looks like. -/
def elementLook (source : List Char) : Option Pattern → PartLook
  | none => ⟨.hole, [], []⟩
  | some p => ⟨.plain, (look source p).text, (look source p).names⟩

/-- What a property of an object pattern looks like. -/
def propertyLook (source : List Char) (property : Key × Pattern) : PartLook :=
  ⟨.plain, Code.textOf printing source (Code.key property.1) ++ ':' :: ' ' ::
    (look source property.2).text, (look source property.2).names⟩

/-- What a rest element looks like. -/
def restLook (source : List Char) (p : Pattern) : PartLook :=
  ⟨.rest, "...".toList ++ (look source p).text, (look source p).names⟩

/-- What a part of a pattern looks like. -/
def partLook {α : Type} (view : List Char → α → PartLook) (source : List Char) :
    PatternPart α → PartLook
  | .part a => view source a
  | .rest p _ => restLook source p

/-- What a pattern looks like that is a list of parts between two marks. -/
def listLook (first last : Char) (parts : List PartLook) : PatternLook :=
  ⟨first :: (partsText parts ++ [last]), parts.flatMap PartLook.names⟩

theorem textOf_text (source : List Char) (text : String) :
    Code.textOf printing source [Piece.text text] = text.toList := by
  simp [Code.textOf, Piece.fill]

theorem look_name (source : List Char) (name : String) (span : Span) :
    look source (.name name span) = ⟨name.toList, [name]⟩ := by
  rw [look, Code.pattern, textOf_text]
  rfl

theorem look_withDefault (source : List Char) (p : Pattern) (e : Expression) :
    look source (.withDefault p e) = ⟨(look source p).text ++ ' ' :: '=' :: ' ' ::
      Code.textOf printing source (Code.expression e), (look source p).names⟩ := by
  rw [look, Code.pattern, Code.textOf_append, Code.textOf_append, textOf_text, List.append_assoc]
  rfl

/-- Texts with a comma and a blank between each two. -/
def joinedText : List (List Char) → List Char
  | [] => []
  | [text] => text
  | text :: next :: texts => text ++ ',' :: ' ' :: joinedText (next :: texts)

theorem textOf_joined (source : List Char) (fragments : List Fragment) :
    Code.textOf printing source (Code.joined ", " fragments) =
      joinedText (fragments.map (Code.textOf printing source)) := by
  induction fragments with
  | nil => rfl
  | cons fragment fragments ih =>
    cases fragments with
    | nil => simp [Code.joined, joinedText]
    | cons next fragments =>
      rw [List.map_cons, List.map_cons, joinedText, ← List.map_cons, ← ih, Code.joined,
        List.intersperse_cons_cons, List.flatten_cons, List.flatten_cons, Code.textOf_append,
        Code.textOf_append, textOf_text]
      rfl

theorem joinedText_concat (texts : List (List Char)) (last : List Char) :
    joinedText (texts ++ [last]) =
      joinedText texts ++ (if texts.isEmpty then [] else [',', ' ']) ++ last := by
  induction texts with
  | nil => rfl
  | cons text texts ih =>
    cases texts with
    | nil => simp [joinedText]
    | cons next texts =>
      rw [List.cons_append, List.cons_append, joinedText, ← List.cons_append, ih]
      simp [joinedText]

theorem partsText_eq (parts : List PartLook) :
    partsText parts = joinedText (parts.map PartLook.text) ++
      if parts.getLast?.map PartLook.kind = some .hole then [','] else [] := by
  induction parts with
  | nil => rfl
  | cons part parts ih =>
    cases parts with
    | nil => simp [partsText, joinedText]
    | cons next parts =>
      rw [partsText, ih, List.getLast?_cons_cons]
      simp [joinedText]

theorem textOf_patternElements (source : List Char) (elements : List (Option Pattern)) :
    (Code.patternElements elements).map (Code.textOf printing source) =
      (elements.map (elementLook source)).map PartLook.text := by
  induction elements with
  | nil => rfl
  | cons element elements ih =>
    cases element with
    | none => rw [Code.patternElements, List.map_cons, ih]; rfl
    | some p => rw [Code.patternElements, List.map_cons, ih]; rfl

theorem textOf_patternProperties (source : List Char) (properties : List (Key × Pattern)) :
    (Code.patternProperties properties).map (Code.textOf printing source) =
      (properties.map (propertyLook source)).map PartLook.text := by
  induction properties with
  | nil => rfl
  | cons property properties ih =>
    obtain ⟨name, value⟩ := property
    rw [Code.patternProperties, List.map_cons, ih, Code.textOf_append, Code.textOf_append,
      textOf_text, List.append_assoc]
    rfl

theorem elementNames_eq (source : List Char) (elements : List (Option Pattern)) :
    Pattern.elementNames elements = (elements.map (elementLook source)).flatMap PartLook.names := by
  induction elements with
  | nil => rfl
  | cons element elements ih =>
    cases element with
    | none => rw [Pattern.elementNames, ih]; rfl
    | some p => rw [Pattern.elementNames, ih]; rfl

theorem propertyNames_eq (source : List Char) (properties : List (Key × Pattern)) :
    Pattern.propertyNames properties =
      (properties.map (propertyLook source)).flatMap PartLook.names := by
  induction properties with
  | nil => rfl
  | cons property properties ih => rw [Pattern.propertyNames, ih]; rfl

theorem restNames_eq (source : List Char) (rest : Option Pattern) :
    Pattern.restNames rest = (rest.map (restLook source)).toList.flatMap PartLook.names := by
  cases rest with
  | none => rfl
  | some p => simp [Pattern.restNames, restLook, look]

/-- The parts of a pattern with a rest element. -/
theorem textOf_withRest (source : List Char) (fragments : List Fragment) (rest : Pattern) :
    Code.textOf printing source (Code.joined ", " fragments) ++
        Code.textOf printing source (Code.withRest fragments.isEmpty (Code.pattern rest)) =
      joinedText
        (fragments.map (Code.textOf printing source) ++ [(restLook source rest).text]) := by
  rw [joinedText_concat, ← textOf_joined, List.isEmpty_map, Code.withRest, Code.textOf_append,
    Code.textOf_append, textOf_text, List.append_assoc, List.append_assoc]
  congr 2
  split
  · rfl
  · rw [textOf_text]
    rfl

theorem partsText_rest (parts : List PartLook) (source : List Char) (rest : Pattern) :
    partsText (parts ++ [restLook source rest]) =
      joinedText (parts.map PartLook.text ++ [(restLook source rest).text]) := by
  rw [partsText_eq, List.getLast?_concat, Option.map_some, if_neg (by simp [restLook]),
    List.append_nil, List.map_append]
  rfl

/-- A pattern of parts between two marks. -/
theorem textOf_enclosed (source : List Char) (first last : String) (inner : Fragment) :
    Code.textOf printing source ([Piece.text first] ++ inner ++ [Piece.text last]) =
      first.toList ++ (Code.textOf printing source inner ++ last.toList) := by
  rw [Code.textOf_append, Code.textOf_append, textOf_text, textOf_text, List.append_assoc]

theorem isEmpty_patternElements (elements : List (Option Pattern)) :
    elements.isEmpty = (Code.patternElements elements).isEmpty := by
  cases elements with
  | nil => rfl
  | cons element => cases element <;> rfl

theorem isEmpty_patternProperties (properties : List (Key × Pattern)) :
    properties.isEmpty = (Code.patternProperties properties).isEmpty := by
  cases properties with
  | nil => rfl
  | cons property => rfl

/-- An array pattern looks like the list of its elements. -/
theorem look_array (source : List Char) (span : Span) (elements : List (Option Pattern))
    (rest : Option Pattern) :
    look source (.array span elements rest) = listLook '[' ']'
      (elements.map (elementLook source) ++ (rest.map (restLook source)).toList) := by
  have hnames : (Pattern.array span elements rest).names = (elements.map (elementLook source) ++
      (rest.map (restLook source)).toList).flatMap PartLook.names := by
    rw [Pattern.names, List.flatMap_append, elementNames_eq source, restNames_eq source]
  rw [look, listLook, hnames]
  congr 1
  cases rest with
  | none =>
    rw [Code.pattern, List.append_assoc _ (Code.joined _ _), textOf_enclosed, Code.textOf_append,
      textOf_joined, textOf_patternElements, Option.map_none,
      Option.toList_none, List.append_nil, partsText_eq]
    rw [List.getLast?_map]
    cases elements.getLast? with
    | none => rfl
    | some element =>
      cases element with
      | none =>
        exact congrArg (fun comma => '[' :: (joinedText _ ++ comma ++ [']']))
          (textOf_text source ",")
      | some p => rfl
  | some rest =>
    rw [Code.pattern, List.append_assoc _ (Code.joined _ _), textOf_enclosed, Code.textOf_append,
      isEmpty_patternElements, textOf_withRest, textOf_patternElements, Option.map_some,
      Option.toList_some, partsText_rest]
    rfl

/-- An object pattern looks like the list of its properties. -/
theorem look_object (source : List Char) (span : Span) (properties : List (Key × Pattern))
    (rest : Option Pattern) :
    look source (.object span properties rest) = listLook '\x7b' '\x7d'
      (properties.map (propertyLook source) ++ (rest.map (restLook source)).toList) := by
  have hnames : (Pattern.object span properties rest).names =
      (properties.map (propertyLook source) ++
        (rest.map (restLook source)).toList).flatMap PartLook.names := by
    rw [Pattern.names, List.flatMap_append, propertyNames_eq source, restNames_eq source]
  rw [look, listLook, hnames]
  congr 1
  cases rest with
  | none =>
    rw [Code.pattern, textOf_enclosed, textOf_joined,
      textOf_patternProperties, Option.map_none, Option.toList_none, List.append_nil, partsText_eq,
      List.getLast?_map]
    have hplain : (properties.getLast?.map (propertyLook source)).map PartLook.kind ≠
        some .hole := by
      cases properties.getLast? with
      | none => nofun
      | some property => simp [propertyLook]
    rw [if_neg hplain, List.append_nil]
    rfl
  | some rest =>
    rw [Code.pattern, List.append_assoc _ (Code.joined _ _), textOf_enclosed, Code.textOf_append,
      isEmpty_patternProperties, textOf_withRest, textOf_patternProperties, Option.map_some,
      Option.toList_some, partsText_rest]
    rfl

end Rebind.Grammar
