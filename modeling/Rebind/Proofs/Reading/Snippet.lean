import Rebind.Code
import Rebind.Proofs.Reading.Statement

/-!
# What a snippet reads

The productions are tied together by nesting depth, so what each of them keeps of the source, given
that the others do, holds of a whole snippet (`Program.parse_reads`).
-/

namespace Rebind.Grammar

open Rebind.Snippet
open Rebind.Grammar.Parser

variable {g : Productions}

theorem Productions.sound_nest (hg : g.Sound) : g.nest.Sound where
  assignment _ _ hs := assignment_reads hg hs
  unary _ _ hs := unary_reads hg hs
  binary _ _ _ hs := binary_reads hg hs
  access _ _ _ hs := access_reads hg hs
  pattern _ _ hs := pattern_reads hg hs
  statement _ _ _ hs := statement_reads hg hs

theorem Productions.sound_empty : Productions.empty.Sound where
  assignment _ _ _ := ensures_unexpected.2 trivial
  unary _ _ _ := ensures_unexpected.2 trivial
  binary _ _ _ _ := ensures_unexpected.2 trivial
  access _ _ _ _ := ensures_unexpected.2 trivial
  pattern _ _ _ := ensures_unexpected.2 trivial
  statement _ _ _ _ := ensures_unexpected.2 trivial

theorem Productions.sound_upTo (n : Nat) : (Productions.upTo n).Sound := by
  induction n with
  | zero => exact sound_empty
  | succ n ih => exact sound_nest ih

end Rebind.Grammar

namespace Rebind.Snippet

open Rebind.Grammar

theorem Program.parse_eq_ok {source : List Char} {p : Program} :
    parse source = .ok p ↔ Text.byteSize source ≤ maxOffset ∧ read source = .ok p := by
  unfold parse
  split
  · next h => exact ⟨fun hp => ⟨h, hp⟩, And.right⟩
  · next h => exact ⟨nofun, fun hp => absurd hp.1 h⟩

/-- The parts of a snippet, also those that are left out, are all read. -/
theorem Program.parse_reads {source : List Char} {p : Program} (hp : parse source = .ok p) :
    ∃ s s', s.limit = Text.byteSize source ∧ s.hosts = [] ∧ s.lexeme.here <:+ source ∧
      Reads s (p.directives.map Part.verbatim ++ listParts true p.statements) s' ∧
        ListFormed p.statements := by
  obtain ⟨-, hp⟩ := parse_eq_ok.1 hp
  obtain ⟨lexeme, hlexeme, hp⟩ := exists_ok_of_bind hp
  obtain ⟨⟨⟨directives, statements⟩, s'⟩, hread, hp⟩ := exists_ok_of_bind hp
  cases hp
  obtain ⟨hhere, hstands⟩ := Lexeme.first_stands hlexeme
  have hs : (State.mk lexeme 0 (Text.byteSize source) [] []).Sound := ⟨hstands, Nat.zero_le _⟩
  have hreads := directivesAndStatements_reads (Productions.sound_upTo _) hs _ _ hread
  exact ⟨_, s', rfl, rfl, hhere, hreads⟩

theorem Program.parse_formed {source : List Char} {p : Program} (hp : parse source = .ok p) :
    ListFormed p.statements := by
  obtain ⟨_, _, -, -, -, -, hformed⟩ := parse_reads hp
  exact hformed

/-- The parts of a snippet follow each other in its source. -/
theorem Program.parse_ordered {source : List Char} {p : Program} (hp : parse source = .ok p) :
    ∃ stop, Ordered 0 stop
      ((p.directives.map Part.verbatim ++ listParts true p.statements).map Part.span) := by
  obtain ⟨s, s', -, -, -, hreads, -⟩ := parse_reads hp
  exact ⟨s'.lastStop, hreads.ordered.mono (Nat.zero_le _) (Nat.le_refl _)⟩

/-- The host forms in a part of a snippet lie in it, one after the other. -/
theorem Program.parse_nested {source : List Char} {p : Program} (hp : parse source = .ok p) :
    ∀ part ∈ p.directives.map Part.verbatim ++ listParts true p.statements,
      part.Nested (Text.byteSize source) source := by
  obtain ⟨s, s', hlimit, -, hhere, hreads, -⟩ := parse_reads hp
  intro part hpart
  exact hlimit ▸ (hreads.nested part hpart).mono hhere

end Rebind.Snippet

namespace Rebind

open Rebind.Snippet

theorem parse_eq_ok {source : List Char} {p : Program} :
    parse source = .ok p ↔ Program.parse source = .ok p := by
  unfold parse
  cases Program.parse source with
  | error fault => exact iff_of_false nofun nofun
  | ok q =>
    constructor
    · exact fun h => congrArg Except.ok (Except.ok.inj h)
    · exact fun h => congrArg Except.ok (Except.ok.inj h)

end Rebind
