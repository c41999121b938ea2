import Rebind.Snippet.Tree

/-!
# The reference for copied expressions

The reference goes through the characters of a stretch of the source one by one: at the start of
a host form comes what stands for it, inside the host form nothing, and everywhere else the
character itself.  It knows no order of the host forms and no offset reached so far.
-/

namespace Rebind

open Rebind.Text (Span byteSize)
open Rebind.Snippet

/-- A stretch of the source and what stands for it. -/
abbrev Replacement := Span × List Char

/-- What stands for a character of the source at an offset. -/
def replacedAt (table : List Replacement) (offset : Nat) (c : Char) : List Char :=
  match table.find? fun r => r.1.start == offset with
  | some r => r.2
  | none => if table.any fun r => r.1.start < offset && offset < r.1.stop then [] else [c]

/-- What stands for a text that goes on at an offset. -/
def replacedFrom (table : List Replacement) (offset : Nat) : List Char → List Char
  | [] => []
  | c :: cs => replacedAt table offset c ++ replacedFrom table (offset + c.utf8Size) cs

/-- What stands for a stretch of the source. -/
def replaced (table : List Replacement) (source : List Char) (span : Span) : List Char :=
  replacedFrom table span.start (span.slice source)

mutual

/-- What stands for a host form under a name of the module object. -/
def Snippet.HostForm.replacement (name source : List Char) : HostForm → List Char
  | .metadata _ => name ++ ".meta".toList
  | .load _ specifier inner =>
    name ++ ".import(".toList ++ replaced (replacements name source inner) source specifier ++ [')']

/-- The host forms, each with what stands for it. -/
def replacements (name source : List Char) : List HostForm → List Replacement
  | [] => []
  | host :: hosts => (host.span, host.replacement name source) :: replacements name source hosts

end

/-- The source of an expression with the host forms in it replaced. -/
def Snippet.Expression.reference (name source : List Char) (e : Expression) : List Char :=
  replaced (replacements name source e.hosts) source e.span

section Reference

variable {table : List Replacement} {offset : Nat} {c : Char} {cs : List Char}

theorem replacedFrom_append (front back : List Char) :
    replacedFrom table offset (front ++ back) =
      replacedFrom table offset front ++ replacedFrom table (offset + byteSize front) back := by
  induction front generalizing offset with
  | nil => rfl
  | cons c front ih =>
    rw [List.cons_append, replacedFrom, replacedFrom, ih, Text.byteSize_cons, List.append_assoc,
      Nat.add_assoc]

/-- Before all entries a text stays as it is. -/
theorem replacedFrom_before (h : ∀ r ∈ table, offset + byteSize cs ≤ r.1.start) :
    replacedFrom table offset cs = cs := by
  induction cs generalizing offset with
  | nil => rfl
  | cons c cs ih =>
    have hlater (r : Replacement) (hr : r ∈ table) : offset < r.1.start ∧
        offset + c.utf8Size + byteSize cs ≤ r.1.start := by
      have hsize := c.utf8Size_pos
      have hle := h r hr
      rw [Text.byteSize_cons] at hle
      omega
    have hnone : table.find? (fun r => r.1.start == offset) = none := by
      refine List.find?_eq_none.2 fun r hr => ?_
      simpa using Nat.ne_of_gt (hlater r hr).1
    have houtside : table.any (fun r => r.1.start < offset && offset < r.1.stop) = false := by
      refine List.any_eq_false.2 fun r hr => ?_
      have hlt := (hlater r hr).1
      simp only [Bool.and_eq_true, decide_eq_true_eq]
      omega
    rw [replacedFrom, ih fun r hr => (hlater r hr).2]
    simp only [replacedAt, hnone, houtside, Bool.false_eq_true, ↓reduceIte, List.singleton_append]

/-- Inside an entry nothing is left, if no other entry starts there. -/
theorem replacedFrom_inside {r : Replacement} (hr : r ∈ table) (hstart : r.1.start < offset)
    (hstop : offset + byteSize cs ≤ r.1.stop)
    (hothers : ∀ other ∈ table, other.1.start < offset ∨ offset + byteSize cs ≤ other.1.start) :
    replacedFrom table offset cs = [] := by
  induction cs generalizing offset with
  | nil => rfl
  | cons c cs ih =>
    have hsize := c.utf8Size_pos
    rw [Text.byteSize_cons] at hstop
    have hapart (other : Replacement) (hother : other ∈ table) : other.1.start ≠ offset ∧
        (other.1.start < offset + c.utf8Size ∨
          offset + c.utf8Size + byteSize cs ≤ other.1.start) := by
      have hsides := hothers other hother
      rw [Text.byteSize_cons] at hsides
      omega
    have hnone : table.find? (fun r => r.1.start == offset) = none := by
      refine List.find?_eq_none.2 fun other hother => ?_
      simpa using (hapart other hother).1
    have hinside : table.any (fun r => r.1.start < offset && offset < r.1.stop) = true := by
      refine List.any_eq_true.2 ⟨r, hr, ?_⟩
      simp only [Bool.and_eq_true, decide_eq_true_eq]
      omega
    have hrest : replacedFrom table (offset + c.utf8Size) cs = [] :=
      ih (by omega) (by omega) fun other hother => (hapart other hother).2
    rw [replacedFrom, hrest]
    simp only [replacedAt, hnone, hinside, ↓reduceIte, List.append_nil]

/-- Past an entry it makes no difference. -/
theorem replacedFrom_past {r : Replacement} (hlt : r.1.start < r.1.stop) (h : r.1.stop ≤ offset) :
    replacedFrom (r :: table) offset cs = replacedFrom table offset cs := by
  induction cs generalizing offset with
  | nil => rfl
  | cons c cs ih =>
    have hstart : (r.1.start == offset) = false := beq_eq_false_iff_ne.2 (by omega)
    have hinside : (decide (r.1.start < offset) && decide (offset < r.1.stop)) = false := by
      simp only [Bool.and_eq_false_iff, decide_eq_false_iff_not]
      omega
    have hhere : replacedAt (r :: table) offset c = replacedAt table offset c := by
      simp only [replacedAt, List.find?_cons, hstart, List.any_cons, hinside, Bool.false_or]
    rw [replacedFrom, replacedFrom, hhere, ih (Nat.le_trans h (Nat.le_add_right _ _))]

/-- For the text of the first entry stands what the entry says. -/
theorem replacedFrom_entry {r : Replacement} (hcs : r.1.start + byteSize cs = r.1.stop)
    (hlt : r.1.start < r.1.stop) (hothers : ∀ other ∈ table, r.1.stop ≤ other.1.start) :
    replacedFrom (r :: table) r.1.start cs = r.2 := by
  cases cs with
  | nil =>
    rw [Text.byteSize_nil] at hcs
    omega
  | cons c cs =>
    have hsize := c.utf8Size_pos
    rw [Text.byteSize_cons] at hcs
    have hfirst : replacedAt (r :: table) r.1.start c = r.2 := by
      simp only [replacedAt, List.find?_cons, beq_self_eq_true]
    have hrest : replacedFrom (r :: table) (r.1.start + c.utf8Size) cs = [] := by
      refine replacedFrom_inside List.mem_cons_self (by omega) (by omega) ?_
      refine List.forall_mem_cons.2 ⟨.inl (by omega), fun other hother => .inr ?_⟩
      have hle := hothers other hother
      omega
    rw [replacedFrom, hfirst, hrest, List.append_nil]

end Reference

end Rebind
