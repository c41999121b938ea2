/-!
# Texts by byte offset

Offsets into a text count the bytes of its UTF-8 form.  A text is a list of characters here, so
that every reader of it is a recursion on the list; `byteSize` relates the two.  A `Span` is a
pair of offsets, and `Span.slice` is the part of a text that it covers.
-/

namespace Rebind.Text

/-- The number of bytes in the UTF-8 form of a text. -/
def byteSize : List Char → Nat
  | [] => 0
  | c :: cs => c.utf8Size + byteSize cs

@[simp] theorem byteSize_nil : byteSize [] = 0 := rfl

@[simp] theorem byteSize_cons (c : Char) (cs : List Char) :
    byteSize (c :: cs) = c.utf8Size + byteSize cs := rfl

@[simp] theorem byteSize_append (xs ys : List Char) :
    byteSize (xs ++ ys) = byteSize xs + byteSize ys := by
  induction xs with
  | nil => simp
  | cons c cs ih => simp [ih, Nat.add_assoc]

theorem length_le_byteSize (cs : List Char) : cs.length ≤ byteSize cs := by
  induction cs with
  | nil => exact Nat.le_refl _
  | cons c cs ih =>
    have hpos := c.utf8Size_pos
    rw [List.length_cons, byteSize_cons]
    omega

/-- If every character is one byte, there are as many characters as bytes. -/
theorem byteSize_eq_length {cs : List Char} (h : ∀ c ∈ cs, c.utf8Size = 1) :
    byteSize cs = cs.length := by
  induction cs with
  | nil => rfl
  | cons c cs ih =>
    obtain ⟨hc, hcs⟩ := List.forall_mem_cons.1 h
    rw [byteSize_cons, hc, ih hcs, List.length_cons, Nat.add_comm]

/-- What is left of a text past its first `n` bytes; a character that reaches past them is
dropped whole. -/
def dropBytes : Nat → List Char → List Char
  | 0, cs => cs
  | _ + 1, [] => []
  | n + 1, c :: cs => dropBytes (n + 1 - c.utf8Size) cs

/-- The characters that lie whole in the first `n` bytes of a text. -/
def takeBytes (n : Nat) : List Char → List Char
  | [] => []
  | c :: cs => if c.utf8Size ≤ n then c :: takeBytes (n - c.utf8Size) cs else []

/-- Whether the offset lies between two characters of the text, or at one of its ends. -/
def isBoundary (n : Nat) : List Char → Bool
  | [] => n == 0
  | c :: cs => n == 0 || (c.utf8Size ≤ n && isBoundary (n - c.utf8Size) cs)

/-- A stretch of a text, from its first byte to the byte past it. -/
structure Span where
  start : Nat
  stop : Nat
  deriving Repr, DecidableEq, Inhabited

namespace Span

/-- The number of bytes that the span covers. -/
def length (s : Span) : Nat := s.stop - s.start

/-- The part of a text that the span covers. -/
def slice (s : Span) (source : List Char) : List Char :=
  takeBytes (s.stop - s.start) (dropBytes s.start source)

/-- The part of a text that the span covers, if it is in the text and cuts no character. -/
def slice? (s : Span) (source : List Char) : Option (List Char) :=
  if s.start ≤ s.stop && isBoundary s.start source && isBoundary s.stop source then
    some (s.slice source)
  else none

end Span

end Rebind.Text
