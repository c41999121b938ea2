/-!
# Surrogate pairs

A code past `0xffff` may be written as two halves, a surrogate pair.  A half that stands alone is
no character.
-/

namespace Rebind.Text

/-- Whether a code is the first half of a surrogate pair. -/
def isHighSurrogate (n : Nat) : Bool := 0xd800 ≤ n && n < 0xdc00

/-- Whether a code is the second half of a surrogate pair. -/
def isLowSurrogate (n : Nat) : Bool := 0xdc00 ≤ n && n < 0xe000

theorem not_surrogate (c : Char) :
    isHighSurrogate c.toNat = false ∧ isLowSurrogate c.toNat = false := by
  have hvalid : c.toNat < 0xd800 ∨ 0xdfff < c.toNat ∧ c.toNat < 0x110000 := c.valid
  simp only [isHighSurrogate, isLowSurrogate, Bool.and_eq_false_iff, decide_eq_false_iff_not]
  omega

/-- The code that two halves stand for. -/
def pairedCode (high low : Nat) : Nat :=
  0x10000 + (high - 0xd800) * 0x400 + (low - 0xdc00)

/-- Puts a code before codes in reverse; the second half of a pair joins the first one. -/
def addCode (code : Nat) : List Nat → List Nat
  | [] => [code]
  | last :: codes =>
    if isHighSurrogate last && isLowSurrogate code then pairedCode last code :: codes
    else code :: last :: codes

/-- The code of a character joins no half before it. -/
theorem addCode_toNat (c : Char) (codes : List Nat) : addCode c.toNat codes = c.toNat :: codes := by
  cases codes <;> simp [addCode, not_surrogate c]

/-- Whether all codes are characters. -/
def areCharacters (codes : List Nat) : Bool :=
  codes.all fun n => !isHighSurrogate n && !isLowSurrogate n

theorem areCharacters_toNat (cs : List Char) : areCharacters (cs.map Char.toNat) = true := by
  simp [areCharacters, not_surrogate]

end Rebind.Text
