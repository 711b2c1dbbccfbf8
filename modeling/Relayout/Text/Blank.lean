import Relayout.Text.Basic

/-!
# Blank characters

The characters with the property White_Space, and a text without those at its ends.
-/

namespace Relayout.Text

/-- First and last code points of the ranges of blank characters. -/
def blanks : List (Nat × Nat) := [
  (0x9, 0xd), (0x20, 0x20), (0x85, 0x85), (0xa0, 0xa0), (0x1680, 0x1680), (0x2000, 0x200a),
  (0x2028, 0x2029), (0x202f, 0x202f), (0x205f, 0x205f), (0x3000, 0x3000)]

def isBlank (c : Char) : Bool := blanks.any fun (first, last) => first ≤ c.toNat ∧ c.toNat ≤ last

/-- Leaves out the blank characters at both ends. -/
def trim (text : Text) : Text :=
  ((text.dropWhile isBlank).reverse.dropWhile isBlank).reverse

end Relayout.Text
