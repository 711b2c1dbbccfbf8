import Relayout.Text.Basic

/-!
# Decimal integers

* `Decimal.write`, `Decimal.writePadded`: the text of an integer.
* `Decimal.read?`, `Decimal.readInt64?`: an optional sign and at least one digit, read back.
-/

namespace Relayout.Decimal

/-- The digits of a number, most significant first, without leading zeros. -/
def digits (n : Nat) : Text := Nat.toDigits 10 n

/-- A minus sign for a negative number, then the digits. -/
def write (n : Int) : Text :=
  if n < 0 then '-' :: digits n.natAbs else digits n.natAbs

/-- Like `write`, with zeros behind the sign to fill up to `width` characters. The sign counts as
one of them, and nothing is ever cut off. -/
def writePadded (width : Nat) (n : Int) : Text :=
  if n < 0 then '-' :: (digits n.natAbs).leftpad (width - 1) '0'
  else (digits n.natAbs).leftpad width '0'

/-- Reads one or more ASCII digits and nothing else; leading zeros are fine. -/
def readNat? (text : Text) : Option Nat :=
  if text ≠ [] ∧ text.all Char.isDigit then some (Nat.ofDigitChars 10 text 0) else none

/-- Reads one or more digits behind at most one sign. -/
def read? : Text → Option Int
  | '-' :: text => (readNat? text).map fun n => -(n : Int)
  | '+' :: text => (readNat? text).map Int.ofNat
  | text => (readNat? text).map Int.ofNat

def toInt64? (n : Int) : Option Int64 :=
  if Int64.minValue.toInt ≤ n ∧ n ≤ Int64.maxValue.toInt then some (Int64.ofInt n) else none

def readInt64? (text : Text) : Option Int64 := (read? text).bind toInt64?

end Relayout.Decimal
