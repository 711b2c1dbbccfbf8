import Relayout.Decimal

/-!
# Years with two digits

A `YearConverter` turns the number of a two-digit year into a year, or refuses it with a text.
The ready-made ones refuse a sum that leaves the signed 64-bit range.
-/

namespace Relayout

abbrev YearConverter := Int64 → Except Text Int64

namespace YearConverter

/-- The sum of two years, refused when it is out of range. -/
def sum (yy n : Int64) : Except Text Int64 :=
  match Decimal.toInt64? (yy.toInt + n.toInt) with
  | some year => .ok year
  | none => .error "year overflow".toList

/-- Years below `n` belong to the century from 2000, all others to the century from 1900. -/
def pivot (n : Int64) : YearConverter := fun yy => sum yy (if yy < n then 2000 else 1900)

def add (n : Int64) : YearConverter := fun yy => sum yy n

/-- Adds `n` and stays at the ends of the range. -/
def addSaturating (n : Int64) : YearConverter := fun yy =>
  .ok <| Int64.ofInt <| max Int64.minValue.toInt <| min Int64.maxValue.toInt <|
    yy.toInt + n.toInt

def refuse (message : Text) : YearConverter := fun _ => .error message

/-- Adds `n` to a year up to `limit`; a later one is refused with the message and the year. -/
def addUpTo (limit n : Int64) (message : Text) : YearConverter := fun yy =>
  if limit < yy then .error (message ++ Decimal.write yy.toInt) else sum yy n

end YearConverter
end Relayout
