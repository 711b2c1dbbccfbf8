import Relayout.Token.Source

/-!
# Ready-made writers

Writers for handlers of tokens that are not built in.
-/

namespace Relayout.Writer

def none : Writer := fun _ => .none

def const (text : Text) : Writer := fun _ => some text

/-- The number of a field behind a fixed text. -/
def field (f : Field) (lead : Text) : Writer := fun parts =>
  (parts.get f).map fun v => lead ++ Decimal.write v.toInt

/-- Like `field`, but declines numbers above a limit. -/
def fieldUpTo (f : Field) (limit : Int64) (lead : Text) : Writer := fun parts =>
  (parts.get f).bind fun v => if limit < v then .none else field f lead parts

/-- The quarter of the year, from `Q1` to `Q4`; declines what is no month. -/
def quarter : Writer := fun parts =>
  (parts.get .month).bind fun v =>
    if 1 ≤ v ∧ v ≤ 12 then some ('Q' :: Decimal.write ((v.toInt + 2) / 3)) else .none

/-- The names of the tokens that the date was read from, with commas between them. -/
def tokens : Writer := fun parts => some ([','].intercalate parts.tokens)

def parts : Writer := fun parts => some parts.describe

end Relayout.Writer
