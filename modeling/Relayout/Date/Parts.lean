import Relayout.Date.Field
import Relayout.Decimal

/-!
# Date parts

What is known of a date: a number for some of the fields, and the names of the tokens that it was
read from. The numbers are not checked against the calendar.
-/

namespace Relayout

structure DateParts where
  year : Option Int64 := none
  month : Option Int64 := none
  day : Option Int64 := none
  hour : Option Int64 := none
  minute : Option Int64 := none
  second : Option Int64 := none
  /-- token names in the order in which a layout named them -/
  tokens : List Text := []
  deriving DecidableEq

namespace DateParts

def get (p : DateParts) : Field → Option Int64
  | .year => p.year
  | .month => p.month
  | .day => p.day
  | .hour => p.hour
  | .minute => p.minute
  | .second => p.second

/-- Gives a field another value, or none. -/
def set (p : DateParts) (f : Field) (v : Option Int64) : DateParts :=
  match f with
  | .year => { p with year := v }
  | .month => { p with month := v }
  | .day => { p with day := v }
  | .hour => { p with hour := v }
  | .minute => { p with minute := v }
  | .second => { p with second := v }

@[simp] theorem get_set (p : DateParts) (f g : Field) (v : Option Int64) :
    (p.set f v).get g = if g = f then v else p.get g := by
  cases f <;> cases g <;> rfl

@[simp] theorem tokens_set (p : DateParts) (f : Field) (v : Option Int64) :
    (p.set f v).tokens = p.tokens := by
  cases f <;> rfl

theorem ext_get {p q : DateParts} (h : ∀ f, p.get f = q.get f) (ht : p.tokens = q.tokens) :
    p = q := by
  cases p; cases q
  have hy := h .year; have hmo := h .month; have hd := h .day
  have hh := h .hour; have hmi := h .minute; have hs := h .second
  simp_all [get]

/-- The known fields as `year=2025 month=4`. -/
def describe (p : DateParts) : Text :=
  [' '].intercalate <| Field.all.filterMap fun f =>
    (p.get f).map fun v => f.name ++ '=' :: Decimal.write v.toInt

end DateParts
end Relayout
