import Relayout.Date.Year
import Relayout.Reading.Basic

/-!
# From digits to date parts

The year comes from `yyyy`, or else from `yy` through a converter. Each other field comes from the
first of its numeric tokens that has digits.
-/

namespace Relayout

/-- The number that the text of a token stands for. -/
def readNumber (token text : Text) : Except ConversionError Int64 :=
  match Decimal.readInt64? text with
  | some n => .ok n
  | none => .error (.notNumeric token text)

/-- The year of a two-digit year; without a converter it is kept as it is or refused. -/
def expandYear (converter : Option YearConverter) (policy : ErrorPolicy) (yy : Int64) :
    Except ConversionError Int64 :=
  match converter, policy with
  | some convert, _ => (convert yy).mapError .yearConverter
  | none, .silent => .ok yy
  | none, .throw => .error .missingYearConverter

namespace Reading

/-- The first token of a list that has digits, with its digits. -/
def firstValue? (r : Reading) (tokens : List Builtin) : Option (Text × Text) :=
  tokens.findSome? fun t => (r.value? t.name).map fun text => (t.name, text)

/-- The year that the reading gives. -/
def year (r : Reading) (converter : Option YearConverter) (policy : ErrorPolicy) :
    Except ConversionError (Option Int64) :=
  match r.value? Builtin.yyyy.name, r.value? Builtin.yy.name with
  | some text, _ => some <$> readNumber Builtin.yyyy.name text
  | none, some text => do
    let yy ← readNumber Builtin.yy.name text
    some <$> expandYear converter policy yy
  | none, none => .ok none

/-- The number that the reading gives for a field other than the year. -/
def number (r : Reading) (f : Field) : Except ConversionError (Option Int64) :=
  match r.firstValue? (Builtin.numeric f) with
  | some (token, text) => some <$> readNumber token text
  | none => .ok none

end Reading

/-- The date parts that a reading gives. The first error counts, from the year to the second. -/
def DateParts.ofReading (r : Reading) (converter : Option YearConverter) (policy : ErrorPolicy) :
    Except ConversionError DateParts := do
  let year ← r.year converter policy
  let month ← r.number .month
  let day ← r.number .day
  let hour ← r.number .hour
  let minute ← r.number .minute
  let second ← r.number .second
  return { year, month, day, hour, minute, second, tokens := r.tokens }

end Relayout
