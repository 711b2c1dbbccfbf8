import Relayout.Date.Parts

/-!
# Built-in tokens

Each built-in token stands for one field and writes it in one form.

* `Form`: the ways to write a number.
* `Builtin`: the fourteen tokens with their names, fields and forms.
* `Builtin.write`: the text of a token for given date parts.
* `Builtin.fieldTable`: the names by which an output layout asks for a field.
* `Builtin.numeric`: the tokens from which the number of a field is read.

What a token writes, what a layout may ask for and what is read come from three tables, which need
not agree.
-/

namespace Relayout

/-- The English names of the months. -/
def monthNames : List Text :=
  ["January".toList, "February".toList, "March".toList, "April".toList, "May".toList,
    "June".toList, "July".toList, "August".toList, "September".toList, "October".toList,
    "November".toList, "December".toList]

/-- The name of a month counted from one. -/
def monthName? (month : Int64) : Option Text :=
  if 1 ≤ month.toInt then monthNames[(month.toInt - 1).toNat]? else none

inductive Form
  /-- with leading zeros up to a width -/
  | padded (width : Nat)
  /-- without leading zeros -/
  | plain
  /-- the last two characters of the number -/
  | lastTwo
  /-- the name of the month -/
  | monthName
  /-- the first three letters of the name of the month -/
  | monthAbbreviation
  deriving DecidableEq

namespace Form

/-- The text of a value; none where it is no month and a name is asked for. -/
def write : Form → Int64 → Option Text
  | padded width, v => some (Decimal.writePadded width v.toInt)
  | plain, v => some (Decimal.write v.toInt)
  | lastTwo, v =>
    let text := Decimal.write v.toInt
    some (text.drop (text.length - 2))
  | monthName, v => monthName? v
  | monthAbbreviation, v => (monthName? v).map (·.take 3)

/-- The whole number can be read off the text. -/
def isNumber : Form → Bool
  | padded _ | plain => true
  | lastTwo | monthName | monthAbbreviation => false

end Form

/-- The tokens that are known without any configuration. -/
inductive Builtin
  | yyyy | yy | MMMM | MMM | MM | M | dd | d | HH | H | mm | m | ss | s
  deriving DecidableEq

namespace Builtin

/-- All built-in tokens, field by field and the longest of a field first. -/
def all : List Builtin := [yyyy, yy, MMMM, MMM, MM, M, dd, d, HH, H, mm, m, ss, s]

theorem mem_all (t : Builtin) : t ∈ all := by cases t <;> decide

/-- The name under which a layout asks for the token. -/
def name : Builtin → Text
  | yyyy => "yyyy".toList
  | yy => "yy".toList
  | MMMM => "MMMM".toList
  | MMM => "MMM".toList
  | MM => "MM".toList
  | M => "M".toList
  | dd => "dd".toList
  | d => "d".toList
  | HH => "HH".toList
  | H => "H".toList
  | mm => "mm".toList
  | m => "m".toList
  | ss => "ss".toList
  | s => "s".toList

/-- The field that the token writes. -/
def field : Builtin → Field
  | yyyy | yy => .year
  | MMMM | MMM | MM | M => .month
  | dd | d => .day
  | HH | H => .hour
  | mm | m => .minute
  | ss | s => .second

/-- The form in which the token writes its field. -/
def form : Builtin → Form
  | yyyy => .padded 4
  | yy => .lastTwo
  | MMMM => .monthName
  | MMM => .monthAbbreviation
  | MM | dd | HH | mm | ss => .padded 2
  | M | d | H | m | s => .plain

def names : List Text := all.map name

/-- The text of a token; none where its field is unknown or has no such text. -/
def write (t : Builtin) (parts : DateParts) : Option Text := (parts.get t.field).bind t.form.write

/-- The field of each token, by the name of the token. -/
def fieldTable : List (Text × Field) := [
  ("yyyy".toList, .year), ("yy".toList, .year),
  ("MMMM".toList, .month), ("MMM".toList, .month), ("MM".toList, .month), ("M".toList, .month),
  ("dd".toList, .day), ("d".toList, .day),
  ("HH".toList, .hour), ("H".toList, .hour),
  ("mm".toList, .minute), ("m".toList, .minute),
  ("ss".toList, .second), ("s".toList, .second)]

/-- The names that the table gives for a field. -/
def fieldNames (f : Field) : List Text := (fieldTable.filter fun (_, g) => g = f).map (·.1)

/-- The number tokens of each field but the year, the padded one first. -/
def synonyms : List (Field × List Builtin) :=
  [(.month, [MM, M]), (.day, [dd, d]), (.hour, [HH, H]), (.minute, [mm, m]), (.second, [ss, s])]

/-- The tokens from which the number of a field is read; the year has rules of its own. -/
def numeric (f : Field) : List Builtin := (synonyms.lookup f).getD []

end Builtin
end Relayout
