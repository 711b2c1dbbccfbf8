import Relayout.Text.Basic

/-!
# Records in one line

How a described value with parts is written: a record as `Name { part: x, other: y }`, a table as
`{key: x, other: y}`, and a value that may be missing as `None` or `Some(x)`.
-/

namespace Relayout.Text

/-- Names with their described values. -/
def fields (parts : List (Text × Text)) : Text :=
  ", ".toList.intercalate (parts.map fun (name, value) => name ++ ": ".toList ++ value)

def record (name : Text) (parts : List (Text × Text)) : Text :=
  name ++ " \x7b ".toList ++ fields parts ++ " \x7d".toList

def table (parts : List (Text × Text)) : Text :=
  "\x7b".toList ++ fields parts ++ "\x7d".toList

def optional : Option Text → Text
  | none => "None".toList
  | some value => "Some(".toList ++ value ++ ")".toList

end Relayout.Text
