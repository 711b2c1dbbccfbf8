import Relayout.Text.Basic

/-!
# Calendar fields
-/

namespace Relayout

/-- The six parts of a date with a time of day. -/
inductive Field
  | year | month | day | hour | minute | second
  deriving DecidableEq

namespace Field

/-- The fields from the largest unit to the smallest. -/
def all : List Field := [year, month, day, hour, minute, second]

theorem mem_all (f : Field) : f ∈ all := by cases f <;> decide

def name : Field → Text
  | year => "year".toList
  | month => "month".toList
  | day => "day".toList
  | hour => "hour".toList
  | minute => "minute".toList
  | second => "second".toList

end Field
end Relayout
