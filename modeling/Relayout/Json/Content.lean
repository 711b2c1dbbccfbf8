import Relayout.Decimal
import Relayout.Json.Value
import Relayout.NameMap

/-!
# What a JSON value is read as

Each reader gives none where the value has another form.
-/

namespace Relayout.Json

namespace Value

def text? : Value → Option Text
  | string text => text
  | _ => none

/-- An integer of at most 64 bits. Negative zero, a fraction or an exponent make it none. -/
def int64? : Value → Option Int64
  | number literal => if literal = "-0".toList then none else Decimal.readInt64? literal
  | _ => none

/-- An integer, or null for none. -/
def optionalInt64? : Value → Option (Option Int64)
  | null => some none
  | v => v.int64?.map some

def texts? : Value → Option (List Text)
  | array items => items.mapM text?
  | _ => none

/-- An object of texts; of members with the same name the last counts. -/
def textMap? : Value → Option (NameMap Text)
  | object members =>
    members.foldlM
      (fun m (key, v) => do
        let name ← key
        let text ← v.text?
        return m.insert name text)
      ∅
  | _ => none

/-- The name of a choice, written as a text or as an object of the name with null. -/
def choice? : Value → Option Text
  | string text => text
  | object [(key, null)] => key
  | _ => none

end Value

/-- Reads a value that may be missing. -/
def orElse (missing : α) (read? : Value → Option α) : Option Value → Option α
  | none => some missing
  | some v => read? v

/-- The known members of an object. None of them may be repeated; others are passed over. -/
def Members.known? (names : List Text) (members : Members) : Option (NameMap Value) :=
  members.foldlM
    (fun m (key, v) => do
      let name ← key
      if !names.contains name then return m
      else if m.contains name then none
      else return m.insert name v)
    ∅

end Relayout.Json
