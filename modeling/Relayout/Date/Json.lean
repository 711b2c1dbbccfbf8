import Relayout.Date.Parts
import Relayout.Json.Content

/-!
# Date parts in JSON

An object with a member for each field and `tokens`, all of which may be missing, or an array of
the six fields with or without the tokens at its end. A field is an integer or null.
-/

namespace Relayout.DateParts

open Json (Value)

def tokensName : Text := "tokens".toList

/-- Date parts from the values of the fields and of the tokens, where there are any. -/
def ofValues? (value : Field → Option Value) (tokens : Option Value) : Option DateParts := do
  let field (f : Field) := Json.orElse none Value.optionalInt64? (value f)
  return {
    year := ← field .year
    month := ← field .month
    day := ← field .day
    hour := ← field .hour
    minute := ← field .minute
    second := ← field .second
    tokens := ← Json.orElse [] Value.texts? tokens }

def ofJson? : Value → Option DateParts
  | .object members => do
    let m ← Json.Members.known? (tokensName :: Field.all.map Field.name) members
    ofValues? (fun f => m.get? f.name) (m.get? tokensName)
  | .array items =>
    if Field.all.length ≤ items.length ∧ items.length ≤ Field.all.length + 1 then
      ofValues? (fun f => items[Field.all.idxOf f]?) items[Field.all.length]?
    else none
  | _ => none

def readJson? (text : Text) : Option DateParts := (Value.read? text).bind ofJson?

end Relayout.DateParts
