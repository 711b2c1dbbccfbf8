import Relayout.Options
import Relayout.Reading.Parts
import Relayout.Resolution
import Relayout.Template

/-!
# Converting a date from one layout to another
-/

namespace Relayout

/-- The built-in handlers, with the caller's tokens put over them. -/
def Options.handlers (o : Options) : TokenTable := Builtin.handlers.merge o.custom

/-- Where the text of a token may come from under these options. -/
def Options.sources (o : Options) : Sources :=
  ⟨o.handlers, o.custom, o.defaults, o.overrides⟩

/-- Writes date parts in an output layout. -/
def Options.write (o : Options) (layout : Text) (parts : DateParts) :
    Except ConversionError Text := do
  let resolved ← o.sources.resolve o.policy parts.tokens layout
  return (Template.compile o.handlers resolved o.defaults layout).render parts

/-- Reads an input in one layout and writes it in another. Under the silent policy an input that
does not follow its layout, or that gives no digits at all, is handed back as it is. -/
def Options.convert (o : Options) (inputLayout outputLayout input : Text) :
    Except ConversionError Text :=
  match Reading.ofInput o.handlers.names o.mode o.policy inputLayout input with
  | .error e => if o.policy = .silent ∧ e.isParseFailure then .ok input else .error e
  | .ok reading => do
    if o.policy = .silent ∧ reading.allFailed then return input
    let parts ← DateParts.ofReading reading o.converter o.policy
    o.write outputLayout parts

end Relayout
