import Relayout.Date.Year
import Relayout.Policy
import Relayout.Token.Source

/-!
# Options of a conversion

* `Options`: all that a caller can choose.
* `Options.Change`: one choice; `Options.ofChanges` makes them one after the other.
-/

namespace Relayout

structure Options where
  policy : ErrorPolicy := .throw
  mode : ParseMode := .positional
  converter : Option YearConverter := none
  /-- tokens besides the built-in ones, or in their place -/
  custom : TokenTable := ∅
  /-- sources that go before the parsed value -/
  overrides : TokenTable := ∅
  /-- sources for tokens that were not parsed or that nothing else can write -/
  defaults : TokenTable := ∅

namespace Options

inductive Change
  | policy (policy : ErrorPolicy)
  | mode (mode : ParseMode)
  | converter (converter : YearConverter)
  | custom (token : Text) (handler : Handler)
  | overrideToken (token : Text) (source : Source)
  | defaultToken (token : Text) (source : Source)

/-- The choice of a converter that refuses no year. -/
def Change.years (expand : Int64 → Int64) : Change := .converter fun yy => .ok (expand yy)

/-- Makes one choice, in place of an earlier one of the same thing. -/
def change (o : Options) : Change → Options
  | .policy policy => { o with policy }
  | .mode mode => { o with mode }
  | .converter converter => { o with converter := some converter }
  | .custom token handler => { o with custom := o.custom.insert token (.handler handler) }
  | .overrideToken token source => { o with overrides := o.overrides.insert token source }
  | .defaultToken token source => { o with defaults := o.defaults.insert token source }

def ofChanges (changes : List Change) : Options := changes.foldl change {}

def describe (o : Options) : Text :=
  Text.record "FormatOptions".toList [
    ("error_policy".toList, o.policy.describe),
    ("parse_mode".toList, o.mode.describe),
    ("year_converter".toList, Text.optional (o.converter.map fun _ => "\"..\"".toList)),
    ("custom_tokens".toList, o.custom.describe),
    ("override_tokens".toList, o.overrides.describe),
    ("default_tokens".toList, o.defaults.describe)]

end Options
end Relayout
