import Relayout.Error
import Relayout.Layout.Segment
import Relayout.Policy
import Relayout.Token.Source

/-!
# What an output layout asks for

Every token and word of an output layout must be known, and there must be something to write it
from.

* `Sources`: where the text of a token may come from.
* `Sources.producible`: the names for which there is something.
* `Sources.resolve`: checks a layout, and gives the sources that go before the handlers.
-/

namespace Relayout

/-- The built-in and other handlers, and what the caller has set. -/
structure Sources where
  handlers : TokenTable
  custom : TokenTable := ∅
  defaults : TokenTable := ∅
  overrides : TokenTable := ∅

namespace Sources

def names (s : Sources) : List Text :=
  s.handlers.names ++ s.custom.names ++ s.defaults.names ++ s.overrides.names

def knows (s : Sources) (token : Text) : Bool := s.names.contains token

/-- Adds all tokens of a field of which a token is there. -/
def expandField (names : List Text) (f : Field) : List Text :=
  bif (Builtin.fieldNames f).any names.contains then names ++ Builtin.fieldNames f else names

/-- Adds the tokens of one field after the other. -/
def expandFields (names : List Text) : List Text := Field.all.foldl expandField names

/-- The tokens for which there is something to write: those that were parsed or set by the caller,
and with one token of a field all others of the field. -/
def producible (s : Sources) (parsed : List Text) : List Text :=
  expandFields (parsed ++ s.overrides.names ++ s.custom.names ++ s.defaults.names)

/-- A four-digit year is at hand once a two-digit year was parsed. -/
def isDerived (parsed : List Text) (token : Text) : Bool :=
  token = Builtin.yyyy.name && parsed.contains Builtin.yy.name

/-- Why a token cannot be written. -/
def failure? (s : Sources) (parsed : List Text) (token : Text) : Option ConversionError :=
  if isDerived parsed token then none
  else if !s.knows token then some (.unknownToken token)
  else if (s.producible parsed).contains token then none
  else some (.cannotProduce token)

/-- The overrides, with the default of every token that was not parsed put over them. -/
def settled (s : Sources) (parsed : List Text) : TokenTable :=
  s.overrides.merge (s.defaults.filterNames fun token => !parsed.contains token)

/-- The names that the tokens and words of an output layout ask for, in order. -/
def needed (s : Sources) (layout : Text) : List Text :=
  (Layout.outputSegments s.names layout).filterMap Layout.Segment.name?

/-- Lets a name that cannot be written stand for itself, or fails. -/
def settle (s : Sources) (parsed : List Text) (policy : ErrorPolicy) (m : TokenTable)
    (token : Text) : Except ConversionError TokenTable :=
  match s.failure? parsed token, policy with
  | none, _ => .ok m
  | some _, .silent => .ok (m.insert token (.literal token))
  | some e, .throw => .error e

/-- The sources that go before the handlers when the layout is written, after its check. -/
def resolve (s : Sources) (policy : ErrorPolicy) (parsed : List Text) (layout : Text) :
    Except ConversionError TokenTable :=
  (s.needed layout).foldlM (s.settle parsed policy) (s.settled parsed)

end Sources
end Relayout
