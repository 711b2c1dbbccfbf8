import Relayout.Layout.Segment
import Relayout.Token.Source

/-!
# Templates

An output layout made ready for writing many dates.

* `TokenResolver`: the sources of one token; the first that gives a text is taken, and the token's
  own name if none does.
* `Template.compile`: the template of a layout.
* `Template.render`: the text of a template for date parts.
-/

namespace Relayout

structure TokenResolver where
  token : Text
  overriding : Option Source := none
  handler : Option Source := none
  fallback : Option Source := none

namespace TokenResolver

/-- The sources of the token in the order in which they are asked. -/
def sources (r : TokenResolver) : List Source :=
  r.overriding.toList ++ r.handler.toList ++ r.fallback.toList

def resolve (r : TokenResolver) (parts : DateParts) : Text :=
  (r.sources.findSome? fun source => source.produce parts).getD r.token

def describe (r : TokenResolver) : Text :=
  let source (s : Option Source) : Text := Text.optional (s.map Source.describe)
  Text.record "TokenResolver".toList [
    ("token".toList, r.token.quote),
    ("over".toList, source r.overriding),
    ("handler".toList, source r.handler),
    ("fallback".toList, source r.fallback)]

end TokenResolver

/-- A piece of a template. -/
inductive Template.Item
  | fixed (text : Text)
  | token (resolver : TokenResolver)

structure Template where
  items : List Template.Item

namespace Template

def Item.render : Item → DateParts → Text
  | fixed text, _ => text
  | token resolver, parts => resolver.resolve parts

/-- The item of a name. It is fixed where the text can never differ. -/
def Item.ofName (handlers overrides defaults : TokenTable) (name : Text) : Item :=
  match (overrides.get? name).bind Source.literal? with
  | some text => fixed text
  | none =>
    let resolver : TokenResolver :=
      ⟨name, overrides.get? name, handlers.get? name, defaults.get? name⟩
    if resolver.sources.isEmpty then fixed name else token resolver

def Item.ofSegment (handlers overrides defaults : TokenTable) : Layout.Segment → Item
  | .literal text | .escaped text => fixed text
  | .token name | .word name => ofName handlers overrides defaults name

/-- The names that are tokens when a template is made. -/
def names (handlers overrides defaults : TokenTable) : List Text :=
  handlers.names ++ overrides.names ++ defaults.names

def compile (handlers overrides defaults : TokenTable) (layout : Text) : Template :=
  ⟨(Layout.outputSegments (names handlers overrides defaults) layout).map
    (Item.ofSegment handlers overrides defaults)⟩

def render (t : Template) (parts : DateParts) : Text := t.items.flatMap fun i => i.render parts

end Template
end Relayout
