import Relayout.NameMap
import Relayout.Text.Quoted
import Relayout.Text.Record
import Relayout.Token.Builtin

/-!
# Sources of a token's text

A token is written by a fixed text or by a handler, which may decline. Functions cannot be compared,
so a handler carries a tag, and handlers are equal when their tags are.
-/

namespace Relayout

/-- Text made from date parts, where they allow it. -/
abbrev Writer := DateParts → Option Text

structure Handler where
  tag : Nat
  write : Writer

inductive Source
  | literal (text : Text)
  | handler (h : Handler)

namespace Source

/-- The text that the source gives for date parts. -/
def produce : Source → Writer
  | literal text, _ => some text
  | handler h, parts => h.write parts

def literal? : Source → Option Text
  | literal text => some text
  | handler _ => none

/-- Fixed texts are compared as texts, handlers by their tags. -/
def same : Source → Source → Bool
  | literal a, literal b => a = b
  | handler a, handler b => a.tag = b.tag
  | _, _ => false

instance : BEq Source := ⟨same⟩

def describe : Source → Text
  | literal text => "Literal(".toList ++ text.quote ++ ")".toList
  | handler _ => "Handler(..)".toList

end Source

abbrev TokenTable := NameMap Source

namespace TokenTable

def describe (m : TokenTable) : Text :=
  Text.table (m.entries.map fun (name, source) => (name.quote, source.describe))

/-- The text of each token, where there is one. -/
def produceAll (m : TokenTable) (parts : DateParts) : NameMap (Option Text) :=
  m.map fun source => source.produce parts

end TokenTable

namespace Builtin

/-- The built-in tokens, each with its handler; the tags are their places in the list. -/
def handlers : TokenTable :=
  NameMap.ofList (all.zipIdx.map fun (t, place) => (t.name, .handler ⟨place, t.write⟩))

end Builtin
end Relayout
