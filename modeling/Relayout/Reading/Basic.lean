import Relayout.Error
import Relayout.Layout.Segment
import Relayout.NameMap
import Relayout.Policy
import Relayout.Token.Builtin

/-!
# Reading an input along a layout

Each segment of the layout takes as many characters of the input as it has itself. What a token
takes must be ASCII digits.

* `Reading`: the digits of each token, and the tokens in the order of the layout.
* `Cursor.step`: takes the characters of one segment.
* `Reading.ofInput`: reads a whole input.
-/

namespace Relayout

structure Reading where
  /-- the digits of each token; none when no occurrence of the token could be used -/
  raw : NameMap (Option Text) := ∅
  /-- the tokens of the layout in order, repeats included -/
  tokens : List Text := []
  deriving DecidableEq

namespace Reading

/-- The digits of a token, if it has some. -/
def value? (r : Reading) (token : Text) : Option Text := (r.raw.get? token).join

/-- The layout asks for tokens, and none of them has digits. -/
def allFailed (r : Reading) : Bool :=
  !r.tokens.isEmpty && r.raw.entries.all fun e => e.2.isNone

/-- Records an occurrence of a token with its digits; the last usable one counts. -/
def record (r : Reading) (token digits : Text) : Reading :=
  { raw := r.raw.insert token (some digits), tokens := r.tokens ++ [token] }

/-- Records an occurrence of a token without usable digits, which does not undo an earlier one. -/
def recordFailure (r : Reading) (token : Text) : Reading :=
  { raw := if r.raw.contains token then r.raw else r.raw.insert token none,
    tokens := r.tokens ++ [token] }

end Reading

/-- Where the reading of an input has come to. -/
structure Cursor where
  rest : Text
  position : Nat := 0
  reading : Reading := {}
  deriving DecidableEq

namespace Cursor

/-- Moves past the next `width` characters, or past what is left when there are fewer. -/
def advance (c : Cursor) (width : Nat) : Cursor :=
  { c with rest := c.rest.drop width, position := c.position + (c.rest.take width).length }

/-- What is wrong with the characters taken for a token. -/
def sliceError? (token slice : Text) : Option ConversionError :=
  if slice.length < token.length then some (.tooShort token)
  else if slice.all Char.isDigit then none
  else some (.notNumeric token slice)

/-- Takes the characters of one segment. -/
def step (mode : ParseMode) (policy : ErrorPolicy) (c : Cursor) (s : Layout.Segment) :
    Except ConversionError Cursor :=
  let slice := c.rest.take s.text.length
  let next := c.advance s.text.length
  match s with
  | .token token =>
    match sliceError? token slice with
    | none => .ok { next with reading := c.reading.record token slice }
    | some e =>
      match policy with
      | .silent => .ok { next with reading := c.reading.recordFailure token }
      | .throw => .error e
  | s =>
    if mode = .strict ∧ slice ≠ s.text then .error (.literalMismatch s.text c.position)
    else .ok next

/-- Ends a reading: in strict mode nothing may be left, and the layout must name a year. -/
def finish (mode : ParseMode) (c : Cursor) : Except ConversionError Reading :=
  match mode with
  | .positional => .ok c.reading
  | .strict =>
    if c.rest ≠ [] then .error (.trailingInput c.position c.rest)
    else if c.reading.raw.contains Builtin.yyyy.name || c.reading.raw.contains Builtin.yy.name then
      .ok c.reading
    else .error .missingYear

end Cursor

/-- Reads an input along a layout in which `names` are the tokens. -/
def Reading.ofInput (names : List Text) (mode : ParseMode) (policy : ErrorPolicy)
    (layout input : Text) : Except ConversionError Reading := do
  let cursor ← (Layout.segments names layout).foldlM (Cursor.step mode policy) ⟨input, 0, {}⟩
  cursor.finish mode

end Relayout
