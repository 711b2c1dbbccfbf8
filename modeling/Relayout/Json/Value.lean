import Relayout.Json.Token

/-!
# JSON values

* `Value`: what a JSON text says. Numbers are kept as they are written.
* `Value.ofTokens?`: reads a value from its tokens with a stack of open arrays and objects, so that
  no depth is too great.
* `Value.read?`: reads a value from a text.
-/

namespace Relayout.Json

inductive Value
  | null
  | bool (b : Bool)
  | number (literal : Text)
  /-- a string, or none if it holds half of a surrogate pair alone -/
  | string (text : Option Text)
  | array (items : List Value)
  | object (members : List (Option Text × Value))

/-- The members of an object in the order of the text. -/
abbrev Members := List (Option Text × Value)

/-- An array or object whose end has not come yet, with its newest part first. -/
inductive Frame
  | array (items : List Value)
  /-- the value of `key` comes next -/
  | object (members : Members) (key : Option Text)

/-- Where the reading of a value stands, inside the open arrays and objects of `stack`. -/
inductive State
  /-- a value comes next -/
  | value (stack : List Frame)
  /-- an array has begun -/
  | arrayStart (stack : List Frame)
  /-- an object has begun -/
  | objectStart (stack : List Frame)
  /-- the key of a further member comes next -/
  | key (stack : List Frame) (members : Members)
  /-- the colon behind a key comes next -/
  | colon (stack : List Frame) (members : Members) (key : Option Text)
  /-- a value has come to its end -/
  | done (stack : List Frame) (v : Value)

namespace State

def begin? (stack : List Frame) : Token → Option State
  | .leftBracket => some (arrayStart stack)
  | .leftBrace => some (objectStart stack)
  | .null => some (done stack .null)
  | .bool b => some (done stack (.bool b))
  | .number literal => some (done stack (.number literal))
  | .string text => some (done stack (.string text))
  | .rightBracket | .rightBrace | .colon | .comma => none

def step? : State → Token → Option State
  | value stack, t => begin? stack t
  | arrayStart stack, .rightBracket => some (done stack (.array []))
  | arrayStart stack, t => begin? (.array [] :: stack) t
  | objectStart stack, .rightBrace => some (done stack (.object []))
  | objectStart stack, .string k => some (colon stack [] k)
  | key stack members, .string k => some (colon stack members k)
  | colon stack members k, .colon => some (value (.object members k :: stack))
  | done (.array items :: stack) v, .comma => some (value (.array (v :: items) :: stack))
  | done (.array items :: stack) v, .rightBracket =>
    some (done stack (.array (v :: items).reverse))
  | done (.object members k :: stack) v, .comma => some (key stack ((k, v) :: members))
  | done (.object members k :: stack) v, .rightBrace =>
    some (done stack (.object ((k, v) :: members).reverse))
  | _, _ => none

/-- The value that has been read, if nothing is open any more. -/
def result? : State → Option Value
  | done [] v => some v
  | _ => none

end State

namespace Value

/-- The value of a whole sequence of tokens. -/
def ofTokens? (ts : List Token) : Option Value :=
  (ts.foldlM State.step? (.value [])).bind State.result?

def read? (text : Text) : Option Value := (Token.scanAll? text).bind ofTokens?

end Value
end Relayout.Json
