import Relayout.Json.Number
import Relayout.Json.StringLiteral

/-!
# Tokens of JSON texts

* `Token.scan?`: the first token of a text, with the text behind it.
* `Token.scanAll?`: all tokens of a text, white space left out.
-/

namespace Relayout.Json

inductive Token
  | leftBracket | rightBracket | leftBrace | rightBrace | colon | comma
  | null
  | bool (b : Bool)
  /-- a number as it is written -/
  | number (literal : Text)
  /-- a string, or none if it holds half of a surrogate pair alone -/
  | string (text : Option Text)
  deriving DecidableEq

def isSpace (c : Char) : Bool := c = ' ' ∨ c = '\t' ∨ c = '\n' ∨ c = '\r'

namespace Token

/-- The token that a text begins with, and the text behind it. -/
def scan? : Text → Option (Token × Text)
  | '[' :: rest => some (leftBracket, rest)
  | ']' :: rest => some (rightBracket, rest)
  | '\x7b' :: rest => some (leftBrace, rest)
  | '\x7d' :: rest => some (rightBrace, rest)
  | ':' :: rest => some (colon, rest)
  | ',' :: rest => some (comma, rest)
  | 'n' :: 'u' :: 'l' :: 'l' :: rest => some (null, rest)
  | 't' :: 'r' :: 'u' :: 'e' :: rest => some (bool true, rest)
  | 'f' :: 'a' :: 'l' :: 's' :: 'e' :: rest => some (bool false, rest)
  | '"' :: rest => (scanString? rest).map fun (pieces, rest) => (string (joinHalves pieces), rest)
  | text => (scanNumber? text).map fun (literal, rest) => (number literal, rest)

theorem scan?_append {text b : Text} {t : Token} (h : scan? text = some (t, b)) :
    ∃ a, a ++ b = text ∧ a ≠ [] := by
  unfold scan? at h
  split at h
  case h_7 | h_8 =>
    cases h
    exact ⟨[_, _, _, _], rfl, nofun⟩
  case h_9 =>
    cases h
    exact ⟨[_, _, _, _, _], rfl, nofun⟩
  case h_10 =>
    obtain ⟨⟨pieces, rest⟩, hstring, heq⟩ := Option.map_eq_some_iff.1 h
    cases heq
    obtain ⟨a, rfl, _⟩ := scanString?_append hstring
    exact ⟨'"' :: a, rfl, nofun⟩
  case h_11 =>
    obtain ⟨⟨literal, rest⟩, hnumber, heq⟩ := Option.map_eq_some_iff.1 h
    cases heq
    exact ⟨literal, scanNumber?_append hnumber⟩
  all_goals
    cases h
    exact ⟨[_], rfl, nofun⟩

theorem length_lt_of_scan? {text b : Text} {t : Token} (h : scan? text = some (t, b)) :
    b.length < text.length := by
  obtain ⟨a, rfl, hne⟩ := scan?_append h
  have := List.length_pos_iff.2 hne
  simp only [List.length_append]
  omega

/-- The tokens of a text; white space may stand between them. -/
def scanAll? (text : Text) : Option (List Token) :=
  match text with
  | [] => some []
  | c :: rest =>
    if isSpace c then scanAll? rest
    else
      match _scanned : scan? (c :: rest) with
      | none => none
      | some (t, behind) => (scanAll? behind).map (t :: ·)
termination_by text.length
decreasing_by
  · simp
  · exact length_lt_of_scan? _scanned

end Token
end Relayout.Json
