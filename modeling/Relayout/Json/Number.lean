import Relayout.Text.Basic

/-!
# Numbers in JSON texts

`scanNumber?` takes a number from the front of a text, as far as the number reaches: digits without
a leading zero, behind a minus sign perhaps, then perhaps a fraction and perhaps an exponent.
-/

namespace Relayout.Json

/-- Takes the first character if it is wanted. -/
def scanOne (wanted : Char → Bool) : Text → Text × Text
  | [] => ([], [])
  | c :: rest => if wanted c then ([c], rest) else ([], c :: rest)

/-- Takes one or more digits. -/
def scanDigits? : Text → Option (Text × Text)
  | [] => none
  | c :: rest =>
    if c.isDigit then some (c :: rest.takeWhile Char.isDigit, rest.dropWhile Char.isDigit)
    else none

/-- Takes digits without a leading zero, or a single zero. -/
def scanWhole? : Text → Option (Text × Text)
  | '0' :: rest => some (['0'], rest)
  | text => scanDigits? text

/-- Takes a point with digits, if there is a point. -/
def scanFraction? : Text → Option (Text × Text)
  | '.' :: rest => (scanDigits? rest).map fun (ds, rest) => ('.' :: ds, rest)
  | text => some ([], text)

def isExponentMark (c : Char) : Bool := c = 'e' ∨ c = 'E'

def isSign (c : Char) : Bool := c = '+' ∨ c = '-'

/-- Takes an exponent, if there is one. -/
def scanExponent? (text : Text) : Option (Text × Text) :=
  let mark := scanOne isExponentMark text
  let sign := scanOne isSign mark.2
  if mark.1 = [] then some ([], text)
  else (scanDigits? sign.2).map fun (ds, rest) => (mark.1 ++ sign.1 ++ ds, rest)

/-- Takes a number as it is written. -/
def scanNumber? (text : Text) : Option (Text × Text) := do
  let (sign, rest) := scanOne (· = '-') text
  let (whole, rest) ← scanWhole? rest
  let (fraction, rest) ← scanFraction? rest
  let (exponent, rest) ← scanExponent? rest
  return (sign ++ whole ++ fraction ++ exponent, rest)

theorem scanOne_append (wanted : Char → Bool) (text : Text) :
    (scanOne wanted text).1 ++ (scanOne wanted text).2 = text := by
  cases text with
  | nil => rfl
  | cons c rest => by_cases h : wanted c <;> simp [scanOne, h]

theorem scanDigits?_append {text a b : Text} (h : scanDigits? text = some (a, b)) :
    a ++ b = text ∧ a ≠ [] := by
  cases text with
  | nil => exact nomatch h
  | cons c rest =>
    simp only [scanDigits?] at h
    split at h
    · cases h
      exact ⟨by simp, nofun⟩
    · exact nomatch h

theorem scanWhole?_append {text a b : Text} (h : scanWhole? text = some (a, b)) :
    a ++ b = text ∧ a ≠ [] := by
  unfold scanWhole? at h
  split at h
  · cases h
    exact ⟨rfl, nofun⟩
  · exact scanDigits?_append h

theorem scanFraction?_append {text a b : Text} (h : scanFraction? text = some (a, b)) :
    a ++ b = text := by
  unfold scanFraction? at h
  split at h
  · obtain ⟨⟨ds, rest⟩, hds, heq⟩ := Option.map_eq_some_iff.1 h
    cases heq
    rw [← (scanDigits?_append hds).1, List.cons_append]
  · cases h
    rfl

theorem scanExponent?_append {text a b : Text} (h : scanExponent? text = some (a, b)) :
    a ++ b = text := by
  simp only [scanExponent?] at h
  split at h
  · cases h
    rfl
  · obtain ⟨⟨ds, rest⟩, hds, heq⟩ := Option.map_eq_some_iff.1 h
    cases heq
    rw [List.append_assoc, List.append_assoc, (scanDigits?_append hds).1, scanOne_append,
      scanOne_append]

theorem scanNumber?_append {text a b : Text} (h : scanNumber? text = some (a, b)) :
    a ++ b = text ∧ a ≠ [] := by
  simp only [scanNumber?, Option.bind_eq_bind, Option.bind_eq_some_iff, Option.pure_def,
    Option.some.injEq, Prod.mk.injEq, Prod.exists] at h
  obtain ⟨whole, _, hwhole, fraction, _, hfraction, exponent, _, hexponent, rfl, rfl⟩ := h
  obtain ⟨hw, hne⟩ := scanWhole?_append hwhole
  constructor
  · rw [List.append_assoc, List.append_assoc, List.append_assoc, scanExponent?_append hexponent,
      scanFraction?_append hfraction, hw, scanOne_append]
  · simp [hne]

end Relayout.Json
