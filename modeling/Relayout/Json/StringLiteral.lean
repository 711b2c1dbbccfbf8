import Relayout.Text.Basic

/-!
# Strings in JSON texts

* `scanString?`: the pieces of a string up to its closing quote.
* `joinHalves`: the text of the pieces.

A string may spell half of a surrogate pair alone. It is well-formed, but it is no text.
-/

namespace Relayout.Json

/-- A piece of a string: a character, or half of a surrogate pair. -/
inductive StringPiece
  | char (c : Char)
  | half (unit : Nat)
  deriving DecidableEq

def isHighHalf (unit : Nat) : Bool := 0xd800 ≤ unit ∧ unit < 0xdc00

def isLowHalf (unit : Nat) : Bool := 0xdc00 ≤ unit ∧ unit < 0xe000

/-- The piece that a number of four hexadecimal digits stands for. -/
def StringPiece.ofUnit (unit : Nat) : StringPiece :=
  if isHighHalf unit || isLowHalf unit then half unit else char (Char.ofNat unit)

/-- Joins the halves of pairs; fails where a half is alone. -/
def joinHalves : List StringPiece → Option Text
  | [] => some []
  | .char c :: pieces => (joinHalves pieces).map (c :: ·)
  | .half high :: .half low :: pieces =>
    if isHighHalf high && isLowHalf low then
      (joinHalves pieces).map
        (Char.ofNat (0x10000 + (high - 0xd800) * 0x400 + (low - 0xdc00)) :: ·)
    else none
  | .half _ :: _ => none

def hexDigit? (c : Char) : Option Nat :=
  if c.isDigit then some (c.toNat - '0'.toNat)
  else if 'a' ≤ c ∧ c ≤ 'f' then some (c.toNat - 'a'.toNat + 10)
  else if 'A' ≤ c ∧ c ≤ 'F' then some (c.toNat - 'A'.toNat + 10)
  else none

def hexNumber? (digits : Text) : Option Nat :=
  digits.foldlM (fun n c => (hexDigit? c).map (16 * n + ·)) 0

/-- The character that a backslash and a letter stand for. -/
def shortEscape? : Char → Option Char
  | '"' => some '"'
  | '\\' => some '\\'
  | '/' => some '/'
  | 'b' => some '\x08'
  | 'f' => some '\x0c'
  | 'n' => some '\n'
  | 'r' => some '\r'
  | 't' => some '\t'
  | _ => none

/-- The pieces of a string up to the closing quote, with the text behind the quote. -/
def scanString? : Text → Option (List StringPiece × Text)
  | [] => none
  | '"' :: rest => some ([], rest)
  | '\\' :: 'u' :: a :: b :: c :: d :: rest => do
    let unit ← hexNumber? [a, b, c, d]
    let (pieces, rest) ← scanString? rest
    return (.ofUnit unit :: pieces, rest)
  | '\\' :: letter :: rest => do
    let c ← shortEscape? letter
    let (pieces, rest) ← scanString? rest
    return (.char c :: pieces, rest)
  | c :: rest =>
    if c = '\\' ∨ c.toNat < 0x20 then none
    else do
      let (pieces, rest) ← scanString? rest
      return (.char c :: pieces, rest)

theorem scanString?_append {text b : Text} {pieces : List StringPiece}
    (h : scanString? text = some (pieces, b)) : ∃ a, a ++ b = text ∧ a ≠ [] := by
  fun_induction scanString? text generalizing pieces with
  | case1 => exact nomatch h
  | case2 rest =>
    cases h
    exact ⟨['"'], rfl, nofun⟩
  | case3 a b c d rest ih =>
    simp only [Option.bind_eq_bind, Option.bind_eq_some_iff, Option.pure_def, Option.some.injEq,
      Prod.mk.injEq, Prod.exists] at h
    obtain ⟨_, _, _, _, hrest, _, rfl⟩ := h
    obtain ⟨e, rfl, _⟩ := ih hrest
    exact ⟨'\\' :: 'u' :: a :: b :: c :: d :: e, rfl, nofun⟩
  | case4 letter rest _ ih =>
    simp only [Option.bind_eq_bind, Option.bind_eq_some_iff, Option.pure_def, Option.some.injEq,
      Prod.mk.injEq, Prod.exists] at h
    obtain ⟨_, _, _, _, hrest, _, rfl⟩ := h
    obtain ⟨e, rfl, _⟩ := ih hrest
    exact ⟨'\\' :: letter :: e, rfl, nofun⟩
  | case5 => exact nomatch h
  | case6 c rest _ _ _ _ ih =>
    simp only [Option.bind_eq_bind, Option.bind_eq_some_iff, Option.pure_def, Option.some.injEq,
      Prod.mk.injEq, Prod.exists] at h
    obtain ⟨_, _, hrest, _, rfl⟩ := h
    obtain ⟨e, rfl, _⟩ := ih hrest
    exact ⟨c :: e, rfl, nofun⟩

end Relayout.Json
