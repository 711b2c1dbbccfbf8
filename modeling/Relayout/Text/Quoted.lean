import Relayout.Text.Unprintable

/-!
# Quoted text

A text in double quotes, as messages show it. A quote and a backslash get a backslash in front,
the usual controls a letter, and other characters that cannot be shown their hexadecimal number.
-/

namespace Relayout.Text

/-- The written form of a character between quotes. -/
def quoteChar (c : Char) : Text :=
  match c with
  | '"' => "\\\"".toList
  | '\\' => "\\\\".toList
  | '\x00' => "\\0".toList
  | '\t' => "\\t".toList
  | '\n' => "\\n".toList
  | '\r' => "\\r".toList
  | c =>
    if isUnprintable c then "\\u\x7b".toList ++ Nat.toDigits 16 c.toNat ++ "\x7d".toList
    else [c]

/-- A text in double quotes. -/
def quote (text : Text) : Text := '"' :: text.flatMap quoteChar ++ ['"']

end Relayout.Text
