import Relayout.Text.Basic

/-!
# Token names in a text

* `Occurrence`: a piece of a text together with where it starts.
* `munch`: how far the longest name reaches that begins a text.
* `occurrences`: the names found from left to right, at each place the longest one, and going on
  behind it. Hence `yyyy` is never read as two `yy`.

Empty names are never found. A search always succeeds, however many names there are and however long
they are.
-/

namespace Relayout.Layout

/-- A piece of a text and the number of characters before it. -/
structure Occurrence where
  start : Nat
  text : Text
  deriving DecidableEq

/-- The position just behind the piece. -/
def Occurrence.stop (o : Occurrence) : Nat := o.start + o.text.length

/-- Two pieces share a position. -/
def Occurrence.Overlaps (o p : Occurrence) : Prop := o.start < p.stop ∧ p.start < o.stop

instance (o p : Occurrence) : Decidable (o.Overlaps p) :=
  inferInstanceAs (Decidable (_ ∧ _))

/-- Length of the longest name that begins `text`; zero when no name but the empty one does. -/
def munch (names : List Text) (text : Text) : Nat :=
  (names.filter (·.isPrefixOf text)).foldr (fun name longest => max name.length longest) 0

/-- The names found in `text`, which starts at position `pos`. -/
def occurrencesFrom (names : List Text) (pos : Nat) (text : Text) : List Occurrence :=
  match text with
  | [] => []
  | c :: rest =>
    match munch names (c :: rest) with
    | 0 => occurrencesFrom names (pos + 1) rest
    | n + 1 =>
      ⟨pos, (c :: rest).take (n + 1)⟩ :: occurrencesFrom names (pos + n + 1) (rest.drop n)
termination_by text.length

/-- The names found in `text`, longest first at each place, from left to right. -/
def occurrences (names : List Text) (text : Text) : List Occurrence :=
  occurrencesFrom names 0 text

end Relayout.Layout
