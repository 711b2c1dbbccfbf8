import Relayout.Layout.Occurrence

/-!
# Words of a text

* `letterRuns`: the longest runs of ASCII letters, each with its place.
* `covers`: whether occurrences leave no position of a run free.
* `wordRuns`: the different runs of a layout in the order of their first appearance.
-/

namespace Relayout.Layout

/-- Puts a letter at `pos` in front of the runs behind it, joining the run that begins next to it. -/
def joinLetter (pos : Nat) (c : Char) : List Occurrence → List Occurrence
  | [] => [⟨pos, [c]⟩]
  | r :: rs => if r.start = pos + 1 then ⟨pos, c :: r.text⟩ :: rs else ⟨pos, [c]⟩ :: r :: rs

/-- The runs of ASCII letters in a text that starts at position `pos`. -/
def letterRunsFrom (pos : Nat) : Text → List Occurrence
  | [] => []
  | c :: rest =>
    if c.isAlpha then joinLetter pos c (letterRunsFrom (pos + 1) rest)
    else letterRunsFrom (pos + 1) rest

/-- The runs of ASCII letters in a text that no letter precedes or follows. -/
def letterRuns (text : Text) : List Occurrence := letterRunsFrom 0 text

/-- How far one gets from `pos` by stepping to the end of each occurrence that one stands in. -/
def reach (found : List Occurrence) (pos : Nat) : Nat :=
  found.foldl (fun p o => if o.start ≤ p ∧ p < o.stop then o.stop else p) pos

/-- Occurrences, given in order, leave no position of `run` free. They may begin before the run
and end behind it. -/
def covers (found : List Occurrence) (run : Occurrence) : Bool :=
  run.stop ≤ reach found run.start

/-- Keeps the first of equal elements. -/
def distinct [DecidableEq α] : List α → List α
  | [] => []
  | x :: xs => x :: (distinct xs).filter (· ≠ x)

/-- The different letter runs of a layout, brackets not minded, in order of first appearance. -/
def wordRuns (layout : Text) : List Text := distinct ((letterRuns layout).map (·.text))

end Relayout.Layout
