import Relayout.Text.Basic

/-!
# Bracketed text

In a layout, text between brackets stands for itself. A bracketed span reaches from the leftmost
`[` to the first `]` behind it; the next one is looked for behind that. A `[` without a later `]`,
and any other `]`, are ordinary text.

* `firstSpan?`: the leftmost span of a layout, with the text on both sides.
* `stretches`: a layout as ordinary and bracketed text.
-/

namespace Relayout.Layout

/-- A part of a layout: ordinary text, or the inside of a bracketed span. -/
inductive Stretch
  | plain (text : Text)
  | bracketed (text : Text)
  deriving DecidableEq

/-- The text before the first `c` and the text behind it, if there is a `c`. -/
def cutAt (c : Char) : Text → Option (Text × Text)
  | [] => none
  | d :: rest => if d = c then some ([], rest) else (cutAt c rest).map fun (a, b) => (d :: a, b)

/-- The text before the first bracketed span, the inside of the span, and the text behind it. -/
def firstSpan? (layout : Text) : Option (Text × Text × Text) := do
  let (before, behind) ← cutAt '[' layout
  let (inside, rest) ← cutAt ']' behind
  return (before, inside, rest)

theorem eq_of_cutAt {c : Char} {text a b : Text} (h : cutAt c text = some (a, b)) :
    text = a ++ c :: b := by
  induction text generalizing a with
  | nil => simp [cutAt] at h
  | cons d rest ih =>
    unfold cutAt at h
    split at h
    · simp_all
    · obtain ⟨⟨a', b'⟩, hcut, heq⟩ := Option.map_eq_some_iff.1 h
      simp only [Prod.mk.injEq] at heq
      obtain ⟨rfl, rfl⟩ := heq
      simp [ih hcut]

theorem eq_of_firstSpan? {layout a e b : Text} (h : firstSpan? layout = some (a, e, b)) :
    layout = a ++ '[' :: e ++ ']' :: b := by
  simp only [firstSpan?, Option.bind_eq_bind, Option.bind_eq_some_iff, Option.pure_def,
    Option.some.injEq, Prod.mk.injEq, Prod.exists] at h
  obtain ⟨_, behind, hopen, _, _, hclose, rfl, rfl, rfl⟩ := h
  simp [eq_of_cutAt hopen, eq_of_cutAt hclose]

/-- The stretches of a layout from left to right. -/
def stretches (layout : Text) : List Stretch :=
  match _span : firstSpan? layout with
  | none => [.plain layout]
  | some (before, inside, rest) => .plain before :: .bracketed inside :: stretches rest
termination_by layout.length
decreasing_by
  simp only [eq_of_firstSpan? _span, List.length_append, List.length_cons]
  omega

end Relayout.Layout
