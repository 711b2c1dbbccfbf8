import Relayout.Proofs.Bytes
import Relayout.Proofs.Layout.Tiling

/-!
# Reading a layout by cuts at bytes

`cutSegments?` reads a layout by slices of its UTF-8 form, as a program does that knows byte
positions only, and gives nothing as soon as the bounds of one are refused. None ever is, and what
is cut are the segments of the layout (`cutSegments?_eq`). With what `Splits` says of these, reading
a layout loses and invents nothing (`segments_split`).
-/

namespace Relayout.Layout

/-- The byte at which the first `c` of a text begins. -/
def byteOf? (c : Char) (text : Text) : Option Nat := (cutAt c text).map (·.1.utf8Size)

/-- `firstSpan?` by cuts at bytes. Each bracket is one byte. -/
def cutSpan? (layout : Text) : Option (Option (Text × Text × Text)) :=
  match byteOf? '[' layout with
  | none => some none
  | some opening => do
    let behind ← layout.slice? (opening + 1) layout.utf8Size
    match byteOf? ']' behind with
    | none => return none
    | some closing =>
      let before ← layout.slice? 0 opening
      let inside ← behind.slice? 0 closing
      let rest ← behind.slice? (closing + 1) behind.utf8Size
      return some (before, inside, rest)

/-- `fill` by cuts at bytes, from byte `last` on. A piece is cut out too, and is to have its text. -/
def cutPieces? (text : Text) (last : Nat) : List Piece → Option (List Segment)
  | [] => do
    return gap (← text.slice? last text.utf8Size)
  | p :: ps => do
    let first := text.byteAt p.start
    let next := first + p.segment.text.utf8Size
    let between ← text.slice? last first
    let own ← text.slice? first next
    if own = p.segment.text then
      return gap between ++ p.segment :: (← cutPieces? text next ps)
    else none

variable {names : List Text} {text layout : Text} {ps : List Piece} {pos : Nat}
  {lex : Text → List Segment} {lex? : Text → Option (List Segment)}

/-! ## Spans -/

theorem slice?_before {c : Char} {a b : Text} :
    Text.slice? (a ++ c :: b) 0 a.utf8Size = some a :=
  Text.slice?_eq_some_iff.2 ⟨[], c :: b, rfl, rfl, rfl⟩

theorem slice?_behind {c : Char} {a b : Text} (hc : c.utf8Size = 1) :
    Text.slice? (a ++ c :: b) (a.utf8Size + 1) (Text.utf8Size (a ++ c :: b)) = some b := by
  refine Text.slice?_eq_some_iff.2 ⟨a ++ [c], [], ?_, ?_, ?_⟩
  · rw [List.append_nil, List.append_assoc, List.singleton_append]
  · rw [Text.utf8Size_append, Text.utf8Size, hc]
    rfl
  · rw [List.append_assoc, List.singleton_append]

/-- The bounds at a bracket are in order, in range, and between characters. -/
theorem cutSpan?_eq (layout : Text) : cutSpan? layout = some (firstSpan? layout) := by
  cases hopen : cutAt '[' layout with
  | none => simp [cutSpan?, byteOf?, firstSpan?, hopen]
  | some opened =>
    obtain ⟨a, behind⟩ := opened
    have hbehind : layout.slice? (a.utf8Size + 1) layout.utf8Size = some behind := by
      rw [eq_of_cutAt hopen]
      exact slice?_behind rfl
    cases hclose : cutAt ']' behind with
    | none => simp [cutSpan?, byteOf?, firstSpan?, hopen, hbehind, hclose]
    | some closed =>
      obtain ⟨e, b⟩ := closed
      have hbefore : layout.slice? 0 a.utf8Size = some a := by
        rw [eq_of_cutAt hopen]
        exact slice?_before
      have hinside : behind.slice? 0 e.utf8Size = some e := by
        rw [eq_of_cutAt hclose]
        exact slice?_before
      have hrest : behind.slice? (e.utf8Size + 1) behind.utf8Size = some b := by
        rw [eq_of_cutAt hclose]
        exact slice?_behind rfl
      simp [cutSpan?, byteOf?, firstSpan?, hopen, hbehind, hclose, hbefore, hinside, hrest]

/-- `segmentsBy` by cuts at bytes. -/
def cutSegments? (lex? : Text → Option (List Segment)) (layout : Text) : Option (List Segment) :=
  match _span : cutSpan? layout with
  | none => none
  | some none => lex? layout
  | some (some (before, inside, rest)) => do
    let segs ← lex? before
    return segs ++ enclosed inside ++ (← cutSegments? lex? rest)
termination_by layout.length
decreasing_by
  rw [cutSpan?_eq] at _span
  simp only [eq_of_firstSpan? (Option.some.inj _span), List.length_append, List.length_cons]
  omega

theorem cutSegments?_of_none (h : firstSpan? layout = none) :
    cutSegments? lex? layout = lex? layout := by
  rw [← Option.some_inj, ← cutSpan?_eq] at h
  rw [cutSegments?]
  split
  next hspan => exact nomatch h.symm.trans hspan
  next => rfl
  next hspan => exact nomatch h.symm.trans hspan

theorem cutSegments?_of_some {a e b : Text} (h : firstSpan? layout = some (a, e, b)) :
    cutSegments? lex? layout = do
      return (← lex? a) ++ enclosed e ++ (← cutSegments? lex? b) := by
  rw [← Option.some_inj, ← cutSpan?_eq] at h
  rw [cutSegments?]
  split
  next hspan => exact nomatch h.symm.trans hspan
  next hspan => exact nomatch h.symm.trans hspan
  next hspan =>
    cases h.symm.trans hspan
    rfl

/-- No cut of a layout is refused where none is in its ordinary text. -/
theorem cutSegments?_eq (h : ∀ t, lex? t = some (lex t)) (layout : Text) :
    cutSegments? lex? layout = some (segmentsBy lex layout) := by
  rw [segmentsBy_eq_flatMap]
  fun_induction stretches layout with
  | case1 layout hspan =>
    rw [cutSegments?_of_none hspan, h, List.flatMap_singleton, Stretch.read]
  | case2 layout a e b hspan ih =>
    rw [cutSegments?_of_some hspan, h, ih, List.flatMap_cons, List.flatMap_cons,
      ← List.append_assoc]
    rfl

/-! ## Pieces -/

/-- No cut between or around pieces in their places is refused. -/
theorem InPlace.cutPieces?_eq (h : InPlace text pos ps) :
    cutPieces? text (text.byteAt pos) ps = some (fill pos (text.drop pos) ps) := by
  induction h with
  | @nil pos h =>
    have hrest : text.slice? (text.byteAt pos) text.utf8Size = some (text.drop pos) := by
      rw [← Text.byteAt_length, Text.slice?_between h,
        List.take_of_length_le (Nat.le_of_eq List.length_drop)]
    rw [cutPieces?, hrest]
    rfl
  | @cons pos p ps hp hbegins _ _ ih =>
    have hnext : text.byteAt p.start + p.segment.text.utf8Size = text.byteAt p.stop :=
      (Text.byteAt_add hbegins).symm
    have hown : text.slice? (text.byteAt p.start) (text.byteAt p.stop) = some p.segment.text :=
      hnext ▸ Text.slice?_byteAt hbegins
    rw [cutPieces?, fill_cons hp, Text.slice?_between hp]
    simp only [hnext, hown, ih, Option.bind_eq_bind, Option.bind_some, if_pos, Option.pure_def]

/-! ## Layouts -/

/-- `segments` by cuts at bytes. -/
def tokenSegments? (names : List Text) : Text → Option (List Segment) :=
  cutSegments? fun text => cutPieces? text 0 (tokenPieces (occurrences names text))

/-- `outputSegments` by cuts at bytes. -/
def wordSegments? (names : List Text) : Text → Option (List Segment) :=
  cutSegments? fun text => cutPieces? text 0 (outputPieces names text)

/-- Reading a layout loses and invents nothing. Its stretches are those that the leftmost `[` and the
first `]` behind it mark off, one span after the other, and written out they are the layout; the
segments make up the stretches without the brackets; and no bounds at which the layout is cut are
refused. -/
theorem segments_split (names : List Text) (layout : Text) :
    (∀ parts, Stretched layout parts ↔ parts = stretches layout) ∧
    (stretches layout).flatMap Stretch.written = layout ∧
    Splits names (stretches layout) (segments names layout) ∧
    Splits names (stretches layout) (outputSegments names layout) ∧
    tokenSegments? names layout = some (segments names layout) ∧
    wordSegments? names layout = some (outputSegments names layout) := by
  refine ⟨fun _ => stretched_iff, (stretched_stretches layout).flatMap_written, ?_, ?_, ?_, ?_⟩
  · rw [segments, segmentsBy_eq_flatMap]
    exact (tiles_lexTokens names).splits _
  · rw [outputSegments, segmentsBy_eq_flatMap]
    exact (tiles_lexWords names).splits _
  · exact cutSegments?_eq (fun _ => inPlace_tokenPieces.cutPieces?_eq) layout
  · exact cutSegments?_eq (fun _ => inPlace_outputPieces.cutPieces?_eq) layout

end Relayout.Layout
