import Relayout.Proofs.Layout.Tiling

/-!
# Where the segments of a text stand

Segments that make up a text stand in it one behind the other, each at its place (`placed`). Where
pieces were filled up to a text, the segments that are no literals are these pieces again
(`InPlace.mem_placed_fill`), and a position is in a literal just when no piece takes it up
(`InPlace.inLiteral_fill_iff`).
-/

namespace Relayout.Layout

variable {text t : Text} {segs segs' : List Segment} {s : Segment} {p q : Piece}
  {ps : List Piece} {pos i : Nat}

/-- The piece takes up position `i`. -/
def Piece.Contains (p : Piece) (i : Nat) : Prop := p.start ≤ i ∧ i < p.stop

/-- Segments that stand one behind the other from position `pos` on, each with its place. -/
def placed (pos : Nat) : List Segment → List Piece
  | [] => []
  | s :: segs => ⟨pos, s⟩ :: placed (pos + s.text.length) segs

/-- A literal takes up position `i` of the text that the segments make up from `pos` on. -/
def InLiteral (pos : Nat) (segs : List Segment) (i : Nat) : Prop :=
  ∃ p ∈ placed pos segs, p.Contains i ∧ ∃ t, p.segment = .literal t

theorem placed_append : placed pos (segs ++ segs') =
    placed pos segs ++ placed (pos + (segs.flatMap Segment.text).length) segs' := by
  induction segs generalizing pos with
  | nil => rfl
  | cons s segs ih =>
    rw [List.cons_append, placed, ih, placed, List.cons_append, List.flatMap_cons,
      List.length_append, Nat.add_assoc]

theorem mem_iff_exists_placed : s ∈ segs ↔ ∃ p ∈ placed pos segs, p.segment = s := by
  induction segs generalizing pos with
  | nil => exact ⟨nofun, fun ⟨_, h, _⟩ => nomatch h⟩
  | cons r segs ih =>
    rw [List.mem_cons, ih, placed, List.exists_mem_cons_iff, eq_comm]

theorem le_start_of_mem_placed (h : p ∈ placed pos segs) : pos ≤ p.start := by
  induction segs generalizing pos with
  | nil => exact nomatch h
  | cons s segs ih =>
    rcases List.mem_cons.1 h with rfl | h
    · exact Nat.le_refl _
    · exact Nat.le_trans (Nat.le_add_right ..) (ih h)

theorem pairwise_placed : (placed pos segs).Pairwise fun p q => p.stop ≤ q.start := by
  induction segs generalizing pos with
  | nil => exact .nil
  | cons s segs ih => exact .cons (fun q hq => le_start_of_mem_placed hq) ih

/-- Each position is taken up by a segment. -/
theorem exists_mem_placed (hi : pos ≤ i) (h : i < pos + (segs.flatMap Segment.text).length) :
    ∃ p ∈ placed pos segs, p.Contains i := by
  induction segs generalizing pos with
  | nil => exact absurd h (Nat.not_lt.2 hi)
  | cons s segs ih =>
    rw [List.flatMap_cons, List.length_append, ← Nat.add_assoc] at h
    rcases Nat.lt_or_ge i (pos + s.text.length) with hlt | hge
    · exact ⟨⟨pos, s⟩, .head _, hi, hlt⟩
    · obtain ⟨p, hp, hcontains⟩ := ih hge h
      exact ⟨p, .tail _ hp, hcontains⟩

/-- A segment has the text that stands at its place. -/
theorem prefix_of_mem_placed (h : segs.flatMap Segment.text = text.drop pos)
    (hp : p ∈ placed pos segs) : p.segment.text <+: text.drop p.start := by
  induction segs generalizing pos with
  | nil => exact nomatch hp
  | cons s segs ih =>
    rw [List.flatMap_cons] at h
    rcases List.mem_cons.1 hp with rfl | hp
    · exact ⟨_, h⟩
    · refine ih ?_ hp
      rw [← List.drop_drop, ← h, List.drop_left]

theorem segment_eq_of_mem_placed_gap (h : p ∈ placed pos (gap t)) : p.segment = .literal t :=
  eq_literal_of_mem_gap (mem_iff_exists_placed.2 ⟨p, h, rfl⟩)

namespace InPlace

theorem placed_fill_cons (hp : pos ≤ p.start) (hbegins : p.segment.text <+: text.drop p.start)
    (hne : p.segment.text ≠ []) : placed pos (fill pos (text.drop pos) (p :: ps)) =
      placed pos (gap ((text.drop pos).take (p.start - pos))) ++
        p :: placed p.stop (fill p.stop (text.drop p.stop) ps) := by
  have hstop : p.stop ≤ text.length :=
    Occurrence.stop_le_length (o := ⟨p.start, p.segment.text⟩) hbegins hne
  have hlen : pos + ((text.drop pos).take (p.start - pos)).length = p.start := by
    have : p.start ≤ p.stop := Nat.le_add_right ..
    rw [List.length_take, List.length_drop]
    omega
  rw [fill_cons hp, placed_append, flatMap_text_gap, hlen]
  rfl

/-- Of what is filled up to a text, the pieces are the segments that are no literals. -/
theorem mem_placed_fill (h : InPlace text pos ps) (hq : ∀ t, q.segment ≠ .literal t) :
    q ∈ placed pos (fill pos (text.drop pos) ps) ↔ q ∈ ps := by
  induction h with
  | nil _ =>
    exact ⟨fun h => absurd (segment_eq_of_mem_placed_gap h) (hq _), fun h => nomatch h⟩
  | cons hp hbegins hne _ ih =>
    rw [placed_fill_cons hp hbegins hne, List.mem_append, List.mem_cons, List.mem_cons, ih]
    exact or_iff_right fun h => hq _ (segment_eq_of_mem_placed_gap h)

theorem inLiteral_fill_iff (h : InPlace text pos ps)
    (hps : ∀ p ∈ ps, ∀ t, p.segment ≠ .literal t) (hi : pos ≤ i) (hlt : i < text.length) :
    InLiteral pos (fill pos (text.drop pos) ps) i ↔ ∀ p ∈ ps, ¬p.Contains i := by
  constructor
  · rintro ⟨q, hq, hcontains, t, ht⟩ p hp hc
    rcases eq_or_rel_of_pairwise pairwise_placed hq ((h.mem_placed_fill (hps p hp)).2 hp) with
      rfl | hle | hle
    · exact hps q hp t ht
    · exact absurd (Nat.lt_of_lt_of_le hcontains.2 hle) (Nat.not_lt.2 hc.1)
    · exact absurd (Nat.lt_of_lt_of_le hc.2 hle) (Nat.not_lt.2 hcontains.1)
  · intro hfree
    obtain ⟨q, hq, hcontains⟩ :
        ∃ q ∈ placed pos (fill pos (text.drop pos) ps), q.Contains i := by
      refine exists_mem_placed hi ?_
      rw [h.flatMap_text_fill, List.length_drop]
      omega
    refine ⟨q, hq, hcontains, Classical.byContradiction fun hnone => ?_⟩
    exact hfree q ((h.mem_placed_fill (not_exists.1 hnone)).1 hq) hcontains

end InPlace

end Relayout.Layout
