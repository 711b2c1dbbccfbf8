import Relayout.Proofs.Builtin
import Relayout.Proofs.Layout.Segments
import Relayout.Proofs.Reading

/-!
# The built-in tokens of a layout
-/

namespace Relayout

open Layout

variable {layout n : Text} {t : Builtin} {s : Segment} {parts parts' : DateParts}

namespace Builtin

/-- The built-in tokens of an input layout in order, repeats included. -/
def tokens (layout : Text) : List Builtin :=
  ((segments names layout).filterMap Segment.token?).filterMap ofName?

theorem mem_tokens : t ∈ tokens layout ↔ .token t.name ∈ segments names layout := by
  simp only [tokens, List.mem_filterMap, Segment.token?_eq_some_iff, ofName?_eq_some_iff,
    exists_eq_right, exists_eq_right']

theorem exists_of_token_mem (h : .token n ∈ segments names layout) :
    ∃ t ∈ tokens layout, t.name = n := by
  obtain ⟨t, -, rfl⟩ := List.mem_map.1 (token_mem_segments h).1
  exact ⟨t, mem_tokens.2 h, rfl⟩

theorem segments_handlers : segments handlers.names layout = segments names layout :=
  segments_congr fun _ => mem_names_handlers

theorem ofInput_handlers {mode : ParseMode} {policy : ErrorPolicy} {input : Text} :
    Reading.ofInput handlers.names mode policy layout input =
      Reading.ofInput names mode policy layout input := by
  rw [Reading.ofInput, segments_handlers]
  rfl

theorem map_name_tokens :
    (tokens layout).map name = (segments names layout).filterMap Segment.token? := by
  rw [tokens, List.map_filterMap]
  refine (List.filterMap_congr fun n hn => ?_).trans List.filterMap_some
  obtain ⟨s, hs, hn⟩ := List.mem_filterMap.1 hn
  rw [Segment.token?_eq_some_iff] at hn
  subst hn
  cases htoken : ofName? n with
  | none => exact absurd (token_mem_segments hs).1 (ofName?_eq_none_iff.1 htoken)
  | some t => exact congrArg some (name_of_ofName? htoken)

end Builtin

/-! ## Segments as they are written -/

/-- What the segment becomes for date parts where only the built-in tokens can be written. -/
def Layout.Segment.written (parts : DateParts) (s : Segment) : Text :=
  (s.name?.bind fun n => (Builtin.ofName? n).bind fun t => t.write parts).getD s.text

theorem Layout.Segment.written_of_token?_eq_none (hs : s ∈ segments Builtin.names layout)
    (h : s.token? = none) : s.written parts = s.text := by
  cases s with
  | token n => exact nomatch h
  | word n => exact absurd hs word_notMem_segments
  | literal _ | escaped _ => rfl

theorem Layout.Segment.written_token :
    (Segment.token t.name).written parts = (t.write parts).getD t.name := by
  have htoken : Builtin.ofName? t.name = some t := Builtin.ofName?_eq_some_iff.2 rfl
  simp only [written, name?, text, Option.bind_some, htoken]

theorem Layout.Segment.written_congr (h : ∀ f, parts.get f = parts'.get f) :
    s.written parts = s.written parts' := by
  simp only [written, Builtin.write, h]

end Relayout
