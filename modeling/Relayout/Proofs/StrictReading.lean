import Relayout.Proofs.Reading

/-!
# What strict mode reads

Strict mode under `throw` reads just the inputs that are made of pieces that fit the segments of a
layout with a year, and the error for any other input is that of the first segment that no piece
fits, or else of the end of the input (`Reading.ofInput_strict_throw`).
-/

namespace Relayout.Reading

open Layout

variable {names : List Text} {layout input : Text} {pieces : List Text} {r : Reading}
  {e : ConversionError}

theorem exists_ofInput_strict_throw_iff :
    (∃ r, ofInput names .strict .throw layout input = .ok r) ↔
      NamesYear (segments names layout) ∧
        ∃ pieces, List.Forall₂ Segment.Fits (segments names layout) pieces ∧
          input = pieces.flatten := by
  simp only [ofInput_eq_ok_iff, Cursor.passes_strict_throw_iff, true_implies,
    exists_fits_flatten_iff]
  constructor
  · rintro ⟨_, hfits, ⟨hdrop, hyear⟩, -⟩
    exact ⟨hyear, hfits, hdrop⟩
  · rintro ⟨hyear, hfits, hdrop⟩
    exact ⟨_, hfits, ⟨hdrop, hyear⟩, rfl⟩

/-- Each token of an input made of fitting pieces has the last of its pieces. -/
theorem get?_of_ofInput_strict_throw (h : ofInput names .strict .throw layout input = .ok r)
    (hfits : List.Forall₂ Segment.Fits (segments names layout) pieces)
    (hinput : input = pieces.flatten) (t : Text) :
    r.raw.get? t = (lastOf? (Cursor.taken (segments names layout) pieces) t).map some := by
  obtain ⟨hpasses, -, rfl⟩ := ofInput_eq_ok_iff.1 h
  have hpieces : slices (segments names layout) input = pieces := by
    simpa only [List.append_nil, ← hinput] using slices_of_fits hfits []
  rw [slots, get?_noteAll_of_usable hpasses.usable, hpieces]

theorem ofInput_strict_throw_eq_error_iff :
    ofInput names .strict .throw layout input = .error e ↔
      (∃ before s behind, segments names layout = before ++ s :: behind ∧
        ∃ pieces rest, List.Forall₂ Segment.Fits before pieces ∧ input = pieces.flatten ++ rest ∧
          ¬s.Fits (rest.take s.text.length) ∧
            s.misfit (width before) (rest.take s.text.length) = e) ∨
      ∃ pieces rest, List.Forall₂ Segment.Fits (segments names layout) pieces ∧
        input = pieces.flatten ++ rest ∧
          (rest ≠ [] ∧ .trailingInput (width (segments names layout)) rest = e ∨
            rest = [] ∧ ¬NamesYear (segments names layout) ∧ .missingYear = e) := by
  have hwidth : ∀ segs, List.Forall₂ Segment.Fits segs (slices segs input) →
      min (width segs) input.length = width segs := fun _ h => Nat.min_eq_left (width_le_of_fits h)
  simp only [ofInput_eq_error_iff, Cursor.passes_strict_throw_iff,
    Segment.isChecked_strict_throw, exists_fits_rest_iff, true_and]
  apply or_congr
  · apply exists₃_congr
    intro before s behind
    refine and_congr_right fun _ => and_congr_right fun hfits => ?_
    rw [hwidth before hfits]
  · refine and_congr_right fun hfits => ?_
    rw [hwidth _ hfits]

/-- Strict mode under `throw`. An input is read when the layout names a year and the input is made
of pieces that fit its segments; then the tokens are those of the layout, and each has the last of
its pieces. Otherwise the error is that of the first segment that does not fit what follows the
pieces before it, or that of text behind the last piece, or that of the missing year. -/
theorem ofInput_strict_throw (names : List Text) (layout input : Text) :
    ((∃ r, ofInput names .strict .throw layout input = .ok r) ↔
      NamesYear (segments names layout) ∧
        ∃ pieces, List.Forall₂ Segment.Fits (segments names layout) pieces ∧
          input = pieces.flatten) ∧
    (∀ r pieces, ofInput names .strict .throw layout input = .ok r →
      List.Forall₂ Segment.Fits (segments names layout) pieces → input = pieces.flatten →
        r.tokens = (segments names layout).filterMap Segment.token? ∧
          ∀ t, r.raw.get? t =
            (lastOf? (Cursor.taken (segments names layout) pieces) t).map some) ∧
    ∀ e, ofInput names .strict .throw layout input = .error e ↔
      (∃ before s behind, segments names layout = before ++ s :: behind ∧
        ∃ pieces rest, List.Forall₂ Segment.Fits before pieces ∧ input = pieces.flatten ++ rest ∧
          ¬s.Fits (rest.take s.text.length) ∧
            s.misfit (width before) (rest.take s.text.length) = e) ∨
      ∃ pieces rest, List.Forall₂ Segment.Fits (segments names layout) pieces ∧
        input = pieces.flatten ++ rest ∧
          (rest ≠ [] ∧ .trailingInput (width (segments names layout)) rest = e ∨
            rest = [] ∧ ¬NamesYear (segments names layout) ∧ .missingYear = e) :=
  ⟨exists_ofInput_strict_throw_iff, fun _ _ h hfits hinput =>
    ⟨tokens_of_ofInput h, get?_of_ofInput_strict_throw h hfits hinput⟩,
    fun _ => ofInput_strict_throw_eq_error_iff⟩

/-- A day that is read twice, and text that is not that of the layout. -/
theorem ofInput_strict_throw_repeated :
    (∃ r, ofInput Builtin.names .strict .throw "dddd年yyyy".toList "0102年2025".toList = .ok r ∧
      r.raw.get? "dd".toList = some (some "02".toList)) ∧
    ofInput Builtin.names .strict .throw "yyyy-MMdd".toList "2025X0425".toList =
      .error (.literalMismatch "-".toList 4) := by
  have hdays : segments Builtin.names "dddd年yyyy".toList =
      [.token "dd".toList, .token "dd".toList, .literal "年".toList, .token "yyyy".toList] := by cbv
  have hdashed : segments Builtin.names "yyyy-MMdd".toList =
      [.token "yyyy".toList, .literal "-".toList, .token "MM".toList, .token "dd".toList] := by cbv
  obtain ⟨haccepted, hread, -⟩ :=
    ofInput_strict_throw Builtin.names "dddd年yyyy".toList "0102年2025".toList
  obtain ⟨-, -, herror⟩ := ofInput_strict_throw Builtin.names "yyyy-MMdd".toList "2025X0425".toList
  rw [hdays] at haccepted hread
  rw [hdashed] at herror
  have hfits : List.Forall₂ Segment.Fits
      [.token "dd".toList, .token "dd".toList, .literal "年".toList, .token "yyyy".toList]
      ["01".toList, "02".toList, "年".toList, "2025".toList] :=
    .cons ⟨rfl, rfl⟩ (.cons ⟨rfl, rfl⟩ (.cons rfl (.cons ⟨rfl, rfl⟩ .nil)))
  have hyear : NamesYear
      [.token "dd".toList, .token "dd".toList, .literal "年".toList, .token "yyyy".toList] :=
    .inl (.tail _ (.tail _ (.tail _ (.head _))))
  obtain ⟨r, hr⟩ := haccepted.2 ⟨hyear, _, hfits, rfl⟩
  refine ⟨⟨r, hr, ?_⟩, (herror _).2 (.inl ?_)⟩
  · rw [(hread r _ hr hfits rfl).2]
    rfl
  · exact ⟨[.token "yyyy".toList], .literal "-".toList, _, rfl, ["2025".toList], "X0425".toList,
      .cons ⟨rfl, rfl⟩ .nil, rfl, by decide, rfl⟩

end Relayout.Reading
