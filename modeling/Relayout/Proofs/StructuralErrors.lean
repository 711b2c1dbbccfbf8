import Relayout.Proofs.SilentConversion

/-!
# Where strict mode stops

A reading that fails stops at one place of its layout, at a segment or behind the last one
(`Cursor.StopsAt`). Strict mode under `silent` stops at text only, and under `throw` it stops at the
same place with the same error, or before that at a token (`Cursor.StopsAt.throw`). The positions
in the errors are places of the input (`Reading.ofInput_strict_structural`).
-/

namespace Relayout

open Layout

variable {mode : ParseMode} {policy policy' : ErrorPolicy} {names : List Text}
  {layout input : Text} {segs before behind : List Segment} {s : Segment} {c : Cursor}
  {e : ConversionError} {t expected rest : Text} {position : Nat}

/-! ## Errors of a segment -/

namespace ConversionError

/-- The characters that were taken for the token are too few, or not all digits. -/
def OfToken (t : Text) (e : ConversionError) : Prop :=
  e = .tooShort t ∨ ∃ value, e = .notNumeric t value

theorem OfToken.not_isStructural (h : e.OfToken t) : ¬e.IsStructural := by
  rcases h with rfl | ⟨value, rfl⟩ <;> exact id

theorem ofToken_misfit (position : Nat) (slice : Text) :
    ((Segment.token t).misfit position slice).OfToken t := by
  by_cases hlt : slice.length < t.length
  · exact .inl (if_pos hlt)
  · exact .inr ⟨slice, if_neg hlt⟩

end ConversionError

namespace Layout.Segment

/-- The policy matters for tokens only. -/
theorem isChecked_congr (h : s.token? = none) :
    s.IsChecked mode policy ↔ s.IsChecked mode policy' := by
  cases s with
  | token _ => exact nomatch h
  | literal _ | escaped _ | word _ => rfl

/-- A structural error of a segment is that of its text. -/
theorem of_misfit_isStructural {slice : Text} (h : s.misfit position slice = e)
    (he : e.IsStructural) : s.token? = none ∧ e = .literalMismatch s.text position := by
  subst h
  cases s with
  | token _ => exact absurd he (ConversionError.ofToken_misfit _ _).not_isStructural
  | literal _ | escaped _ | word _ => exact ⟨rfl, rfl⟩

end Layout.Segment

/-! ## The place of an error -/

namespace Cursor

theorem step_eq_error_congr (h : s.token? = none) :
    step mode policy c s = .error e ↔ step mode policy' c s = .error e := by
  rw [step_eq_error_iff, step_eq_error_iff, Segment.isChecked_congr h]

/-- The run along `before` goes well, and the next step fails: that of the first segment of
`behind` or, if there is none, the end of the reading. -/
def StopsAt (mode : ParseMode) (policy : ErrorPolicy) (before behind : List Segment)
    (input : Text) (e : ConversionError) : Prop :=
  ∃ c, before.foldlM (step mode policy) ⟨input, 0, {}⟩ = .ok c ∧
    match behind with
    | [] => c.finish mode = .error e
    | s :: _ => c.step mode policy s = .error e

theorem StopsAt.passes (h : StopsAt mode policy before behind input e) :
    Passes mode policy before input := by
  obtain ⟨c, hrun, -⟩ := h
  exact (foldlM_step_eq_ok_iff.1 hrun).1

/-- Under `throw` the segments pass too, or there is a first token among them that does not. -/
theorem Passes.throw_or_exists_token (h : Passes mode .silent segs input) :
    Passes mode .throw segs input ∨
      ∃ before t behind, segs = before ++ .token t :: behind ∧ Passes mode .throw before input ∧
        ¬(Segment.token t).Fits ((input.drop (width before)).take t.length) := by
  induction segs generalizing input with
  | nil => exact .inl .nil
  | cons s ss ih =>
    obtain ⟨hs, hrest⟩ := passes_cons.1 h
    by_cases hfits : s.IsChecked mode .throw → s.Fits (input.take s.text.length)
    · rcases ih hrest with hall | ⟨before, t, behind, rfl, hbefore, ht⟩
      · exact .inl (passes_cons.2 ⟨hfits, hall⟩)
      · refine .inr ⟨s :: before, t, behind, rfl, passes_cons.2 ⟨hfits, hbefore⟩, ?_⟩
        rwa [width_cons, ← List.drop_drop]
    · -- text is checked under both policies, so what fails here is a token
      cases s with
      | token t => exact .inr ⟨[], t, ss, rfl, .nil, fun ht => hfits fun _ => ht⟩
      | literal _ | escaped _ | word _ => exact absurd hs hfits

/-- Under `silent` no reading stops at a token. -/
theorem StopsAt.token?_eq_none (h : StopsAt mode .silent before (s :: behind) input e) :
    s.token? = none := by
  obtain ⟨c, -, hstep⟩ := h
  obtain ⟨hchecked, -, -⟩ := step_eq_error_iff.1 hstep
  cases s with
  | token _ => exact nomatch hchecked
  | literal _ | escaped _ | word _ => rfl

/-- Where the segments before a place pass under both policies, and no token stands there, the same
happens at it. -/
theorem StopsAt.of_passes (h : StopsAt mode policy before behind input e)
    (htoken : ∀ s segs, behind = s :: segs → s.token? = none)
    (hpasses : Passes mode policy' before input) :
    StopsAt mode policy' before behind input e := by
  obtain ⟨c, hrun, hstop⟩ := h
  obtain ⟨-, rfl⟩ := foldlM_step_eq_ok_iff.1 hrun
  refine ⟨_, foldlM_step_eq_ok_iff.2 ⟨hpasses, rfl⟩, ?_⟩
  cases behind with
  | nil => exact hstop
  | cons s segs => exact (step_eq_error_congr (htoken s segs rfl)).1 hstop

/-- What stops a reading under `silent` stops it under `throw` too, if no token before does. -/
theorem StopsAt.throw (h : StopsAt mode .silent before behind input e) :
    StopsAt mode .throw before behind input e ∨
      ∃ earlier t between e', before = earlier ++ .token t :: between ∧ e'.OfToken t ∧
        StopsAt mode .throw earlier (.token t :: between ++ behind) input e' := by
  have htoken : ∀ s segs, behind = s :: segs → s.token? = none := by
    rintro s segs rfl
    exact h.token?_eq_none
  rcases h.passes.throw_or_exists_token with hpasses | ⟨earlier, t, between, rfl, hearlier, ht⟩
  · exact .inl (h.of_passes htoken hpasses)
  · exact .inr ⟨earlier, t, between, _, rfl, ConversionError.ofToken_misfit _ _,
      _, foldlM_step_eq_ok_iff.2 ⟨hearlier, rfl⟩, step_eq_error_iff.2 ⟨rfl, ht, rfl⟩⟩

/-- A structural error does not come from a token, so it stops a reading under `silent` too. -/
theorem StopsAt.silent (h : StopsAt mode .throw before behind input e) (he : e.IsStructural) :
    StopsAt mode .silent before behind input e := by
  refine h.of_passes ?_ (h.passes.of_throw (.inr rfl))
  rintro s segs rfl
  obtain ⟨c, -, hstop⟩ := h
  obtain ⟨-, -, hmisfit⟩ := step_eq_error_iff.1 hstop
  exact (Segment.of_misfit_isStructural hmisfit he).1

end Cursor

namespace Reading

open Cursor (StopsAt)

theorem ofInput_eq_error_iff_stopsAt : ofInput names mode policy layout input = .error e ↔
    ∃ before behind, segments names layout = before ++ behind ∧
      StopsAt mode policy before behind input e := by
  simp only [ofInput, bind_eq_error_iff, foldlM_eq_error_iff]
  constructor
  · rintro (⟨before, s, behind, c, hsegs, hrun, hstep⟩ | ⟨c, hrun, hend⟩)
    · exact ⟨before, s :: behind, hsegs, c, hrun, hstep⟩
    · exact ⟨_, [], (List.append_nil _).symm, c, hrun, hend⟩
  · rintro ⟨before, _ | ⟨s, behind⟩, hsegs, c, hrun, hstop⟩
    · rw [hsegs, List.append_nil]
      exact .inr ⟨c, hrun, hstop⟩
    · exact .inl ⟨before, s, behind, c, hsegs, hrun, hstop⟩

/-! ## Positions -/

theorem drop_min_length (input : Text) (k : Nat) :
    input.drop (min k input.length) = input.drop k := by
  rcases Nat.le_total k input.length with h | h
  · rw [Nat.min_eq_left h]
  · rw [Nat.min_eq_right h, List.drop_length, List.drop_eq_nil_of_le h]

/-- The input goes on with something else at the position of the text that was expected. -/
theorem position_of_literalMismatch
    (h : ofInput names mode policy layout input = .error (.literalMismatch expected position)) :
    position ≤ input.length ∧ ¬expected <+: input.drop position := by
  rcases ofInput_eq_error_iff.1 h with
    ⟨before, s, behind, -, -, -, hfits, hmisfit⟩ | ⟨-, -, ⟨-, hend⟩ | ⟨-, -, hend⟩⟩
  · obtain ⟨htoken, htext⟩ := Segment.of_misfit_isStructural hmisfit trivial
    cases htext
    rw [Segment.fits_of_token?_eq_none htoken] at hfits
    refine ⟨Nat.min_le_right .., fun hprefix => hfits ?_⟩
    rw [drop_min_length] at hprefix
    exact (List.prefix_iff_eq_take.1 hprefix).symm
  · cases hend
  · cases hend

/-- What is left over is what stands at its position. -/
theorem rest_of_trailingInput
    (h : ofInput names mode policy layout input = .error (.trailingInput position rest)) :
    rest ≠ [] ∧ rest = input.drop position := by
  rcases ofInput_eq_error_iff.1 h with
    ⟨before, s, behind, -, -, -, -, hmisfit⟩ | ⟨-, -, ⟨hrest, hend⟩ | ⟨-, -, hend⟩⟩
  · cases (Segment.of_misfit_isStructural hmisfit trivial).2
  · cases hend
    exact ⟨hrest, (drop_min_length _ _).symm⟩
  · cases hend

/-- Structural errors of strict mode. One that `throw` gives `silent` gives too. All errors of
`silent` are structural, and `throw` gives the same one or that of a token which stands before the
place where `silent` has stopped. The text that a mismatch expects does not stand at its position,
which lies in the input, and text that is left over stands at its position. -/
theorem ofInput_strict_structural (names : List Text) (layout input : Text) :
    (∀ e : ConversionError, e.IsStructural →
      ofInput names .strict .throw layout input = .error e →
        ofInput names .strict .silent layout input = .error e) ∧
    (∀ e, ofInput names .strict .silent layout input = .error e → e.IsStructural ∧
      (ofInput names .strict .throw layout input = .error e ∨
        ∃ earlier t between behind e',
          segments names layout = earlier ++ .token t :: between ++ behind ∧
          StopsAt .strict .silent (earlier ++ .token t :: between) behind input e ∧
          StopsAt .strict .throw earlier (.token t :: between ++ behind) input e' ∧
          ofInput names .strict .throw layout input = .error e' ∧ e'.OfToken t)) ∧
    ∀ policy,
      (∀ expected position,
        ofInput names .strict policy layout input = .error (.literalMismatch expected position) →
          position ≤ input.length ∧ ¬expected <+: input.drop position) ∧
      ∀ position rest,
        ofInput names .strict policy layout input = .error (.trailingInput position rest) →
          rest ≠ [] ∧ rest = input.drop position := by
  refine ⟨fun e he hthrow => ?_, fun e hsilent => ?_, fun policy => ⟨?_, ?_⟩⟩
  · obtain ⟨before, behind, hsegs, hstop⟩ := ofInput_eq_error_iff_stopsAt.1 hthrow
    exact ofInput_eq_error_iff_stopsAt.2 ⟨before, behind, hsegs, hstop.silent he⟩
  · refine ⟨(isStructural_of_ofInput_silent hsilent).2, ?_⟩
    obtain ⟨before, behind, hsegs, hstop⟩ := ofInput_eq_error_iff_stopsAt.1 hsilent
    rcases hstop.throw with hsame | ⟨earlier, t, between, e', rfl, htoken, hthrow⟩
    · exact .inl (ofInput_eq_error_iff_stopsAt.2 ⟨before, behind, hsegs, hsame⟩)
    · refine .inr ⟨earlier, t, between, behind, e', hsegs, hstop, hthrow, ?_, htoken⟩
      exact ofInput_eq_error_iff_stopsAt.2
        ⟨earlier, .token t :: between ++ behind, by rw [hsegs, List.append_assoc], hthrow⟩
  · exact fun _ _ => position_of_literalMismatch
  · exact fun _ _ => rest_of_trailingInput

/-- A year that is not digits in front of text that is not that of the layout, and text behind a
date. -/
theorem ofInput_strict_structural_dashed :
    ofInput Builtin.names .strict .silent "yyyy年MM-dd".toList "2025年04/25".toList =
      .error (.literalMismatch "-".toList 7) ∧
    (7 ≤ "2025年04/25".toList.length ∧ ¬"-".toList <+: "2025年04/25".toList.drop 7) ∧
    (∃ t e, ofInput Builtin.names .strict .throw "yyyy年MM-dd".toList "20x5年04/25".toList =
      .error e ∧ e.OfToken t) ∧
    ("日".toList ≠ [] ∧ "日".toList = "2025年04-25日".toList.drop 10) := by
  obtain ⟨hstructural, -, hposition⟩ :=
    ofInput_strict_structural Builtin.names "yyyy年MM-dd".toList "2025年04/25".toList
  have hthrow : ofInput Builtin.names .strict .throw "yyyy年MM-dd".toList "2025年04/25".toList =
      .error (.literalMismatch "-".toList 7) := by decide +kernel
  obtain ⟨-, hsilent, -⟩ :=
    ofInput_strict_structural Builtin.names "yyyy年MM-dd".toList "20x5年04/25".toList
  obtain ⟨-, hsame | ⟨_, t, _, _, e, -, -, -, he, htoken⟩⟩ :=
    hsilent (.literalMismatch "-".toList 7) (by decide +kernel)
  · have hyear : ofInput Builtin.names .strict .throw "yyyy年MM-dd".toList "20x5年04/25".toList =
        .error (.notNumeric "yyyy".toList "20x5".toList) := by decide +kernel
    cases hsame.symm.trans hyear
  · obtain ⟨-, -, hrest⟩ :=
      ofInput_strict_structural Builtin.names "yyyy年MM-dd".toList "2025年04-25日".toList
    exact ⟨hstructural _ trivial hthrow, (hposition .throw).1 _ _ hthrow, ⟨t, e, he, htoken⟩,
      (hrest .silent).2 _ _ (by decide +kernel)⟩

end Reading
end Relayout
