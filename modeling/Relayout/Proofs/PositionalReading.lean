import Relayout.Proofs.Reading

/-!
# What positional mode reads

Positional mode slices an input at the places of the tokens. Under `silent` each token has its last
slice that can be used; under `throw` the first slice that cannot be used is the error
(`Reading.ofInput_positional`).
-/

namespace Relayout

open Layout

variable {names : List Text} {layout input : Text} {segs : List Segment} {s : Segment}
  {r : Reading} {e : ConversionError}

namespace Cursor

theorem passes_positional_silent (segs : List Segment) (input : Text) :
    Passes .positional .silent segs input := by
  refine List.forall₂_iff_zip.2 ⟨length_slices.symm, fun {s _} _ hchecked => ?_⟩
  cases s <;> exact nomatch hchecked

/-- Positional mode checks tokens only. -/
theorem passes_positional_throw_iff : Passes .positional .throw segs input ↔
    ∀ p ∈ taken segs (slices segs input), Usable p := by
  refine ⟨Passes.usable, fun h => ?_⟩
  refine List.forall₂_iff_zip.2 ⟨length_slices.symm, fun {s slice} hmem hchecked => ?_⟩
  cases s with
  | token t => exact h (t, slice) (mem_taken hmem rfl)
  | literal _ | escaped _ | word _ => exact nomatch hchecked

end Cursor

namespace Layout

/-- The error of a slot that cannot be used. -/
def slotError (p : Text × Text) : ConversionError :=
  if p.2.length < p.1.length then .tooShort p.1 else .notNumeric p.1 p.2

/-- There is one slot only that is the first that cannot be used. -/
theorem find?_not_usable {ps before behind : List (Text × Text)} (hps : ps = before ++ p :: behind)
    (hbefore : ∀ q ∈ before, Usable q) (hp : ¬Usable p) : ps.find? (¬Usable ·) = some p :=
  List.find?_eq_some_iff_append.2 ⟨by simpa using hp, before, behind, hps, by simpa using hbefore⟩

end Layout

namespace Reading

theorem ofInput_positional_silent :
    ofInput names .positional .silent layout input = .ok (noteAll {} (slots names layout input)) :=
  ofInput_eq_ok_iff.2 ⟨Cursor.passes_positional_silent _ _, nofun, rfl⟩

theorem ofInput_positional_throw_eq_ok_iff : ofInput names .positional .throw layout input = .ok r ↔
    (∀ p ∈ slots names layout input, Usable p) ∧ noteAll {} (slots names layout input) = r := by
  rw [ofInput_eq_ok_iff, Cursor.passes_positional_throw_iff]
  exact and_congr_right fun _ => and_iff_right nofun

theorem exists_of_ofInput_positional_throw
    (h : ofInput names .positional .throw layout input = .error e) :
    ∃ before p behind, slots names layout input = before ++ p :: behind ∧
      (∀ q ∈ before, Usable q) ∧ ¬Usable p ∧ slotError p = e := by
  rcases ofInput_eq_error_iff.1 h with
    ⟨before, s, behind, hsegs, hpasses, hchecked, hfits, rfl⟩ | ⟨-, hstrict, -⟩
  · cases s with
    | token t =>
      refine ⟨_, (t, (input.drop (width before)).take t.length),
        Cursor.taken behind (slices behind ((input.drop (width before)).drop t.length)), ?_,
        Cursor.passes_positional_throw_iff.1 hpasses, hfits, rfl⟩
      rw [slots, hsegs, slices_append, Cursor.taken_append length_slices.symm, slices_cons,
        Cursor.taken_cons]
      rfl
    | literal _ | escaped _ | word _ => cases hchecked
  · cases hstrict

/-- The first slot that cannot be used decides. -/
theorem ofInput_positional_throw_eq_error_iff :
    ofInput names .positional .throw layout input = .error e ↔
      ∃ before p behind, slots names layout input = before ++ p :: behind ∧
        (∀ q ∈ before, Usable q) ∧ ¬Usable p ∧ slotError p = e := by
  refine ⟨exists_of_ofInput_positional_throw, ?_⟩
  rintro ⟨before, p, behind, hslots, hbefore, hp, rfl⟩
  cases hrun : ofInput names .positional .throw layout input with
  | ok r =>
    have hmem : p ∈ slots names layout input := hslots ▸ List.mem_append_right _ (.head _)
    exact absurd ((ofInput_positional_throw_eq_ok_iff.1 hrun).1 p hmem) hp
  | error e =>
    obtain ⟨before', p', behind', hslots', hbefore', hp', rfl⟩ :=
      exists_of_ofInput_positional_throw hrun
    have hsame : some p' = some p := (find?_not_usable hslots' hbefore' hp').symm.trans
      (find?_not_usable hslots hbefore hp)
    rw [Option.some.inj hsame]

theorem get?_noteAll_slots {t : Text} : (noteAll {} (slots names layout input)).raw.get? t =
    if .token t ∈ segments names layout then some (lastUsable? (slots names layout input) t)
    else none := by
  simp only [get?_noteAll_empty, map_fst_slots, mem_filterMap_token?]

/-- Positional mode. Under `silent` every input is read: the tokens are those of the layout, each
has the last of its slices that is digits of the width of the token, and the reading counts as
failed when there are tokens and none of their slices can be used. Under `throw` the reading is the
same when all slices can be used, and otherwise the error is that of the first that cannot. -/
theorem ofInput_positional (names : List Text) (layout input : Text) :
    ∃ r, ofInput names .positional .silent layout input = .ok r ∧
      r.tokens = (segments names layout).filterMap Segment.token? ∧
      (∀ t, r.raw.get? t =
        if .token t ∈ segments names layout then some (lastUsable? (slots names layout input) t)
        else none) ∧
      (r.allFailed = true ↔
        slots names layout input ≠ [] ∧ ∀ p ∈ slots names layout input, ¬Usable p) ∧
      (ofInput names .positional .throw layout input = .ok r ↔
        ∀ p ∈ slots names layout input, Usable p) ∧
      ∀ e, ofInput names .positional .throw layout input = .error e ↔
        ∃ before p behind, slots names layout input = before ++ p :: behind ∧
          (∀ q ∈ before, Usable q) ∧ ¬Usable p ∧ slotError p = e := by
  refine ⟨_, ofInput_positional_silent, tokens_of_ofInput ofInput_positional_silent,
    fun _ => get?_noteAll_slots, allFailed_noteAll_iff, ?_, fun _ =>
    ofInput_positional_throw_eq_error_iff⟩
  exact ofInput_positional_throw_eq_ok_iff.trans (and_iff_left rfl)

end Reading
end Relayout
