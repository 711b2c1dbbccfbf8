import Relayout.Layout.Word
import Relayout.Proofs.Layout.Munch

/-!
# Letter runs and their coverage

`letterRuns` is fixed by conditions on single positions, as the scan for names is: the runs stand
apart from each other, they hold letters only, and every letter is in one of them (`IsRuns`). What
is next to a run is therefore no letter, and the runs are the longest there are
(`mem_letterRuns_iff`).

`covers` decides whether every position of a run lies in some piece (`covers_iff`).
-/

namespace Relayout.Layout

variable {text rest : Text} {o p r : Occurrence} {found runs : List Occurrence} {pos i : Nat}

/-! ## Positions of a text -/

/-- There is an ASCII letter at position `i`. -/
def LetterAt (text : Text) (i : Nat) : Prop := ∃ c, text[i]? = some c ∧ c.isAlpha

/-- The characters of a piece that stands in a text are those of the text. -/
theorem getElem?_of_prefix_drop {t : Text} {start : Nat} (h : t <+: text.drop start)
    (hi : i < t.length) : text[start + i]? = t[i]? := by
  obtain ⟨behind, hbehind⟩ := h
  rw [← List.getElem?_drop, ← hbehind, List.getElem?_append_left hi]

theorem letterAt_of_contains (h : o.text <+: text.drop o.start) (hl : ∀ c ∈ o.text, c.isAlpha)
    (hi : o.Contains i) : LetterAt text i := by
  obtain ⟨k, rfl⟩ := Nat.exists_eq_add_of_le hi.1
  have hk : k < o.text.length := Nat.lt_of_add_lt_add_left hi.2
  exact ⟨o.text[k], by rw [getElem?_of_prefix_drop h hk, List.getElem?_eq_getElem hk],
    hl _ (List.getElem_mem hk)⟩

/-! ## Letter runs -/

/-- The conditions on the letter runs of `text` from position `pos` on. -/
structure IsRuns (text : Text) (pos : Nat) (runs : List Occurrence) : Prop where
  apart : runs.Pairwise fun r s => r.stop < s.start
  here : ∀ r ∈ runs, pos ≤ r.start ∧ r.text <+: text.drop r.start
  letters : ∀ r ∈ runs, r.text ≠ [] ∧ ∀ c ∈ r.text, c.isAlpha
  complete : ∀ i, pos ≤ i → LetterAt text i → ∃ r ∈ runs, r.Contains i

namespace IsRuns

theorem nil (h : text.length ≤ pos) : IsRuns text pos [] where
  apart := .nil
  here := nofun
  letters := nofun
  complete i hi := by
    rintro ⟨c, hc, -⟩
    rw [List.getElem?_eq_none (by omega)] at hc
    exact nomatch hc

/-- A position without a letter is passed over. -/
theorem skip (h : ¬LetterAt text pos) (hrest : IsRuns text (pos + 1) runs) :
    IsRuns text pos runs where
  apart := hrest.apart
  here r hr := ⟨Nat.le_of_succ_le (hrest.here r hr).1, (hrest.here r hr).2⟩
  letters := hrest.letters
  complete i hi hl := by
    rcases Nat.eq_or_lt_of_le hi with rfl | hi
    · exact absurd hl h
    · exact hrest.complete i hi hl

/-- A letter joins the run that begins behind it. -/
theorem join {c : Char} (hc : text[pos]? = some c) (hl : c.isAlpha)
    (hrest : IsRuns text (pos + 1) (⟨pos + 1, r.text⟩ :: runs)) :
    IsRuns text pos (⟨pos, c :: r.text⟩ :: runs) := by
  obtain ⟨hfirst, hruns⟩ := List.pairwise_cons.1 hrest.apart
  have hdrop : text.drop pos = c :: text.drop (pos + 1) := by
    obtain ⟨hlt, rfl⟩ := List.getElem?_eq_some_iff.1 hc
    exact List.drop_eq_getElem_cons hlt
  refine ⟨List.pairwise_cons.2 ⟨fun s hs => ?_, hruns⟩, ?_, ?_, ?_⟩
  · have := hfirst s hs
    simp only [Occurrence.stop, List.length_cons] at this ⊢
    omega
  · intro s hs
    rcases List.mem_cons.1 hs with rfl | hs
    · refine ⟨Nat.le_refl _, ?_⟩
      rw [hdrop]
      exact List.cons_prefix_cons.2 ⟨rfl, (hrest.here _ (.head _)).2⟩
    · have := hrest.here s (.tail _ hs)
      exact ⟨by omega, this.2⟩
  · intro s hs
    rcases List.mem_cons.1 hs with rfl | hs
    · refine ⟨List.cons_ne_nil _ _, fun d hd => ?_⟩
      rcases List.mem_cons.1 hd with rfl | hd
      · exact hl
      · exact (hrest.letters _ (.head _)).2 d hd
    · exact hrest.letters s (.tail _ hs)
  · intro i hi hat
    rcases Nat.eq_or_lt_of_le hi with rfl | hi
    · exact ⟨⟨pos, c :: r.text⟩, .head _, Occurrence.contains_start (List.cons_ne_nil _ _)⟩
    · obtain ⟨s, hs, hcontains⟩ := hrest.complete i hi hat
      rcases List.mem_cons.1 hs with rfl | hs
      · refine ⟨_, .head _, by omega, ?_⟩
        have := hcontains.2
        simp only [Occurrence.stop, List.length_cons] at this ⊢
        omega
      · exact ⟨s, .tail _ hs, hcontains⟩

/-- A letter before a position without one is a run of its own. -/
theorem single {c : Char} (hc : text[pos]? = some c) (hl : c.isAlpha)
    (hnext : ∀ r ∈ runs, r.start ≠ pos + 1) (hrest : IsRuns text (pos + 1) runs) :
    IsRuns text pos (⟨pos, [c]⟩ :: runs) := by
  have hdrop : text.drop pos = c :: text.drop (pos + 1) := by
    obtain ⟨hlt, rfl⟩ := List.getElem?_eq_some_iff.1 hc
    exact List.drop_eq_getElem_cons hlt
  refine ⟨List.pairwise_cons.2 ⟨fun s hs => ?_, hrest.apart⟩, ?_, ?_, ?_⟩
  · exact Nat.lt_of_le_of_ne (hrest.here s hs).1 (hnext s hs).symm
  · intro s hs
    rcases List.mem_cons.1 hs with rfl | hs
    · exact ⟨Nat.le_refl _, hdrop ▸ List.cons_prefix_cons.2 ⟨rfl, List.nil_prefix⟩⟩
    · exact ⟨Nat.le_of_succ_le (hrest.here s hs).1, (hrest.here s hs).2⟩
  · intro s hs
    rcases List.mem_cons.1 hs with rfl | hs
    · exact ⟨List.cons_ne_nil _ _, fun d hd => List.mem_singleton.1 hd ▸ hl⟩
    · exact hrest.letters s hs
  · intro i hi hat
    rcases Nat.eq_or_lt_of_le hi with rfl | hi
    · exact ⟨⟨pos, [c]⟩, .head _, Occurrence.contains_start (List.cons_ne_nil _ _)⟩
    · obtain ⟨s, hs, hcontains⟩ := hrest.complete i hi hat
      exact ⟨s, .tail _ hs, hcontains⟩

end IsRuns

theorem isRuns_letterRunsFrom (h : rest = text.drop pos) :
    IsRuns text pos (letterRunsFrom pos rest) := by
  induction rest generalizing pos with
  | nil => exact .nil (List.drop_eq_nil_iff.1 h.symm)
  | cons c rest ih =>
    have hc : text[pos]? = some c := by
      rw [← Nat.add_zero pos, ← List.getElem?_drop, ← h, List.getElem?_cons_zero]
    have hruns : IsRuns text (pos + 1) (letterRunsFrom (pos + 1) rest) := by
      apply ih
      rw [← List.drop_drop, ← h, List.drop_one, List.tail_cons]
    unfold letterRunsFrom
    split
    next hl =>
      cases hcase : letterRunsFrom (pos + 1) rest with
      | nil => exact .single hc hl nofun (hcase ▸ hruns)
      | cons r rs =>
        rw [hcase] at hruns
        simp only [joinLetter]
        split
        next hstart => exact .join hc hl (hstart ▸ hruns)
        next hstart =>
          refine .single hc hl (fun s hs heq => ?_) hruns
          rcases List.mem_cons.1 hs with rfl | hs
          · exact hstart heq
          · have := (List.pairwise_cons.1 hruns.apart).1 s hs
            have := (hruns.here r (.head _)).1
            have := Occurrence.start_lt_stop (hruns.letters r (.head _)).1
            omega
    next hl =>
      refine hruns.skip fun ⟨d, hd, hal⟩ => hl ?_
      rwa [Option.some.inj (hc.symm.trans hd)]

theorem isRuns_letterRuns (text : Text) : IsRuns text 0 (letterRuns text) :=
  isRuns_letterRunsFrom rfl

namespace IsRuns

/-- There is no letter just before a run. -/
theorem not_letterAt_of_succ_eq_start (h : IsRuns text 0 runs) (hr : r ∈ runs)
    (hi : i + 1 = r.start) : ¬LetterAt text i := by
  intro hl
  have hlt := Occurrence.start_lt_stop (h.letters r hr).1
  obtain ⟨s, hs, hcontains⟩ := h.complete i (Nat.zero_le i) hl
  unfold Occurrence.Contains at hcontains
  rcases eq_or_rel_of_pairwise h.apart hr hs with rfl | hle | hle <;> omega

/-- There is no letter just behind a run. -/
theorem not_letterAt_stop (h : IsRuns text 0 runs) (hr : r ∈ runs) : ¬LetterAt text r.stop := by
  intro hl
  have hlt := Occurrence.start_lt_stop (h.letters r hr).1
  obtain ⟨s, hs, hcontains⟩ := h.complete r.stop (Nat.zero_le _) hl
  unfold Occurrence.Contains at hcontains
  rcases eq_or_rel_of_pairwise h.apart hr hs with rfl | hle | hle <;> omega

/-- A run holds every position that only letters separate from it. -/
theorem contains_of_letterAt (h : IsRuns text 0 runs) (hr : r ∈ runs) {k : Nat} (hk : r.Contains k)
    (hl : ∀ j, (i ≤ j ∧ j ≤ k) ∨ (k ≤ j ∧ j ≤ i) → LetterAt text j) : r.Contains i := by
  unfold Occurrence.Contains at hk ⊢
  constructor
  · refine Nat.le_of_not_lt fun hlt => ?_
    exact h.not_letterAt_of_succ_eq_start hr (by omega : r.start - 1 + 1 = r.start)
      (hl _ (.inl ⟨by omega, by omega⟩))
  · refine Nat.lt_of_not_le fun hle => ?_
    exact h.not_letterAt_stop hr (hl _ (.inr ⟨by omega, hle⟩))

/-- A piece of letters that shares a position with a run lies within it. -/
theorem within (h : IsRuns text 0 runs) (hr : r ∈ runs) (ho : o.text <+: text.drop o.start)
    (hl : ∀ c ∈ o.text, c.isAlpha) (hne : o.text ≠ []) (hov : o.Overlaps r) :
    r.start ≤ o.start ∧ o.stop ≤ r.stop := by
  obtain ⟨k, hko, hkr⟩ := hov.exists_contains hne (h.letters r hr).1
  have hin : ∀ {i}, o.Contains i → r.Contains i := by
    intro i hi
    refine h.contains_of_letterAt hr hkr fun j hj => letterAt_of_contains ho hl ?_
    unfold Occurrence.Contains at *
    omega
  have hlt := Occurrence.start_lt_stop hne
  have hfirst := hin ⟨Nat.le_refl _, hlt⟩
  have hlast := hin (i := o.stop - 1) ⟨by omega, by omega⟩
  unfold Occurrence.Contains at hfirst hlast
  omega

end IsRuns

/-- A piece of a text that is a run of ASCII letters, and that no letter precedes or follows. -/
structure MaximalRun (text : Text) (r : Occurrence) : Prop where
  here : r.text <+: text.drop r.start
  letters : r.text ≠ [] ∧ ∀ c ∈ r.text, c.isAlpha
  before : ∀ i, i + 1 = r.start → ¬LetterAt text i
  behind : ¬LetterAt text r.stop

/-- Pieces that stand in a text between the same two positions are the same. -/
theorem Occurrence.eq_of_start_eq_of_stop_eq (ho : o.text <+: text.drop o.start)
    (hr : r.text <+: text.drop r.start) (hstart : o.start = r.start) (hstop : o.stop = r.stop) :
    o = r := by
  obtain ⟨start, t⟩ := o
  obtain ⟨start', t'⟩ := r
  obtain rfl : start = start' := hstart
  have hlen : t.length = t'.length := Nat.add_left_cancel hstop
  obtain rfl : t = t' :=
    (List.prefix_of_prefix_length_le ho hr (Nat.le_of_eq hlen)).eq_of_length hlen
  rfl

theorem IsRuns.mem_iff (h : IsRuns text 0 runs) : r ∈ runs ↔ MaximalRun text r := by
  constructor
  · intro hr
    exact ⟨(h.here r hr).2, h.letters r hr, fun _ => h.not_letterAt_of_succ_eq_start hr,
      h.not_letterAt_stop hr⟩
  · rintro ⟨hhere, hletters, hbefore, hbehind⟩
    have hstart := Occurrence.contains_start hletters.1
    have hat : ∀ {i}, r.Contains i → LetterAt text i := letterAt_of_contains hhere hletters.2
    -- the run that the first letter is in begins and ends where this one does
    obtain ⟨s, hs, hcontains⟩ := h.complete r.start (Nat.zero_le _) (hat hstart)
    have hsat : ∀ {i}, s.Contains i → LetterAt text i :=
      letterAt_of_contains (h.here s hs).2 (h.letters s hs).2
    unfold Occurrence.Contains at *
    have hfirst : r.start = s.start := by
      refine Nat.le_antisymm (Nat.le_of_not_lt fun hlt => ?_) hcontains.1
      exact hbefore (r.start - 1) (by omega) (hsat ⟨by omega, by omega⟩)
    have hlast : r.stop = s.stop := by
      rcases Nat.lt_trichotomy r.stop s.stop with hlt | heq | hlt
      · exact absurd (hsat ⟨by omega, hlt⟩) hbehind
      · exact heq
      · exact absurd (hat ⟨by omega, hlt⟩) (h.not_letterAt_stop hs)
    exact Occurrence.eq_of_start_eq_of_stop_eq hhere (h.here s hs).2 hfirst hlast ▸ hs

theorem mem_letterRuns_iff : r ∈ letterRuns text ↔ MaximalRun text r :=
  (isRuns_letterRuns text).mem_iff

/-! ## Coverage -/

theorem reach_cons : reach (o :: found) pos =
    reach found (if o.start ≤ pos ∧ pos < o.stop then o.stop else pos) := rfl

theorem le_reach : pos ≤ reach found pos := by
  induction found generalizing pos with
  | nil => exact Nat.le_refl _
  | cons o os ih =>
    rw [reach_cons]
    refine Nat.le_trans ?_ ih
    split <;> omega

/-- What lies before the end of the steps is covered. -/
theorem exists_contains_of_lt_reach (hi : pos ≤ i) (h : i < reach found pos) :
    ∃ o ∈ found, o.Contains i := by
  induction found generalizing pos with
  | nil => exact absurd h (Nat.not_lt.2 hi)
  | cons o os ih =>
    rw [reach_cons] at h
    by_cases hin : o.Contains i
    · exact ⟨o, .head _, hin⟩
    · have hnext : (if o.start ≤ pos ∧ pos < o.stop then o.stop else pos) ≤ i := by
        unfold Occurrence.Contains at hin
        split <;> omega
      obtain ⟨p, hp, hcontains⟩ := ih hnext h
      exact ⟨p, .tail _ hp, hcontains⟩

theorem reach_eq_self (h : ∀ o ∈ found, pos < o.start) : reach found pos = pos := by
  induction found with
  | nil => rfl
  | cons o os ih =>
    have := h o (.head _)
    rw [reach_cons, if_neg (by omega), ih fun p hp => h p (.tail _ hp)]

/-- No piece takes up the position at which the steps end. -/
theorem not_contains_reach (h : found.Pairwise fun o p => o.stop ≤ p.start) (ho : o ∈ found) :
    ¬o.Contains (reach found pos) := by
  induction found generalizing pos with
  | nil => exact nomatch ho
  | cons q qs ih =>
    obtain ⟨hq, hqs⟩ := List.pairwise_cons.1 h
    rw [reach_cons]
    rcases List.mem_cons.1 ho with rfl | ho
    · have hstop : o.start ≤ o.stop := Nat.le_add_right ..
      by_cases hbefore : pos < o.start
      · rw [if_neg (by omega), reach_eq_self fun p hp => ?_]
        · exact fun hc => absurd hc.1 (by omega)
        · have := hq p hp
          omega
      · refine fun hc => absurd hc.2 (Nat.not_lt.2 (Nat.le_trans ?_ le_reach))
        split <;> omega
    · exact ih hqs ho

theorem covers_iff (h : found.Pairwise fun o p => o.stop ≤ p.start) :
    covers found r = true ↔ ∀ i, r.Contains i → ∃ o ∈ found, o.Contains i := by
  simp only [covers, decide_eq_true_eq]
  constructor
  · intro hreach i hi
    exact exists_contains_of_lt_reach hi.1 (Nat.lt_of_lt_of_le hi.2 hreach)
  · intro hall
    apply Nat.le_of_not_lt
    intro hlt
    obtain ⟨o, ho, hcontains⟩ := hall _ ⟨le_reach, hlt⟩
    exact not_contains_reach h ho hcontains

end Relayout.Layout
