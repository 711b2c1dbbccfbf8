import Relayout.Proofs.Layout.Letters

/-!
# Reading a text in two parts

Where neither a name nor a letter run reaches over a border within a text, what the text holds is
what its two parts hold: the names that are found (`occurrences_append`), the letter runs
(`letterRuns_append`), and the tokens and words (`outputPieces_append`). The segments are those of
the parts, too, if a token or a word ends or begins at the border (`InPlace.fill_append`), as it
does where all names are of letters and letters end or begin there (`lexWords_append`). Otherwise a
literal may reach over it.
-/

namespace Relayout.Layout

/-- The occurrence with `k` more characters before it. -/
def Occurrence.shift (k : Nat) (o : Occurrence) : Occurrence := ⟨k + o.start, o.text⟩

/-- The piece with `k` more characters before it. -/
def Piece.shift (k : Nat) (p : Piece) : Piece := ⟨k + p.start, p.segment⟩

/-- No name and no letter run reaches from the first text into the second. -/
structure Border (names : List Text) (a b : Text) : Prop where
  names : ∀ n ∈ names, ∀ i < a.length, n <+: a.drop i ++ b → n <+: a.drop i
  letters : ¬(LetterAt a (a.length - 1) ∧ LetterAt b 0)

variable {names : List Text} {text a b : Text} {o r w : Occurrence} {p : Piece}
  {ps qs : List Piece} {found found' runs : List Occurrence} {pos i k : Nat}

/-! ## Positions -/

theorem drop_append_of_le (h : i ≤ a.length) : (a ++ b).drop i = a.drop i ++ b :=
  List.drop_append_of_le_length h

theorem letterAt_append_left (h : i < a.length) : LetterAt (a ++ b) i ↔ LetterAt a i := by
  simp only [LetterAt, List.getElem?_append_left h]

theorem letterAt_append_right : LetterAt (a ++ b) (a.length + i) ↔ LetterAt b i := by
  simp only [LetterAt, List.getElem?_append_right (Nat.le_add_right ..), Nat.add_sub_cancel_left]

theorem Occurrence.contains_shift : (o.shift k).Contains (k + i) ↔ o.Contains i := by
  simp only [Contains, shift, stop]
  omega

theorem Occurrence.stop_shift : (o.shift k).stop = k + o.stop := Nat.add_assoc ..

theorem Occurrence.overlaps_shift : (o.shift k).Overlaps (r.shift k) ↔ o.Overlaps r := by
  simp only [Overlaps, shift, stop]
  omega

/-- What stands in the two parts stands in the whole. -/
theorem forall_here_append
    (ha : ∀ o ∈ found, o.start < a.length ∧ o.text <+: a.drop o.start)
    (hb : ∀ o ∈ found', o.text <+: b.drop o.start) :
    ∀ o ∈ found ++ found'.map (·.shift a.length),
      0 ≤ o.start ∧ o.text <+: (a ++ b).drop o.start := by
  refine List.forall_mem_append.2 ⟨fun o ho => ⟨Nat.zero_le _, ?_⟩,
    List.forall_mem_map.2 fun o ho => ⟨Nat.zero_le _, ?_⟩⟩
  · rw [drop_append_of_le (Nat.le_of_lt (ha o ho).1)]
    exact (ha o ho).2.trans (List.prefix_append ..)
  · rw [Occurrence.shift, List.drop_length_add_append]
    exact hb o ho

/-! ## Names -/

/-- What is found in a text is within its bounds. -/
theorem start_lt_and_stop_le_of_mem_occurrences (ho : o ∈ occurrences names text) :
    o.start < text.length ∧ o.stop ≤ text.length := by
  have h := isMunch_occurrences names text
  have hstop := Occurrence.stop_le_length (h.here o ho).2 (h.named o ho).2
  exact ⟨Nat.lt_of_lt_of_le (Occurrence.start_lt_stop (h.named o ho).2) hstop, hstop⟩

theorem occurrences_append (h : Border names a b) :
    occurrences names (a ++ b) =
      occurrences names a ++ (occurrences names b).map (·.shift a.length) := by
  have ha := isMunch_occurrences names a
  have hb := isMunch_occurrences names b
  have hbounds : ∀ o ∈ occurrences names a, o.start < a.length ∧ o.stop ≤ a.length :=
    fun _ => start_lt_and_stop_le_of_mem_occurrences
  refine (IsMunch.eq_occurrences ⟨?_, ?_, ?_, ?_, ?_⟩).symm
  · refine List.pairwise_append.2 ⟨ha.ordered, List.pairwise_map.2 ?_, ?_⟩
    · refine hb.ordered.imp fun h => ?_
      rw [Occurrence.stop_shift]
      exact Nat.add_le_add_left h _
    · intro o ho p hp
      obtain ⟨p, -, rfl⟩ := List.mem_map.1 hp
      exact Nat.le_trans (hbounds o ho).2 (Nat.le_add_right ..)
  · exact forall_here_append (fun o ho => ⟨(hbounds o ho).1, (ha.here o ho).2⟩)
      fun o ho => (hb.here o ho).2
  · exact List.forall_mem_append.2 ⟨ha.named, List.forall_mem_map.2 hb.named⟩
  · refine List.forall_mem_append.2
      ⟨fun o ho n hn hp => ?_, List.forall_mem_map.2 fun o ho n hn hp => ?_⟩
    · rw [drop_append_of_le (Nat.le_of_lt (hbounds o ho).1)] at hp
      exact ha.longest o ho n hn (h.names n hn _ (hbounds o ho).1 hp)
    · rw [Occurrence.shift, List.drop_length_add_append] at hp
      exact hb.longest o ho n hn hp
  · intro i _ hfree n hn hp
    obtain ⟨hfree, hfree'⟩ := List.forall_mem_append.1 hfree
    rcases Nat.lt_or_ge i a.length with hi | hi
    · rw [drop_append_of_le (Nat.le_of_lt hi)] at hp
      exact ha.gaps i (Nat.zero_le i) hfree n hn (h.names n hn i hi hp)
    · obtain ⟨k, rfl⟩ := Nat.exists_eq_add_of_le hi
      rw [List.drop_length_add_append] at hp
      refine hb.gaps k (Nat.zero_le k) (fun o ho hc => ?_) n hn hp
      exact hfree' _ (List.mem_map_of_mem ho) (Occurrence.contains_shift.2 hc)

/-! ## Letter runs -/

namespace IsRuns

theorem pairwise_before (h : IsRuns text 0 runs) : runs.Pairwise Occurrence.Before :=
  h.apart.imp fun h => Nat.lt_of_le_of_lt (Nat.le_add_right ..) h

/-- The conditions leave only one list. -/
theorem eq_letterRuns (h : IsRuns text 0 runs) : runs = letterRuns text :=
  List.Pairwise.eq_of_mem_iff h.pairwise_before (isRuns_letterRuns text).pairwise_before fun _ =>
    h.mem_iff.trans mem_letterRuns_iff.symm

end IsRuns

theorem start_lt_and_stop_le_of_mem_letterRuns (hr : r ∈ letterRuns text) :
    r.start < text.length ∧ r.stop ≤ text.length := by
  have h := isRuns_letterRuns text
  have hstop := Occurrence.stop_le_length (h.here r hr).2 (h.letters r hr).1
  exact ⟨Nat.lt_of_lt_of_le (Occurrence.start_lt_stop (h.letters r hr).1) hstop, hstop⟩

/-- Runs that meet at the border would have a letter on each side of it. -/
theorem Border.stop_lt (h : Border names a b) (hr : r ∈ letterRuns a) (hw : w ∈ letterRuns b) :
    r.stop < a.length + w.start := by
  have ha := isRuns_letterRuns a
  have hb := isRuns_letterRuns b
  have hbounds := start_lt_and_stop_le_of_mem_letterRuns hr
  refine Nat.lt_of_le_of_ne (Nat.le_trans hbounds.2 (Nat.le_add_right ..)) fun hmeet => ?_
  have hr' := Occurrence.start_lt_stop (ha.letters r hr).1
  have hw' := Occurrence.start_lt_stop (hb.letters w hw).1
  refine h.letters ⟨?_, ?_⟩
  · exact letterAt_of_contains (ha.here r hr).2 (ha.letters r hr).2 ⟨by omega, by omega⟩
  · exact letterAt_of_contains (hb.here w hw).2 (hb.letters w hw).2 ⟨by omega, by omega⟩

theorem letterRuns_append (h : Border names a b) :
    letterRuns (a ++ b) = letterRuns a ++ (letterRuns b).map (·.shift a.length) := by
  have ha := isRuns_letterRuns a
  have hb := isRuns_letterRuns b
  refine (IsRuns.eq_letterRuns ⟨?_, ?_, ?_, ?_⟩).symm
  · refine List.pairwise_append.2 ⟨ha.apart, List.pairwise_map.2 ?_, ?_⟩
    · refine hb.apart.imp fun h => ?_
      rw [Occurrence.stop_shift]
      exact Nat.add_lt_add_left h _
    · intro r hr s hs
      obtain ⟨w, hw, rfl⟩ := List.mem_map.1 hs
      exact h.stop_lt hr hw
  · exact forall_here_append
      (fun r hr => ⟨(start_lt_and_stop_le_of_mem_letterRuns hr).1, (ha.here r hr).2⟩)
      fun r hr => (hb.here r hr).2
  · exact List.forall_mem_append.2 ⟨ha.letters, List.forall_mem_map.2 hb.letters⟩
  · intro i _ hl
    rcases Nat.lt_or_ge i a.length with hi | hi
    · obtain ⟨r, hr, hc⟩ := ha.complete i (Nat.zero_le i) ((letterAt_append_left hi).1 hl)
      exact ⟨r, List.mem_append_left _ hr, hc⟩
    · obtain ⟨k, rfl⟩ := Nat.exists_eq_add_of_le hi
      obtain ⟨r, hr, hc⟩ := hb.complete k (Nat.zero_le k) (letterAt_append_right.1 hl)
      exact ⟨_, List.mem_append_right _ (List.mem_map_of_mem hr),
        Occurrence.contains_shift.2 hc⟩

/-! ## Tokens and words -/

theorem exists_contains_append_left (h : Border names a b) (hi : i < a.length) :
    (∃ o ∈ occurrences names (a ++ b), o.Contains i) ↔
      ∃ o ∈ occurrences names a, o.Contains i := by
  rw [occurrences_append h]
  constructor
  · rintro ⟨o, ho, hc⟩
    rcases List.mem_append.1 ho with ho | ho
    · exact ⟨o, ho, hc⟩
    · obtain ⟨o, -, rfl⟩ := List.mem_map.1 ho
      exact absurd (Nat.le_trans (Nat.le_add_right ..) hc.1) (Nat.not_le.2 hi)
  · rintro ⟨o, ho, hc⟩
    exact ⟨o, List.mem_append_left _ ho, hc⟩

theorem exists_contains_append_right (h : Border names a b) :
    (∃ o ∈ occurrences names (a ++ b), o.Contains (a.length + i)) ↔
      ∃ o ∈ occurrences names b, o.Contains i := by
  rw [occurrences_append h]
  constructor
  · rintro ⟨o, ho, hc⟩
    rcases List.mem_append.1 ho with ho | ho
    · have := (start_lt_and_stop_le_of_mem_occurrences ho).2
      exact absurd hc.2 (by omega)
    · obtain ⟨p, hp, rfl⟩ := List.mem_map.1 ho
      exact ⟨p, hp, Occurrence.contains_shift.1 hc⟩
  · rintro ⟨o, ho, hc⟩
    exact ⟨_, List.mem_append_right _ (List.mem_map_of_mem ho), Occurrence.contains_shift.2 hc⟩

theorem covers_append_left (h : Border names a b) (hr : r ∈ letterRuns a) :
    covers (occurrences names (a ++ b)) r = covers (occurrences names a) r := by
  rw [Bool.eq_iff_iff, covers_iff (isMunch_occurrences ..).ordered,
    covers_iff (isMunch_occurrences ..).ordered]
  have hstop := (start_lt_and_stop_le_of_mem_letterRuns hr).2
  exact forall₂_congr fun i hi => exists_contains_append_left h (Nat.lt_of_lt_of_le hi.2 hstop)

theorem covers_append_right (h : Border names a b) :
    covers (occurrences names (a ++ b)) (r.shift a.length) = covers (occurrences names b) r := by
  rw [Bool.eq_iff_iff, covers_iff (isMunch_occurrences ..).ordered,
    covers_iff (isMunch_occurrences ..).ordered]
  constructor
  · exact fun hall i hi =>
      (exists_contains_append_right h).1 (hall _ (Occurrence.contains_shift.2 hi))
  · intro hall i hi
    obtain ⟨k, rfl⟩ := Nat.exists_eq_add_of_le (Nat.le_trans (Nat.le_add_right ..) hi.1)
    exact (exists_contains_append_right h).2 (hall k (Occurrence.contains_shift.1 hi))

theorem uncovered_append (h : Border names a b) :
    uncovered (occurrences names (a ++ b)) (a ++ b) = uncovered (occurrences names a) a ++
      (uncovered (occurrences names b) b).map (·.shift a.length) := by
  rw [uncovered, letterRuns_append h, List.filter_append, List.filter_map]
  refine congrArg₂ (· ++ ·) (List.filter_congr fun r hr => ?_)
    (congrArg _ (List.filter_congr fun r _ => ?_))
  · rw [covers_append_left h hr]
  · rw [Function.comp_apply, covers_append_right h]

/-- A token before the border is dropped for the words before it only. -/
theorem kept_append_left (h : Border names a b) (ho : o ∈ occurrences names a) :
    (∀ w ∈ uncovered (occurrences names (a ++ b)) (a ++ b), ¬o.Overlaps w) ↔
      ∀ w ∈ uncovered (occurrences names a) a, ¬o.Overlaps w := by
  rw [uncovered_append h, List.forall_mem_append, and_iff_left_iff_imp]
  intro _
  refine List.forall_mem_map.2 fun w _ hover => ?_
  have := (start_lt_and_stop_le_of_mem_occurrences ho).2
  exact absurd hover.2 (Nat.not_lt.2 (Nat.le_trans this (Nat.le_add_right ..)))

/-- A token behind the border is dropped for the words behind it only. -/
theorem kept_append_right (h : Border names a b) :
    (∀ w ∈ uncovered (occurrences names (a ++ b)) (a ++ b), ¬(o.shift a.length).Overlaps w) ↔
      ∀ w ∈ uncovered (occurrences names b) b, ¬o.Overlaps w := by
  have hbefore : ∀ w ∈ uncovered (occurrences names a) a, ¬(o.shift a.length).Overlaps w := by
    intro w hw hover
    have := (start_lt_and_stop_le_of_mem_letterRuns (mem_uncovered.1 hw).1).2
    exact absurd hover.1 (Nat.not_lt.2 (Nat.le_trans this (Nat.le_add_right ..)))
  rw [uncovered_append h, List.forall_mem_append, and_iff_right hbefore, List.forall_mem_map]
  simp only [Occurrence.overlaps_shift]

theorem outputPieces_append (h : Border names a b) : outputPieces names (a ++ b) =
    outputPieces names a ++ (outputPieces names b).map (·.shift a.length) := by
  have hbefore : ∀ p ∈ outputPieces names a, p.start < a.length := by
    intro p hp
    rcases mem_outputPieces.1 hp with ⟨o, ho, -, rfl⟩ | ⟨w, hw, rfl⟩
    · exact (start_lt_and_stop_le_of_mem_occurrences ho).1
    · exact (start_lt_and_stop_le_of_mem_letterRuns (mem_uncovered.1 hw).1).1
  refine List.Pairwise.eq_of_mem_iff pairwise_outputPieces (List.pairwise_append.2
    ⟨pairwise_outputPieces, List.pairwise_map.2 (pairwise_outputPieces.imp fun hpq => ?_),
      fun p hp q hq => ?_⟩) fun p => ?_
  · exact Nat.add_lt_add_left hpq _
  · obtain ⟨q, -, rfl⟩ := List.mem_map.1 hq
    exact Nat.lt_of_lt_of_le (hbefore p hp) (Nat.le_add_right ..)
  · rw [List.mem_append, List.mem_map, mem_outputPieces]
    constructor
    · rintro (⟨o, ho, hkept, rfl⟩ | ⟨w, hw, rfl⟩)
      · rw [occurrences_append h] at ho
        rcases List.mem_append.1 ho with ho | ho
        · exact .inl (mem_outputPieces.2 (.inl ⟨o, ho, (kept_append_left h ho).1 hkept, rfl⟩))
        · obtain ⟨o', ho', rfl⟩ := List.mem_map.1 ho
          exact .inr ⟨⟨o'.start, .token o'.text⟩,
            mem_outputPieces.2 (.inl ⟨o', ho', (kept_append_right h).1 hkept, rfl⟩), rfl⟩
      · rw [uncovered_append h] at hw
        rcases List.mem_append.1 hw with hw | hw
        · exact .inl (mem_outputPieces.2 (.inr ⟨w, hw, rfl⟩))
        · obtain ⟨w', hw', rfl⟩ := List.mem_map.1 hw
          exact .inr ⟨⟨w'.start, .word w'.text⟩,
            mem_outputPieces.2 (.inr ⟨w', hw', rfl⟩), rfl⟩
    · rintro (hp | ⟨q, hq, rfl⟩)
      · rcases mem_outputPieces.1 hp with ⟨o, ho, hkept, rfl⟩ | ⟨w, hw, rfl⟩
        · exact .inl ⟨o, occurrences_append h ▸ List.mem_append_left _ ho,
            (kept_append_left h ho).2 hkept, rfl⟩
        · exact .inr ⟨w, uncovered_append h ▸ List.mem_append_left _ hw, rfl⟩
      · rcases mem_outputPieces.1 hq with ⟨o, ho, hkept, rfl⟩ | ⟨w, hw, rfl⟩
        · exact .inl ⟨o.shift a.length,
            occurrences_append h ▸ List.mem_append_right _ (List.mem_map_of_mem ho),
            (kept_append_right h).2 hkept, rfl⟩
        · exact .inr ⟨w.shift a.length,
            uncovered_append h ▸ List.mem_append_right _ (List.mem_map_of_mem hw), rfl⟩

/-! ## Segments -/

theorem Piece.stop_shift : (p.shift k).stop = k + p.stop := Nat.add_assoc ..

theorem fill_shift (k pos : Nat) : fill (k + pos) text (ps.map (·.shift k)) = fill pos text ps := by
  induction ps generalizing pos text with
  | nil => rfl
  | cons p ps ih =>
    simp only [List.map_cons, fill, Piece.shift, Nat.add_sub_add_left, Nat.add_assoc]
    rw [← ih]
    rfl

theorem InPlace.le_length (h : InPlace text pos ps) : pos ≤ text.length := by
  induction h with
  | nil h => exact h
  | cons hp _ _ _ ih => exact Nat.le_trans hp (Nat.le_trans (Nat.le_add_right ..) ih)

/-- Pieces in the two parts with the text between them, where one of the pieces ends or begins at
the border. -/
theorem InPlace.fill_append (h : InPlace a pos ps)
    (hborder : (pos < a.length → ∃ p ∈ ps, p.Contains (a.length - 1)) ∨
      ∃ q qs', qs = q :: qs' ∧ q.start = 0) :
    fill pos ((a ++ b).drop pos) (ps ++ qs.map (·.shift a.length)) =
      fill pos (a.drop pos) ps ++ fill 0 b qs := by
  induction h with
  | @nil pos hpos =>
    rw [List.nil_append, fill]
    rcases hborder with hends | ⟨q, qs', rfl, hq⟩
    · have hpos : pos = a.length := by
        refine Nat.le_antisymm hpos (Nat.le_of_not_lt fun hlt => ?_)
        obtain ⟨_, hp, _⟩ := hends hlt
        exact absurd hp List.not_mem_nil
      rw [hpos, List.drop_append_length, List.drop_length, gap, List.nil_append]
      exact fill_shift a.length 0
    · have hstart : (q.shift a.length).start = a.length := by
        rw [Piece.shift, hq, Nat.add_zero]
      have hle : pos ≤ (q.shift a.length).start := by rwa [hstart]
      have hnone : gap ((b.drop 0).take (q.start - 0)) = [] := by rw [hq, List.take_zero, gap]
      rw [List.map_cons, fill_cons hle, hstart, Piece.stop_shift, List.drop_length_add_append,
        fill_shift, drop_append_of_le hpos, ← List.length_drop, List.take_append_length,
        ← List.drop_zero (l := b), fill_cons (Nat.zero_le _), hnone, List.nil_append]
      rfl
  | @cons pos p ps hp hbegins _ hrest ih =>
    have hstop : p.start ≤ p.stop := Nat.le_add_right ..
    have hstart : p.start ≤ a.length := Nat.le_trans hstop hrest.le_length
    have hlen : p.start - pos ≤ (a.drop pos).length := by
      rw [List.length_drop]
      exact Nat.sub_le_sub_right hstart pos
    rw [List.cons_append, fill_cons hp, fill_cons hp, ih ?_,
      drop_append_of_le (Nat.le_trans hp hstart), List.take_append_of_le_length hlen,
      List.append_assoc, List.cons_append]
    refine hborder.imp_left fun hends hlt => ?_
    obtain ⟨q, hq, hc⟩ := hends (by omega)
    rcases List.mem_cons.1 hq with rfl | hq
    · have := hc.2
      omega
    · exact ⟨q, hq, hc⟩

/-- Every letter is in a token or in a word where the names are of letters. -/
theorem exists_contains_of_letterAt (hletters : ∀ n ∈ names, ∀ c ∈ n, c.isAlpha)
    (hl : LetterAt text i) : ∃ p ∈ outputPieces names text, p.Contains i := by
  refine Classical.byContradiction fun hfree => ?_
  have hunread : Unread names text i :=
    unread_iff.2 ⟨hl, fun p hp hc => hfree ⟨p, hp, hc⟩⟩
  obtain ⟨n, hn, hapart⟩ := hunread.not_lettersTogether
  exact hapart (lettersTogether_of_letters (hletters n hn))

/-- Names of letters do not reach over a border that has no letter on one of its sides. -/
theorem border_of_letters (hletters : ∀ n ∈ names, ∀ c ∈ n, c.isAlpha)
    (h : ¬(LetterAt a (a.length - 1) ∧ LetterAt b 0)) : Border names a b where
  letters := h
  names n hn i hi hp := by
    refine Classical.byContradiction fun hnot => h ?_
    have hlong : (a.drop i).length < n.length := Nat.lt_of_not_le fun hle =>
      hnot (List.prefix_of_prefix_length_le hp (List.prefix_append ..) hle)
    rw [← drop_append_of_le (Nat.le_of_lt hi)] at hp
    rw [List.length_drop] at hlong
    have hletter : ∀ k, i ≤ k → k < i + n.length → LetterAt (a ++ b) k := fun k hk hlt =>
      letterAt_of_contains (o := ⟨i, n⟩) hp (hletters n hn) ⟨hk, hlt⟩
    refine ⟨(letterAt_append_left (by omega)).1 (hletter _ (by omega) (by omega)), ?_⟩
    exact letterAt_append_right.1 (hletter (a.length + 0) (by omega) (by omega))

/-- A text is read in two parts where letters end or begin. -/
theorem lexWords_append (hletters : ∀ n ∈ names, ∀ c ∈ n, c.isAlpha)
    (hchange : LetterAt a (a.length - 1) ↔ ¬LetterAt b 0) :
    lexWords names (a ++ b) = lexWords names a ++ lexWords names b := by
  have hborder : Border names a b := border_of_letters hletters fun h => hchange.1 h.1 h.2
  simp only [lexWords_eq_fill]
  rw [outputPieces_append hborder]
  refine inPlace_outputPieces.fill_append ?_
  by_cases hl : LetterAt b 0
  · right
    obtain ⟨p, hp, hc⟩ := exists_contains_of_letterAt hletters hl
    obtain ⟨q, qs, hpieces⟩ := List.exists_cons_of_ne_nil (List.ne_nil_of_mem hp)
    have hbefore : (q :: qs).Pairwise Piece.Before := hpieces ▸ pairwise_outputPieces
    refine ⟨q, qs, hpieces, ?_⟩
    rw [hpieces] at hp
    rcases List.mem_cons.1 hp with rfl | hp
    · exact Nat.le_zero.1 hc.1
    · have hlt : q.start < p.start := (List.pairwise_cons.1 hbefore).1 p hp
      exact absurd hc.1 (Nat.not_le.2 (Nat.zero_lt_of_lt hlt))
  · exact .inl fun _ => exists_contains_of_letterAt hletters (hchange.2 hl)

end Relayout.Layout
