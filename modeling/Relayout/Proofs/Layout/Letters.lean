import Relayout.Proofs.Layout.Places

/-!
# The letters of an output layout

A letter of ordinary text is to be part of a token or of a word, so that the check of the layout
sees it. It is neither when the token over it also reaches into a word and is dropped for that,
while the run of the letter is covered and so is no word itself (`Unread`). These are all the letters
that stand in a literal, and there are none where each name has its letters side by side.
-/

namespace Relayout.Layout

variable {names : List Text} {text n : Text} {o : Occurrence}
  {i : Nat} {segs : List Segment}

/-- A letter stands in a literal. -/
def HasLooseLetter (segs : List Segment) : Prop := ∃ t, .literal t ∈ segs ∧ ∃ c ∈ t, c.isAlpha

/-- The letter at `i` is in no word, and the token over it is dropped for a word elsewhere. -/
structure Unread (names : List Text) (text : Text) (i : Nat) : Prop where
  letter : LetterAt text i
  outside : ∀ w ∈ uncovered (occurrences names text) text, ¬w.Contains i
  dropped : ∃ o ∈ occurrences names text, o.Contains i ∧
    ∃ w ∈ uncovered (occurrences names text) text, o.Overlaps w

/-- There are only letters between two letters of the text. -/
def LettersTogether (text : Text) : Prop :=
  ∀ i j k, i ≤ j → j ≤ k → LetterAt text i → LetterAt text k → LetterAt text j

theorem lettersTogether_of_letters (h : ∀ c ∈ n, c.isAlpha) : LettersTogether n := by
  rintro i j k - hjk - ⟨c, hc, -⟩
  have hj : j < n.length := Nat.lt_of_le_of_lt hjk (List.getElem?_eq_some_iff.1 hc).1
  exact ⟨n[j], List.getElem?_eq_getElem hj, h _ (List.getElem_mem hj)⟩

/-! ## Letters in literals -/

theorem letterAt_iff_of_contains (h : o.text <+: text.drop o.start) (hi : o.Contains i) :
    LetterAt o.text (i - o.start) ↔ LetterAt text i := by
  unfold LetterAt
  have hlt : i - o.start < o.text.length := Nat.sub_lt_left_of_lt_add hi.1 hi.2
  rw [← getElem?_of_prefix_drop h hlt, Nat.add_sub_cancel' hi.1]

/-- A literal has a letter just when there is one at a position that it takes up. -/
theorem hasLooseLetter_iff (h : segs.flatMap Segment.text = text) :
    HasLooseLetter segs ↔ ∃ i, LetterAt text i ∧ InLiteral 0 segs i := by
  have hbegins : ∀ p ∈ placed 0 segs, p.segment.text <+: text.drop p.start :=
    fun p hp => prefix_of_mem_placed (h.trans List.drop_zero.symm) hp
  constructor
  · rintro ⟨t, ht, c, hc, hl⟩
    obtain ⟨p, hp, heq⟩ := mem_iff_exists_placed.1 ht
    obtain ⟨k, hk⟩ := List.mem_iff_getElem?.1 hc
    have htext : p.segment.text = t := congrArg Segment.text heq
    have hlt : k < p.segment.text.length := htext ▸ (List.getElem?_eq_some_iff.1 hk).1
    have hget : text[p.start + k]? = p.segment.text[k]? :=
      getElem?_of_prefix_drop (hbegins p hp) hlt
    exact ⟨p.start + k, ⟨c, hget.trans (htext ▸ hk), hl⟩, p, hp,
      ⟨Nat.le_add_right .., Nat.add_lt_add_left hlt _⟩, t, heq⟩
  · rintro ⟨i, hl, p, hp, hi, t, heq⟩
    obtain ⟨c, hc, hl⟩ :=
      (letterAt_iff_of_contains (o := ⟨p.start, p.segment.text⟩) (hbegins p hp) hi).2 hl
    have htext : p.segment.text = t := congrArg Segment.text heq
    exact ⟨t, mem_iff_exists_placed.2 ⟨p, hp, heq⟩, c, htext ▸ List.mem_of_getElem? hc, hl⟩

/-! ## Unread letters -/

/-- The letters outside tokens and words are those that are unread. -/
theorem unread_iff : Unread names text i ↔
    LetterAt text i ∧ ∀ p ∈ outputPieces names text, ¬p.Contains i := by
  have hfound := isMunch_occurrences names text
  constructor
  · rintro ⟨hl, hwords, o, ho, hcontains, w, hw, hover⟩
    refine ⟨hl, fun p hp hc => ?_⟩
    rcases mem_outputPieces.1 hp with ⟨o', ho', hfree, rfl⟩ | ⟨w', hw', rfl⟩
    · -- a token that is kept is not the one over the letter
      have hc : o'.Contains i := hc
      rcases eq_or_rel_of_pairwise hfound.ordered ho ho' with rfl | hle | hle
      · exact hfree w hw hover
      · exact absurd (Nat.lt_of_lt_of_le hcontains.2 hle) (Nat.not_lt.2 hc.1)
      · exact absurd (Nat.lt_of_lt_of_le hc.2 hle) (Nat.not_lt.2 hcontains.1)
    · exact hwords w' hw' hc
  · rintro ⟨hl, hfree⟩
    have hwords : ∀ w ∈ uncovered (occurrences names text) text, ¬w.Contains i :=
      fun w hw => hfree _ (mem_outputPieces.2 (.inr ⟨w, hw, rfl⟩))
    obtain ⟨r, hr, hi⟩ := (isRuns_letterRuns text).complete i (Nat.zero_le i) hl
    have hcovers : covers (occurrences names text) r = true :=
      Classical.byContradiction fun h => hwords r (mem_uncovered.2 ⟨hr, h⟩) hi
    obtain ⟨o, ho, hcontains⟩ := (covers_iff hfound.ordered).1 hcovers i hi
    refine ⟨hl, hwords, o, ho, hcontains, Classical.byContradiction fun hkept => ?_⟩
    exact hfree _ (mem_outputPieces.2 (.inl
      ⟨o, ho, fun w hw hover => hkept ⟨w, hw, hover⟩, rfl⟩)) hcontains

theorem inLiteral_lexWords_iff (hl : LetterAt text i) :
    InLiteral 0 (lexWords names text) i ↔ Unread names text i := by
  have hpieces : ∀ p ∈ outputPieces names text, ∀ t, p.segment ≠ .literal t := by
    intro p hp t
    rcases isTokenOrWord_of_mem_outputPieces hp with ⟨n, _, heq⟩ | ⟨w, heq⟩ <;> rw [heq] <;>
      exact nofun
  rw [unread_iff, and_iff_right hl]
  obtain ⟨c, hc, -⟩ := hl
  exact inPlace_outputPieces.inLiteral_fill_iff hpieces (Nat.zero_le i)
    (List.getElem?_eq_some_iff.1 hc).1

theorem hasLooseLetter_lexWords :
    HasLooseLetter (lexWords names text) ↔ ∃ i, Unread names text i := by
  rw [hasLooseLetter_iff ((tiles_lexWords names).text text)]
  exact exists_congr fun i => ⟨fun ⟨hl, h⟩ => (inLiteral_lexWords_iff hl).1 h,
    fun h => ⟨h.letter, (inLiteral_lexWords_iff h.letter).2 h⟩⟩

/-- The letters of the name over an unread letter are not all side by side: one of them is in the
word, and the run of the unread letter is another. -/
theorem Unread.not_lettersTogether (h : Unread names text i) :
    ∃ n ∈ names, ¬LettersTogether n := by
  have hfound := isMunch_occurrences names text
  have hruns := isRuns_letterRuns text
  obtain ⟨hl, hwords, o, ho, hi, w, hw, hover⟩ := h
  refine ⟨o.text, (hfound.named o ho).1, fun htogether => hwords w hw ?_⟩
  have hw := (mem_uncovered.1 hw).1
  have hhere := (hfound.here o ho).2
  obtain ⟨k, hko, hkw⟩ := hover.exists_contains (hfound.named o ho).2 (hruns.letters w hw).1
  have hlk : LetterAt text k := letterAt_of_contains (hruns.here w hw).2 (hruns.letters w hw).2 hkw
  refine hruns.contains_of_letterAt hw hkw fun j hj => ?_
  have hjo : o.Contains j := by
    unfold Occurrence.Contains at hi hko ⊢
    omega
  rw [← letterAt_iff_of_contains hhere hi] at hl
  rw [← letterAt_iff_of_contains hhere hko] at hlk
  rw [← letterAt_iff_of_contains hhere hjo]
  rcases hj with ⟨hij, hjk⟩ | ⟨hkj, hji⟩
  · exact htogether _ _ _ (Nat.sub_le_sub_right hij _) (Nat.sub_le_sub_right hjk _) hl hlk
  · exact htogether _ _ _ (Nat.sub_le_sub_right hkj _) (Nat.sub_le_sub_right hji _) hlk hl

/-! ## Layouts -/

theorem hasLooseLetter_dotted :
    HasLooseLetter (outputSegments ["a.b".toList] "xa.b".toList) := by
  have hsegments : outputSegments ["a.b".toList] "xa.b".toList =
      [.word "xa".toList, .literal ".b".toList] := by
    rw [outputSegments_eq_insertionSort]
    decide +kernel
  rw [hsegments]
  exact ⟨".b".toList, .tail _ (.head _), 'b', by decide, by decide⟩

/-- The letters of an output layout that stand in literals are those that are unread, letter by
letter in each stretch. There are none where each name has its letters side by side. -/
theorem hasLooseLetter_outputSegments (names : List Text) (layout : Text) :
    (HasLooseLetter (outputSegments names layout) ↔
      ∃ text, .plain text ∈ stretches layout ∧ ∃ i, Unread names text i) ∧
    (∀ text i, LetterAt text i →
      (InLiteral 0 (lexWords names text) i ↔ Unread names text i)) ∧
    ((∀ n ∈ names, LettersTogether n) → ¬HasLooseLetter (outputSegments names layout)) := by
  have hiff : HasLooseLetter (outputSegments names layout) ↔
      ∃ text, .plain text ∈ stretches layout ∧ ∃ i, Unread names text i := by
    simp only [← hasLooseLetter_lexWords]
    constructor
    · rintro ⟨t, ht, hl⟩
      rcases mem_segmentsBy.1 ht with ⟨text, htext, ht⟩ | ⟨_, _, _, heq⟩
      · exact ⟨text, htext, t, ht, hl⟩
      · exact nomatch heq
    · rintro ⟨text, htext, t, ht, hl⟩
      exact ⟨t, mem_segmentsBy.2 (.inl ⟨text, htext, ht⟩), hl⟩
  refine ⟨hiff, fun text i hl => inLiteral_lexWords_iff hl, fun htogether hloose => ?_⟩
  obtain ⟨text, -, i, hunread⟩ := hiff.1 hloose
  obtain ⟨n, hn, hapart⟩ := hunread.not_lettersTogether
  exact hapart (htogether n hn)

/-- The name `a.b` reaches into the word `xa` and leaves its `b`, which names of letters do not. -/
theorem hasLooseLetter_outputSegments_dotted :
    (∃ text, .plain text ∈ stretches "xa.b".toList ∧ ∃ i, Unread ["a.b".toList] text i) ∧
    Unread ["a.b".toList] "xa.b".toList 3 ∧
    ¬HasLooseLetter (outputSegments ["b".toList, "a".toList] "xa.b".toList) := by
  have hread : lexWords ["a.b".toList] "xa.b".toList =
      [.word "xa".toList, .literal ".b".toList] := by
    rw [lexWords_eq_insertionSort]
    decide +kernel
  have hliteral : InLiteral 0 (lexWords ["a.b".toList] "xa.b".toList) 3 :=
    hread ▸ ⟨⟨2, .literal ".b".toList⟩, .tail _ (.head _), ⟨by decide, by decide⟩, _, rfl⟩
  have hletters : ∀ n ∈ ["b".toList, "a".toList], ∀ c ∈ n, c.isAlpha := by simp
  exact ⟨(hasLooseLetter_outputSegments _ _).1.1 hasLooseLetter_dotted,
    ((hasLooseLetter_outputSegments _ "xa.b".toList).2.1 _ 3 ⟨'b', rfl, rfl⟩).1 hliteral,
    (hasLooseLetter_outputSegments _ _).2.2 fun n hn => lettersTogether_of_letters (hletters n hn)⟩

/-- A letter of an output layout may escape the check of its tokens and words. -/
theorem not_forall_not_hasLooseLetter :
    ¬∀ (names : List Text) (layout : Text), ¬HasLooseLetter (outputSegments names layout) :=
  fun h => h _ _ hasLooseLetter_dotted

end Relayout.Layout
