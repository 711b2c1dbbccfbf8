import Mathlib.Data.List.Dedup
import Mathlib.Data.String.Basic
import Relayout.Proofs.Bytes
import Relayout.Proofs.Layout.Munch

/-!
# The scan as a search for alternatives

The names can also be found by a search that knows no longest match: it is given the names as
ordered alternatives (`alternatives`) and finds matches from left to right, at each place the
earliest alternative that matches (`LeftmostFirst`). With the longer names first, that is the scan
for the longest name. Each of the two descriptions, by the search and by the conditions of `IsMunch`,
holds of one list only, the one that `occurrences` gives (`occurrences_maximal_munch`).
-/

namespace Relayout.Layout

/-- The names in the order in which they are tried: each once, without the empty one, by their code
points, and then the longer ones first. -/
def alternatives (names : List Text) : List Text :=
  ((names.filter (· ≠ [])).dedup.mergeSort (· ≤ ·)).mergeSort fun n m => m.length ≤ n.length

/-- What a search for alternatives finds in `text` from `pos` on. A match is the earliest
alternative that matches at its place, no alternative matches before it, and the search goes on
behind it. -/
inductive LeftmostFirst (alts : List Text) (text : Text) : Nat → List Occurrence → Prop
  | done : (∀ i, pos ≤ i → ∀ a ∈ alts, ¬a <+: text.drop i) → LeftmostFirst alts text pos []
  | next : pos ≤ i → (∀ j, pos ≤ j → j < i → ∀ a ∈ alts, ¬a <+: text.drop j) →
    alts.find? (·.isPrefixOf (text.drop i)) = some a →
    LeftmostFirst alts text (i + a.length) rest → LeftmostFirst alts text pos (⟨i, a⟩ :: rest)

variable {names names' alts : List Text} {text rest a n : Text} {found : List Occurrence}
  {pos i : Nat}

/-! ## Alternatives -/

theorem mem_alternatives : n ∈ alternatives names ↔ n ∈ names ∧ n ≠ [] := by
  simp only [alternatives, List.mem_mergeSort, List.mem_dedup, List.mem_filter, decide_eq_true_eq]

theorem pairwise_alternatives : (alternatives names).Pairwise fun n m => m.length ≤ n.length := by
  refine (List.pairwise_mergeSort (fun a b c hab hbc => ?_) (fun a b => ?_) _).imp of_decide_eq_true
  · simp only [decide_eq_true_eq] at *
    omega
  · simp only [Bool.or_eq_true, decide_eq_true_eq]
    omega

/-- The earliest alternative that matches is a longest name that does. -/
theorem length_eq_munch_of_find? (h : (alternatives names).find? (·.isPrefixOf rest) = some a) :
    a <+: rest ∧ a.length = munch names rest := by
  obtain ⟨hbegins, before, behind, hsplit, hearlier⟩ := List.find?_eq_some_iff_append.1 h
  have hbegins := List.isPrefixOf_iff_prefix.1 hbegins
  have hmem : a ∈ alternatives names := hsplit ▸ List.mem_append_right _ (.head _)
  have hle : a.length ≤ munch names rest := length_le_munch (mem_alternatives.1 hmem).1 hbegins
  have hpos := List.length_pos_iff.2 (mem_alternatives.1 hmem).2
  obtain ⟨n, hn, hp, hlen⟩ := exists_of_munch_pos (Nat.lt_of_lt_of_le hpos hle)
  refine ⟨hbegins, Nat.le_antisymm hle (hlen ▸ ?_)⟩
  -- the longest name stands with the later alternatives, which are not longer
  have hn : n ∈ before ++ a :: behind :=
    hsplit ▸ mem_alternatives.2 ⟨hn, List.ne_nil_of_length_pos (by omega)⟩
  rcases List.mem_append.1 hn with hn | hn
  · simpa [List.isPrefixOf_iff_prefix.2 hp] using hearlier n hn
  · rcases List.mem_cons.1 hn with rfl | hn
    · exact Nat.le_refl _
    · have hsorted : (before ++ a :: behind).Pairwise fun n m => m.length ≤ n.length :=
        hsplit ▸ pairwise_alternatives
      exact (List.pairwise_cons.1 (List.pairwise_append.1 hsorted).2.1).1 n hn

theorem munch_eq_zero_iff :
    munch names rest = 0 ↔ ∀ a ∈ alternatives names, ¬a <+: rest := by
  constructor
  · intro h a ha hp
    obtain ⟨hn, hne⟩ := mem_alternatives.1 ha
    have := length_le_munch hn hp
    exact hne (List.length_eq_zero_iff.1 (by omega))
  · intro h
    refine Nat.eq_zero_of_not_pos fun hpos => ?_
    obtain ⟨n, hn, hp, hlen⟩ := exists_of_munch_pos hpos
    exact h n (mem_alternatives.2 ⟨hn, List.ne_nil_of_length_pos (by omega)⟩) hp

/-! ## The search -/

theorem IsMunch.skip_to (hi : pos ≤ i) (h : ∀ j, pos ≤ j → j < i → munch names (text.drop j) = 0)
    (hrest : IsMunch names text i found) : IsMunch names text pos found := by
  obtain ⟨k, rfl⟩ := Nat.exists_eq_add_of_le hi
  induction k generalizing pos with
  | zero => exact hrest
  | succ k ih =>
    refine .skip (h pos (Nat.le_refl _) (by omega)) (ih (Nat.le_add_right ..) ?_ ?_)
    · exact fun j hj hlt => h j (Nat.le_of_succ_le hj) (by omega)
    · rwa [Nat.add_right_comm]

theorem LeftmostFirst.skip (h : ∀ a ∈ alts, ¬a <+: text.drop pos)
    (hrest : LeftmostFirst alts text (pos + 1) found) : LeftmostFirst alts text pos found := by
  have hfirst {j} (hj : pos ≤ j) (hlater : pos + 1 ≤ j → ∀ a ∈ alts, ¬a <+: text.drop j) :
      ∀ a ∈ alts, ¬a <+: text.drop j := by
    rcases Nat.eq_or_lt_of_le hj with rfl | hj
    · exact h
    · exact hlater hj
  cases hrest with
  | done hnone => exact .done fun i hi => hfirst hi (hnone i)
  | next hi hbefore hfind hrest =>
    exact .next (Nat.le_of_succ_le hi) (fun j hj hlt => hfirst hj fun hj => hbefore j hj hlt)
      hfind hrest

/-- What the search finds meets the conditions on the scan. -/
theorem LeftmostFirst.isMunch (h : LeftmostFirst (alternatives names) text pos found) :
    IsMunch names text pos found := by
  induction h with
  | done hnone =>
    exact ⟨.nil, nofun, nofun, nofun, fun i hi _ n hn hp => Classical.byContradiction fun hne =>
      hnone i hi n (mem_alternatives.2 ⟨hn, hne⟩) hp⟩
  | @next pos i a rest hi hbefore hfind _ ih =>
    obtain ⟨hbegins, hlen⟩ := length_eq_munch_of_find? hfind
    have hpos : 0 < munch names (text.drop i) := by
      rw [← hlen]
      exact List.length_pos_iff.2 (mem_alternatives.1 (List.mem_of_find?_eq_some hfind)).2
    have htext : a = (text.drop i).take (munch names (text.drop i)) :=
      hlen ▸ List.prefix_iff_eq_take.1 hbegins
    refine .skip_to hi (fun j hj hlt => munch_eq_zero_iff.2 (hbefore j hj hlt)) ?_
    rw [htext]
    exact .take hpos (hlen ▸ ih)

/-- The search finds what the scan finds. -/
theorem leftmostFirst_occurrencesFrom (h : rest = text.drop pos) :
    LeftmostFirst (alternatives names) text pos (occurrencesFrom names pos rest) := by
  fun_induction occurrencesFrom names pos rest with
  | case1 pos =>
    refine .done fun i hi a ha hp => (mem_alternatives.1 ha).2 ?_
    rwa [List.drop_of_length_le (Nat.le_trans (List.drop_eq_nil_iff.1 h.symm) hi),
      List.prefix_nil] at hp
  | case2 pos c rest hzero ih =>
    refine .skip (munch_eq_zero_iff.1 (h ▸ hzero)) (ih ?_)
    rw [← List.drop_drop, ← h, List.drop_one, List.tail_cons]
  | case3 pos c rest n hsucc ih =>
    have hdrop : rest.drop n = text.drop (pos + n + 1) := by
      rw [Nat.add_assoc, ← List.drop_drop, ← h, List.drop_succ_cons]
    obtain ⟨a, hfind⟩ : ∃ a, (alternatives names).find? (·.isPrefixOf (c :: rest)) = some a := by
      refine Option.ne_none_iff_exists'.1 fun hnone => ?_
      have hzero := munch_eq_zero_iff.2 fun a ha hp =>
        List.find?_eq_none.1 hnone a ha (List.isPrefixOf_iff_prefix.2 hp)
      omega
    obtain ⟨hbegins, hlen⟩ := length_eq_munch_of_find? hfind
    have hlen : a.length = n + 1 := hlen.trans hsucc
    rw [← hlen, ← List.prefix_iff_eq_take.1 hbegins]
    refine .next (Nat.le_refl pos) (fun j hj hlt => absurd hj (Nat.not_le.2 hlt)) (h ▸ hfind) ?_
    rw [hlen]
    exact ih hdrop

/-- The scan for the longest name finds what a search for the names finds that tries the longer ones
first, and it is the only list in which the pieces stand in order, each is a longest name at its
place, and no name begins between them. Neither the order of the names nor their repetition
matters. -/
theorem occurrences_maximal_munch (names : List Text) (text : Text) :
    (∀ found, LeftmostFirst (alternatives names) text 0 found ↔ found = occurrences names text) ∧
    (∀ found, IsMunch names text 0 found ↔ found = occurrences names text) ∧
    (∀ names', (∀ n ≠ [], n ∈ names ↔ n ∈ names') →
      occurrences names' text = occurrences names text) ∧
    ∀ o ∈ occurrences names text,
      text.slice? (text.byteAt o.start) (text.byteAt o.start + o.text.utf8Size) = some o.text := by
  have hfound := isMunch_occurrences names text
  refine ⟨fun found => ⟨fun h => h.isMunch.eq_occurrences, ?_⟩,
    fun found => ⟨IsMunch.eq_occurrences, ?_⟩, fun names' h => ?_, fun o ho => ?_⟩
  · rintro rfl
    exact leftmostFirst_occurrencesFrom rfl
  · rintro rfl
    exact hfound
  · exact (occurrences_congr_of_ne_nil h).symm
  · exact Text.slice?_byteAt (hfound.here o ho).2

/-- An empty name and one that is given twice are as good as not there. -/
theorem occurrences_maximal_munch_repeated :
    occurrences ["a".toList, "aa".toList, [], "a".toList] "aaa".toList =
      [⟨0, "aa".toList⟩, ⟨2, "a".toList⟩] := by
  have hfewer : occurrences ["aa".toList, "a".toList] "aaa".toList =
      [⟨0, "aa".toList⟩, ⟨2, "a".toList⟩] := by cbv
  rw [← hfewer]
  refine (occurrences_maximal_munch ["aa".toList, "a".toList] "aaa".toList).2.2.1 _ fun n hne => ?_
  grind

end Relayout.Layout
