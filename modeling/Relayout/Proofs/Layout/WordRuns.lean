import Relayout.Proofs.Layout.Borders
import Relayout.Proofs.Layout.Coverage

/-!
# The words of a layout

`IsWordRuns` says which texts the letter runs of a layout have, each once and in order of first
appearance; it holds of one list only, `wordRuns`. A scan of the bytes that keeps what it has not
seen gives that list, too. The words that an output layout is read as are among them, since a
bracket is no letter and so a letter run of a stretch is one of the layout
(`wordRuns_maximal_runs`).
-/

namespace Relayout.Layout

/-- A run of the layout with the text `v` stands before all runs with the text `w`. -/
def FirstBefore (layout v w : Text) : Prop :=
  ∃ r, MaximalRun layout r ∧ r.text = v ∧
    ∀ s, MaximalRun layout s → s.text = w → r.start < s.start

/-- The texts of the letter runs of a layout, in order of first appearance. -/
structure IsWordRuns (layout : Text) (words : List Text) : Prop where
  mem : ∀ w, w ∈ words ↔ ∃ r, MaximalRun layout r ∧ r.text = w
  ordered : words.Pairwise (FirstBefore layout)

/-- Keeps what is not among `seen` and has not come before. -/
def unseen (seen : List Text) : List Text → List Text
  | [] => []
  | w :: ws => if seen.contains w then unseen seen ws else w :: unseen (w :: seen) ws

/-- `wordRuns` by cuts at bytes, from left to right. -/
def scanWords? (layout : Text) : Option (List Text) := do
  return unseen [] (← (letterSpans layout).mapM fun s => layout.slice? s.start s.stop)

variable {names ws : List Text} {text layout a b t w : Text} {r : Occurrence}
  {runs : List Occurrence} {parts : List Stretch}

/-! ## Different texts -/

theorem mem_distinct : w ∈ distinct ws ↔ w ∈ ws := by
  induction ws with
  | nil => rfl
  | cons v ws ih =>
    rw [distinct, List.mem_cons, List.mem_cons, List.mem_filter, ih, decide_eq_true_iff]
    by_cases h : w = v
    · simp only [h, true_or]
    · simp only [h, false_or, ne_eq, not_false_iff, and_true]

theorem unseen_eq (seen ws : List Text) :
    unseen seen ws = (distinct ws).filter (!seen.contains ·) := by
  induction ws generalizing seen with
  | nil => rfl
  | cons w ws ih =>
    rw [unseen, distinct, ih, ih]
    split
    next h =>
      -- a seen text is kept neither here nor later
      rw [List.filter_cons_of_neg (by simpa using h), List.filter_filter]
      refine List.filter_congr fun v _ => ?_
      by_cases hv : v = w
      · rw [hv, h, Bool.not_true, Bool.false_and]
      · rw [decide_eq_true hv, Bool.and_true]
    next h =>
      rw [List.filter_cons_of_pos (by simpa using h), List.filter_filter]
      refine congrArg _ (List.filter_congr fun v _ => ?_)
      rw [List.contains_cons, Bool.not_or, Bool.and_comm, decide_not, beq_eq_decide]

/-- The texts that are kept have their first place in the order in which they are kept. -/
theorem pairwise_distinct (h : runs.Pairwise Occurrence.Before) :
    (distinct (runs.map (·.text))).Pairwise fun v w =>
      ∃ r ∈ runs, r.text = v ∧ ∀ s ∈ runs, s.text = w → r.start < s.start := by
  induction runs with
  | nil => exact .nil
  | cons r rs ih =>
    obtain ⟨hr, hrs⟩ := List.pairwise_cons.1 h
    have hother : ∀ {w s}, w ≠ r.text → s ∈ r :: rs → s.text = w → s ∈ rs := by
      intro w s hw hs heq
      exact (List.mem_cons.1 hs).resolve_left fun h => hw (heq.symm.trans (h ▸ rfl))
    refine List.pairwise_cons.2 ⟨fun w hw => ?_, ?_⟩
    · have hw : w ≠ r.text := of_decide_eq_true (List.mem_filter.1 hw).2
      exact ⟨r, .head _, rfl, fun s hs heq => hr s (hother hw hs heq)⟩
    · refine ((ih hrs).filter _).imp_of_mem fun {v w} _ hw => ?_
      have hw : w ≠ r.text := of_decide_eq_true (List.mem_filter.1 hw).2
      rintro ⟨s, hs, hv, hfirst⟩
      exact ⟨s, .tail _ hs, hv, fun s' hs' heq => hfirst s' (hother hw hs' heq) heq⟩

/-! ## The runs of a layout -/

instance : Std.Irrefl (FirstBefore layout) where
  irrefl _ := fun ⟨r, hr, hv, hfirst⟩ => Nat.lt_irrefl _ (hfirst r hr hv)

instance : Std.Antisymm (FirstBefore layout) where
  antisymm _ _ := fun ⟨r, hr, hv, hfirst⟩ ⟨s, hs, hw, hfirst'⟩ =>
    absurd (hfirst s hs hw) (Nat.lt_asymm (hfirst' r hr hv))

theorem mem_wordRuns : w ∈ wordRuns layout ↔ ∃ r, MaximalRun layout r ∧ r.text = w := by
  rw [wordRuns, mem_distinct, List.mem_map]
  exact exists_congr fun r => and_congr_left fun _ => mem_letterRuns_iff

theorem isWordRuns_wordRuns (layout : Text) : IsWordRuns layout (wordRuns layout) where
  mem _ := mem_wordRuns
  ordered := by
    refine (pairwise_distinct (isRuns_letterRuns layout).pairwise_before).imp ?_
    rintro v w ⟨r, hr, hv, hfirst⟩
    exact ⟨r, mem_letterRuns_iff.1 hr, hv, fun s hs => hfirst s (mem_letterRuns_iff.2 hs)⟩

/-- The description holds of one list only. -/
theorem isWordRuns_iff : IsWordRuns layout ws ↔ ws = wordRuns layout := by
  have hruns := isWordRuns_wordRuns layout
  constructor
  · intro h
    exact List.Pairwise.eq_of_mem_iff h.ordered hruns.ordered fun w =>
      (h.mem w).trans mem_wordRuns.symm
  · rintro rfl
    exact hruns

theorem nodup_wordRuns (layout : Text) : (wordRuns layout).Nodup := by
  refine (isWordRuns_wordRuns layout).ordered.imp fun hbefore heq => ?_
  exact Std.Irrefl.irrefl _ (heq ▸ hbefore)

theorem mapM_slice? (h : ∀ r ∈ runs, r.text <+: layout.drop r.start) :
    (runs.map (·.span layout)).mapM (fun s => layout.slice? s.start s.stop) =
      some (runs.map (·.text)) := by
  induction runs with
  | nil => rfl
  | cons r rs ih =>
    obtain ⟨hr, hrs⟩ := List.forall_mem_cons.1 h
    have hslice : layout.slice? (r.span layout).start (r.span layout).stop = some r.text :=
      Text.slice?_byteAt hr
    rw [List.map_cons, List.mapM_cons, hslice, ih hrs]
    rfl

theorem scanWords?_eq (layout : Text) : scanWords? layout = some (wordRuns layout) := by
  have hruns := isRuns_letterRuns layout
  rw [scanWords?, letterSpans_eq, mapM_slice? fun r hr => (hruns.here r hr).2]
  simp [unseen_eq, wordRuns]

/-! ## The words of an output layout -/

theorem mem_letterRuns_append_left (hb : ¬LetterAt b 0) (hr : r ∈ letterRuns a) :
    r ∈ letterRuns (a ++ b) := by
  have hborder : Border [] a b := border_of_letters (List.forall_mem_nil _) fun h => hb h.2
  rw [letterRuns_append hborder]
  exact List.mem_append_left _ hr

theorem mem_letterRuns_append_right (ha : ¬LetterAt a (a.length - 1)) (hr : r ∈ letterRuns b) :
    r.shift a.length ∈ letterRuns (a ++ b) := by
  have hborder : Border [] a b := border_of_letters (List.forall_mem_nil _) fun h => ha h.1
  rw [letterRuns_append hborder]
  exact List.mem_append_right _ (List.mem_map_of_mem hr)

/-- A letter run of ordinary text is one of the layout: only brackets stand next to that text. -/
theorem exists_run_of_stretch (h : Stretched layout parts) (ht : .plain t ∈ parts)
    (hr : r ∈ letterRuns t) : ∃ r' ∈ letterRuns layout, r'.text = r.text := by
  induction h with
  | @last layout _ =>
    obtain rfl : t = layout := Stretch.plain.inj (List.mem_singleton.1 ht)
    exact ⟨r, hr, rfl⟩
  | @span a e b parts _ _ _ ih =>
    rcases List.mem_cons.1 ht with heq | ht
    · obtain rfl : t = a := Stretch.plain.inj heq
      have hopen : ¬LetterAt ('[' :: e ++ ']' :: b) 0 := by
        rintro ⟨c, hc, hl⟩
        cases hc
        exact absurd hl (by decide)
      rw [List.append_assoc]
      exact ⟨r, mem_letterRuns_append_left hopen hr, rfl⟩
    · have ht : .plain t ∈ parts := (List.mem_cons.1 ht).resolve_left nofun
      obtain ⟨r', hr', htext⟩ := ih ht
      have hclose : ¬LetterAt (a ++ '[' :: e ++ [']']) ((a ++ '[' :: e ++ [']']).length - 1) := by
        rintro ⟨c, hc, hl⟩
        rw [← List.getLast?_eq_getElem?, List.getLast?_concat] at hc
        cases hc
        exact absurd hl (by decide)
      rw [List.append_cons]
      exact ⟨_, mem_letterRuns_append_right hclose hr', htext⟩

theorem word_mem_wordRuns (h : .word w ∈ outputSegments names layout) : w ∈ wordRuns layout := by
  rcases mem_segmentsBy.1 h with ⟨t, ht, hw⟩ | ⟨_, _, _, heq⟩
  · obtain ⟨r, hr, rfl⟩ := exists_of_word_mem_lexWords hw
    obtain ⟨r', hr', htext⟩ :=
      exists_run_of_stretch (stretched_stretches layout) ht (mem_uncovered.1 hr).1
    exact mem_wordRuns.2 ⟨r', mem_letterRuns_iff.1 hr', htext⟩
  · exact nomatch heq

/-- The word runs of a layout are exactly the texts of its letter runs, those in brackets and those
at its ends among them, each once and in order of first appearance. A scan of the bytes finds them,
and whatever the names are, each word of the output layout is one of them. -/
theorem wordRuns_maximal_runs (layout : Text) :
    (∀ words, IsWordRuns layout words ↔ words = wordRuns layout) ∧
    (wordRuns layout).Nodup ∧
    scanWords? layout = some (wordRuns layout) ∧
    ∀ names w, .word w ∈ outputSegments names layout → w ∈ wordRuns layout :=
  ⟨fun _ => isWordRuns_iff, nodup_wordRuns layout, scanWords?_eq layout,
    fun _ _ => word_mem_wordRuns⟩

/-- A word at the end of a layout, after a run in brackets and one next to a wide character. -/
theorem wordRuns_maximal_runs_bracketed :
    wordRuns "[at] ddé[dd]QQ".toList = ["at".toList, "dd".toList, "QQ".toList] ∧
    .word "QQ".toList ∈ outputSegments ["dd".toList] "[at] ddé[dd]QQ".toList ∧
    "QQ".toList ∈ wordRuns "[at] ddé[dd]QQ".toList := by
  have hsegments : outputSegments ["dd".toList] "[at] ddé[dd]QQ".toList =
      [.escaped "at".toList, .literal " ".toList, .token "dd".toList, .literal "é".toList,
        .escaped "dd".toList, .word "QQ".toList] := by
    rw [outputSegments_eq_insertionSort]
    decide +kernel
  have hword : .word "QQ".toList ∈ outputSegments ["dd".toList] "[at] ddé[dd]QQ".toList :=
    hsegments ▸ by decide
  exact ⟨by decide, hword, (wordRuns_maximal_runs "[at] ddé[dd]QQ".toList).2.2.2 _ _ hword⟩

end Relayout.Layout
