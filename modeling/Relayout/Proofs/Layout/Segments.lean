import Mathlib.Data.List.Sort
import Relayout.Layout.Segment
import Relayout.Proofs.Layout.Runs

/-!
# The segments of a layout

What the tokens and the words of a layout are, in terms of the scan for names and of the letter
runs. Where tokens cover every letter run, an output layout is read like an input layout
(`LettersCovered.outputSegments_eq`). Names of letters only are never words, so an output layout
without unknown names is one without words (`notMem_of_word_mem_outputSegments`).

The tokens and words are merged by recursion over both lists. A sort by insertion puts them in the
same order (`lexWords_eq_insertionSort`); with it the reading of a given layout can be evaluated.
-/

namespace Relayout.Layout

variable {names names' : List Text} {text layout : Text} {o w : Occurrence} {p : Piece}
  {ps : List Piece} {s : Segment} {pos : Nat}

/-! ## The text between the pieces -/

theorem eq_literal_of_mem_gap (h : s ∈ gap text) : s = .literal text := by
  cases text with
  | nil => exact nomatch h
  | cons c cs => exact List.mem_singleton.1 h

theorem map_gap {f : Segment → Segment} (h : ∀ t, f (.literal t) = .literal t) :
    (gap text).map f = gap text := by
  cases text with
  | nil => rfl
  | cons c cs => exact congrArg (fun s => [s]) (h _)

theorem exists_of_mem_fill (h : s ∈ fill pos text ps) :
    (∃ t, s = .literal t) ∨ ∃ p ∈ ps, s = p.segment := by
  induction ps generalizing pos text with
  | nil => exact .inl ⟨_, eq_literal_of_mem_gap h⟩
  | cons q qs ih =>
    rcases List.mem_append.1 h with h | h
    · exact .inl ⟨_, eq_literal_of_mem_gap h⟩
    rcases List.mem_cons.1 h with rfl | h
    · exact .inr ⟨q, .head _, rfl⟩
    rcases ih h with h | ⟨p, hp, heq⟩
    · exact .inl h
    · exact .inr ⟨p, .tail _ hp, heq⟩

theorem segment_mem_fill (h : p ∈ ps) : p.segment ∈ fill pos text ps := by
  induction ps generalizing pos text with
  | nil => exact nomatch h
  | cons q qs ih =>
    apply List.mem_append_right
    rcases List.mem_cons.1 h with rfl | h
    · exact .head _
    · exact .tail _ (ih h)

/-- A change of segments that keeps their texts commutes with filling the gaps. -/
theorem fill_map {f : Segment → Segment} (hliteral : ∀ t, f (.literal t) = .literal t)
    (htext : ∀ s, (f s).text = s.text) :
    fill pos text (ps.map fun p => ⟨p.start, f p.segment⟩) = (fill pos text ps).map f := by
  induction ps generalizing pos text with
  | nil => exact (map_gap hliteral).symm
  | cons q qs ih =>
    simp only [List.map_cons, fill, List.map_append, map_gap hliteral, htext, ih]

/-! ## Pieces in order -/

/-- The occurrence stands before the other. -/
def Occurrence.Before (o p : Occurrence) : Prop := o.start < p.start

instance : Std.Irrefl Occurrence.Before := ⟨fun _ => Nat.lt_irrefl _⟩

instance : Std.Antisymm Occurrence.Before := ⟨fun _ _ h h' => absurd h (Nat.lt_asymm h')⟩

/-- The piece stands before the other. -/
def Piece.Before (p q : Piece) : Prop := p.start < q.start

instance : Std.Irrefl Piece.Before := ⟨fun _ => Nat.lt_irrefl _⟩

instance : Std.Antisymm Piece.Before := ⟨fun _ _ h h' => absurd h (Nat.lt_asymm h')⟩

/-- A merge by a key keeps a symmetric relation that holds within the lists and between them. -/
theorem pairwise_merge_and {α : Type u} (key : α → Nat) {R : α → α → Prop} {xs ys : List α}
    (hsymm : ∀ {a b}, R a b → R b a) (hxs : xs.Pairwise fun a b => key a ≤ key b ∧ R a b)
    (hys : ys.Pairwise fun a b => key a ≤ key b ∧ R a b) (hcross : ∀ a ∈ xs, ∀ b ∈ ys, R a b) :
    (xs.merge ys fun a b => key a ≤ key b).Pairwise fun a b => key a ≤ key b ∧ R a b := by
  apply List.Pairwise.and
  · refine (List.pairwise_merge (fun a b c hab hbc => ?_) (fun a b => ?_) xs ys ?_ ?_).imp
      of_decide_eq_true
    · simp only [decide_eq_true_eq] at *
      omega
    · simp only [Bool.or_eq_true, decide_eq_true_eq]
      omega
    · exact hxs.imp fun h => decide_eq_true h.1
    · exact hys.imp fun h => decide_eq_true h.1
  · apply (List.Perm.pairwise_iff hsymm (List.merge_perm_append _)).2
    exact List.pairwise_append.2 ⟨hxs.imp And.right, hys.imp And.right, hcross⟩

/-! ## The pieces of an output layout -/

theorem mem_uncovered {found : List Occurrence} :
    w ∈ uncovered found text ↔ w ∈ letterRuns text ∧ ¬covers found w = true := by
  simp only [uncovered, List.mem_filter, Bool.not_eq_true', Bool.not_eq_true]

/-- The tokens and words of a text, in order. -/
def outputPieces (names : List Text) (text : Text) : List Piece :=
  let found := occurrences names text
  let words := uncovered found text
  let kept := found.filter fun o => words.all fun w => ¬o.Overlaps w
  (tokenPieces kept).merge (wordPieces words) fun p q => p.start ≤ q.start

theorem lexWords_eq_fill : lexWords names text = fill 0 text (outputPieces names text) := rfl

theorem mem_outputPieces : p ∈ outputPieces names text ↔
    (∃ o ∈ occurrences names text, (∀ w ∈ uncovered (occurrences names text) text, ¬o.Overlaps w) ∧
      p = ⟨o.start, .token o.text⟩) ∨
    ∃ w ∈ uncovered (occurrences names text) text, p = ⟨w.start, .word w.text⟩ := by
  simp only [outputPieces, List.mem_merge, tokenPieces, wordPieces, List.mem_map, List.mem_filter,
    List.all_eq_true, decide_eq_true_eq, and_assoc, eq_comm (a := p)]

theorem pairwise_outputPieces : (outputPieces names text).Pairwise Piece.Before := by
  have hfound := isMunch_occurrences names text
  have hruns := isRuns_letterRuns text
  refine (pairwise_merge_and Piece.start Ne.symm ?_ ?_ ?_).imp
    fun h => Nat.lt_of_le_of_ne h.1 h.2
  · refine List.pairwise_map.2 ((hfound.ordered.imp_of_mem fun ho _ h => ?_).filter _)
    have := Nat.lt_of_lt_of_le (Occurrence.start_lt_stop (hfound.named _ ho).2) h
    exact ⟨Nat.le_of_lt this, Nat.ne_of_lt this⟩
  · refine List.pairwise_map.2 ((hruns.apart.imp fun h => ?_).filter _)
    have := Nat.lt_of_le_of_lt (Nat.le_add_right ..) h
    exact ⟨Nat.le_of_lt this, Nat.ne_of_lt this⟩
  · intro p hp q hq heq
    obtain ⟨o, ho, rfl⟩ := List.mem_map.1 hp
    obtain ⟨w, hw, rfl⟩ := List.mem_map.1 hq
    obtain ⟨ho, hfree⟩ := List.mem_filter.1 ho
    have hstart : o.start = w.start := heq
    have hov : o.Overlaps w := by
      apply Occurrence.Contains.overlaps (Occurrence.contains_start (hfound.named o ho).2)
      exact hstart ▸ Occurrence.contains_start (hruns.letters w (mem_uncovered.1 hw).1).1
    exact absurd hov (of_decide_eq_true (List.all_eq_true.1 hfree w hw))

/-- The piece does not stand behind the other. -/
def Piece.UpTo (p q : Piece) : Prop := p.start ≤ q.start

instance : DecidableRel Piece.UpTo := fun p q => inferInstanceAs (Decidable (p.start ≤ q.start))

instance : Std.Total Piece.UpTo := ⟨fun p q => Nat.le_total p.start q.start⟩

instance : IsTrans Piece Piece.UpTo := ⟨fun _ _ _ => Nat.le_trans⟩

/-- The tokens and words of a text, as they are found. -/
def foundPieces (names : List Text) (text : Text) : List Piece :=
  let found := occurrences names text
  let words := uncovered found text
  tokenPieces (found.filter fun o => words.all fun w => ¬o.Overlaps w) ++ wordPieces words

theorem perm_foundPieces (names : List Text) (text : Text) :
    (foundPieces names text).Perm (outputPieces names text) :=
  (List.merge_perm_append _).symm

/-- Sorting by insertion puts the pieces in order too. -/
theorem lexWords_eq_insertionSort : lexWords = fun names text =>
    fill 0 text ((foundPieces names text).insertionSort Piece.UpTo) := by
  funext names text
  have hperm := (List.perm_insertionSort Piece.UpTo _).trans (perm_foundPieces names text)
  have hapart : (outputPieces names text).Pairwise fun p q => p.start ≠ q.start :=
    pairwise_outputPieces.imp Nat.ne_of_lt
  have hsorted : ((foundPieces names text).insertionSort Piece.UpTo).Pairwise Piece.Before :=
    ((List.pairwise_insertionSort ..).and ((hperm.pairwise_iff Ne.symm).2 hapart)).imp
      fun h => Nat.lt_of_le_of_ne h.1 h.2
  rw [lexWords_eq_fill,
    List.Pairwise.eq_of_mem_iff pairwise_outputPieces hsorted fun _ => hperm.mem_iff.symm]

theorem outputSegments_eq_insertionSort : outputSegments = fun names => segmentsBy fun text =>
    fill 0 text ((foundPieces names text).insertionSort Piece.UpTo) := by
  funext names layout
  rw [outputSegments, lexWords_eq_insertionSort]

/-! ## Tokens and words -/

theorem exists_of_word_mem_lexWords {t : Text} (h : .word t ∈ lexWords names text) :
    ∃ w ∈ uncovered (occurrences names text) text, w.text = t := by
  rcases exists_of_mem_fill (lexWords_eq_fill ▸ h) with ⟨t, ht⟩ | ⟨p, hp, heq⟩
  · exact nomatch ht
  · rcases mem_outputPieces.1 hp with ⟨o, _, _, rfl⟩ | ⟨w, hw, rfl⟩
    · exact nomatch heq
    · exact ⟨w, hw, (Segment.word.inj heq).symm⟩

theorem word_mem_lexWords (h : w ∈ uncovered (occurrences names text) text) :
    .word w.text ∈ lexWords names text :=
  segment_mem_fill (mem_outputPieces.2 (.inr ⟨w, h, rfl⟩))

theorem token_mem_lexTokens {t : Text} (h : .token t ∈ lexTokens names text) :
    t ∈ names ∧ t ≠ [] := by
  rcases exists_of_mem_fill h with ⟨t, ht⟩ | ⟨p, hp, heq⟩
  · exact nomatch ht
  · obtain ⟨o, ho, rfl⟩ := List.mem_map.1 hp
    exact Segment.token.inj heq ▸ (isMunch_occurrences ..).named o ho

/-- Where no letter run is left over, words make no difference. -/
theorem lexWords_eq_lexTokens (h : uncovered (occurrences names text) text = []) :
    lexWords names text = lexTokens names text := by
  simp [lexWords, lexTokens, h, wordPieces]

/-- No token reaches over an end of a word. -/
def NoOverhang (names : List Text) (text : Text) : Prop :=
  ∀ o ∈ occurrences names text, ∀ w ∈ uncovered (occurrences names text) text, o.Overlaps w →
    w.start ≤ o.start ∧ o.stop ≤ w.stop

theorem noOverhang_of_letters (h : ∀ n ∈ names, ∀ c ∈ n, c.isAlpha) : NoOverhang names text := by
  have hfound := isMunch_occurrences names text
  intro o ho w hw
  obtain ⟨hname, hne⟩ := hfound.named o ho
  exact (isRuns_letterRuns text).within (mem_uncovered.1 hw).1 (hfound.here o ho).2 (h _ hname) hne

/-- A word is no name where tokens do not reach into it: the token that begins with it would cover
it. -/
theorem notMem_of_mem_uncovered (h : NoOverhang names text)
    (hw : w ∈ uncovered (occurrences names text) text) : w.text ∉ names := by
  have hfound := isMunch_occurrences names text
  have hruns := isRuns_letterRuns text
  obtain ⟨hrun, hfree⟩ := mem_uncovered.1 hw
  intro hname
  have hhere := (hruns.here w hrun).2
  have hne := (hruns.letters w hrun).1
  obtain ⟨o, ho, hcontains⟩ := hfound.exists_contains hname hne (Nat.zero_le _) hhere
  obtain ⟨hstart, -⟩ := h o ho w hw (hcontains.overlaps (Occurrence.contains_start hne))
  have hstart : o.start = w.start := Nat.le_antisymm hcontains.1 hstart
  have hlen := hfound.longest o ho _ hname (hstart ▸ hhere)
  refine hfree ((covers_iff hfound.ordered).2 fun i hi => ⟨o, ho, ?_⟩)
  unfold Occurrence.Contains Occurrence.stop at *
  omega

/-! ## Layouts -/

theorem mem_segmentsBy {lex : Text → List Segment} : s ∈ segmentsBy lex layout ↔
    (∃ t, .plain t ∈ stretches layout ∧ s ∈ lex t) ∨
    ∃ t, .bracketed t ∈ stretches layout ∧ t ≠ [] ∧ s = .escaped t := by
  simp only [segmentsBy, List.mem_flatMap]
  constructor
  · rintro ⟨stretch, hstretch, hs⟩
    match stretch, hs with
    | .plain t, hs => exact .inl ⟨t, hstretch, hs⟩
    | .bracketed (c :: t), hs =>
      exact .inr ⟨c :: t, hstretch, List.cons_ne_nil _ _, List.mem_singleton.1 hs⟩
  · rintro (⟨t, hstretch, hs⟩ | ⟨t, hstretch, hne, rfl⟩)
    · exact ⟨_, hstretch, hs⟩
    · refine ⟨_, hstretch, ?_⟩
      cases t with
      | nil => exact absurd rfl hne
      | cons c t => exact .head _

theorem segmentsBy_congr {lex lex' : Text → List Segment}
    (h : ∀ t, .plain t ∈ stretches layout → lex t = lex' t) :
    segmentsBy lex layout = segmentsBy lex' layout := by
  simp only [segmentsBy, List.flatMap_def]
  refine congrArg List.flatten (List.map_congr_left fun stretch hstretch => ?_)
  cases stretch with
  | plain t => exact h t hstretch
  | bracketed text =>
    cases text with
    | nil => rfl
    | cons _ _ => rfl

theorem lexTokens_congr (h : ∀ n, n ∈ names ↔ n ∈ names') :
    lexTokens names text = lexTokens names' text := by
  simp only [lexTokens, occurrences_congr h]

theorem lexWords_congr (h : ∀ n ≠ [], n ∈ names ↔ n ∈ names') :
    lexWords names text = lexWords names' text := by
  simp only [lexWords, occurrences_congr_of_ne_nil h]

theorem segments_congr (h : ∀ n, n ∈ names ↔ n ∈ names') :
    segments names layout = segments names' layout :=
  segmentsBy_congr fun _ _ => lexTokens_congr h

theorem outputSegments_congr_of_ne_nil (h : ∀ n ≠ [], n ∈ names ↔ n ∈ names') :
    outputSegments names layout = outputSegments names' layout :=
  segmentsBy_congr fun _ _ => lexWords_congr h

theorem outputSegments_congr (h : ∀ n, n ∈ names ↔ n ∈ names') :
    outputSegments names layout = outputSegments names' layout :=
  outputSegments_congr_of_ne_nil fun n _ => h n

theorem token_mem_segments {t : Text} (h : .token t ∈ segments names layout) :
    t ∈ names ∧ t ≠ [] := by
  rcases mem_segmentsBy.1 h with ⟨_, _, h⟩ | ⟨_, _, _, h⟩
  · exact token_mem_lexTokens h
  · exact nomatch h

theorem word_notMem_segments {t : Text} : .word t ∉ segments names layout := by
  intro h
  rcases mem_segmentsBy.1 h with ⟨_, _, h⟩ | ⟨_, _, _, h⟩
  · rcases exists_of_mem_fill h with ⟨_, h⟩ | ⟨p, hp, heq⟩
    · exact nomatch h
    · obtain ⟨o, _, rfl⟩ := List.mem_map.1 hp
      exact nomatch heq
  · exact nomatch h

/-- A word is no name where all names are of letters. -/
theorem notMem_of_word_mem_outputSegments {t : Text} (hletters : ∀ n ∈ names, ∀ c ∈ n, c.isAlpha)
    (h : .word t ∈ outputSegments names layout) : t ∉ names := by
  rcases mem_segmentsBy.1 h with ⟨_, _, h⟩ | ⟨_, _, _, h⟩
  · obtain ⟨w, hw, rfl⟩ := exists_of_word_mem_lexWords h
    exact notMem_of_mem_uncovered (noOverhang_of_letters hletters) hw
  · exact nomatch h

/-- The tokens found in the ordinary text of a layout leave no letter of it out. -/
def LettersCovered (names : List Text) (layout : Text) : Prop :=
  ∀ text, .plain text ∈ stretches layout → ∀ r ∈ letterRuns text, ∀ i, r.Contains i →
    ∃ o ∈ occurrences names text, o.Contains i

theorem LettersCovered.uncovered_eq_nil (h : LettersCovered names layout)
    (htext : .plain text ∈ stretches layout) : uncovered (occurrences names text) text = [] := by
  apply List.eq_nil_iff_forall_not_mem.2
  intro w hw
  obtain ⟨hw, hfree⟩ := mem_uncovered.1 hw
  exact hfree ((covers_iff (isMunch_occurrences ..).ordered).2 (h text htext w hw))

theorem lettersCovered_of_word_notMem (h : ∀ t, .word t ∉ outputSegments names layout) :
    LettersCovered names layout := by
  intro text htext r hr
  refine (covers_iff (isMunch_occurrences ..).ordered).1 (Classical.byContradiction fun hfree => ?_)
  exact h r.text (mem_segmentsBy.2
    (.inl ⟨text, htext, word_mem_lexWords (mem_uncovered.2 ⟨hr, hfree⟩)⟩))

/-- Where tokens cover every letter run, an output layout is read like an input layout. -/
theorem LettersCovered.outputSegments_eq (h : LettersCovered names layout) :
    outputSegments names layout = segments names layout :=
  segmentsBy_congr fun _ ht => lexWords_eq_lexTokens (h.uncovered_eq_nil ht)

end Relayout.Layout
