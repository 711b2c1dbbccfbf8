import Mathlib.Data.List.SplitBy
import Mathlib.Data.List.TakeWhile
import Relayout.Proofs.Layout.Borders
import Relayout.Proofs.Layout.Spelling

/-!
# An output layout word by word

Where all names are of letters, each run of letters in an output layout is read by itself: as the
names found in it if these make it up, and else as a word (`readBlock`). What is between the runs is
literal (`IsBlocks.lexWords_eq`). So the reading of a run depends on nothing around it, and an output
layout is read like an input layout exactly where names make up all its runs.
-/

namespace Relayout.Layout

/-- All characters of the text are ASCII letters. -/
def OfLetters (text : Text) : Prop := ∀ c ∈ text, c.isAlpha

instance (text : Text) : Decidable (OfLetters text) :=
  decidable_of_iff (text.all Char.isAlpha) List.all_eq_true

/-- The longest parts of a list in which all elements have one key, in order. -/
def blocksBy [DecidableEq κ] (key : α → κ) (xs : List α) : List (List α) :=
  xs.splitBy fun x y => key x == key y

/-- The longest runs of letters and of other characters in a text. -/
def blocks (text : Text) : List Text := blocksBy Char.isAlpha text

/-- The text is made of these runs: one of letters ends where no letter follows, and one of other
characters where a letter follows or the text ends. -/
inductive IsBlocks : Text → List Text → Prop
  | nil : IsBlocks [] []
  | letters : a ≠ [] → OfLetters a → ¬LetterAt b 0 → IsBlocks b bs → IsBlocks (a ++ b) (a :: bs)
  | others : a ≠ [] → (∀ c ∈ a, ¬c.isAlpha) → b = [] ∨ LetterAt b 0 → IsBlocks b bs →
    IsBlocks (a ++ b) (a :: bs)

/-- The names found in the text, one behind the other, are the text. -/
def Covered (names : List Text) (text : Text) : Prop :=
  (occurrences names text).flatMap Occurrence.text = text

instance (names : List Text) (text : Text) : Decidable (Covered names text) :=
  inferInstanceAs (Decidable (_ = _))

/-- A run by itself: the names found in a run of letters that they make up, or else a word. -/
def readBlock (names : List Text) (block : Text) : List Segment :=
  if OfLetters block then
    if Covered names block then (occurrences names block).map fun o => .token o.text
    else [.word block]
  else [.literal block]

/-- The runs of the ordinary text of a layout, those of letters and the others. -/
def ordinaryBlocks (layout : Text) : List Text :=
  (stretches layout).flatMap fun
    | .plain text => blocks text
    | .bracketed _ => []

/-- The text of a literal. -/
def Segment.literal? : Segment → Option Text
  | literal t => some t
  | escaped _ | token _ | word _ => none

variable {names : List Text} {text rest layout a b : Text} {bs : List Text} {o : Occurrence}
  {c : Char} {pos i : Nat}

/-! ## Names that make up a text -/

theorem le_start_of_mem_occurrencesFrom (ho : o ∈ occurrencesFrom names pos text) :
    pos ≤ o.start := by
  fun_induction occurrencesFrom names pos text with
  | case1 pos => exact absurd ho List.not_mem_nil
  | case2 pos c rest _ ih => exact Nat.le_of_succ_le (ih ho)
  | case3 pos c rest n _ ih =>
    rcases List.mem_cons.1 ho with rfl | ho
    · exact Nat.le_refl _
    · have := ih ho
      omega

theorem take_append_eq_iff : text.take i ++ rest = text ↔ rest = text.drop i :=
  calc text.take i ++ rest = text
    _ ↔ text.take i ++ rest = text.take i ++ text.drop i := by rw [List.take_append_drop]
    _ ↔ rest = text.drop i := List.append_right_inj _

theorem length_take_munch {k : Nat} (h : munch names text = k) : (text.take k).length = k :=
  List.length_take_of_le (h ▸ munch_le_length)

theorem flatMap_text_sublist :
    ((occurrencesFrom names pos text).flatMap Occurrence.text).Sublist text := by
  fun_induction occurrencesFrom names pos text with
  | case1 pos => exact .slnil
  | case2 pos c rest _ ih => exact ih.cons c
  | case3 pos c rest n _ ih =>
    have := ih.append_left ((c :: rest).take (n + 1))
    rwa [← List.drop_succ_cons, List.take_append_drop] at this

/-- A character that no name begins at is left out. -/
theorem flatMap_text_ne_cons :
    (occurrencesFrom names pos rest).flatMap Occurrence.text ≠ c :: rest := by
  intro h
  have hshort : ((occurrencesFrom names pos rest).flatMap Occurrence.text).Sublist rest :=
    flatMap_text_sublist
  rw [h] at hshort
  exact Nat.not_succ_le_self rest.length hshort.length_le

theorem flatMap_text_eq_iff : (occurrencesFrom names pos text).flatMap Occurrence.text = text ↔
    ∀ i, pos ≤ i → i < pos + text.length → ∃ o ∈ occurrencesFrom names pos text, o.Contains i := by
  fun_induction occurrencesFrom names pos text with
  | case1 pos => exact iff_of_true rfl fun i hi hlt => absurd hi (Nat.not_le.2 hlt)
  | case2 pos c rest _ ih =>
    refine iff_of_false flatMap_text_ne_cons fun h => ?_
    obtain ⟨o, ho, hc⟩ := h pos (Nat.le_refl _) (Nat.lt_add_of_pos_right (Nat.zero_lt_succ _))
    exact absurd hc.1 (Nat.not_le.2 (le_start_of_mem_occurrencesFrom ho))
  | case3 pos c rest n hsucc ih =>
    have hle : n + 1 ≤ rest.length + 1 := Nat.le_trans (Nat.le_of_eq hsucc.symm) munch_le_length
    have hlen := length_take_munch hsucc
    rw [List.flatMap_cons, take_append_eq_iff, List.drop_succ_cons, ih, List.length_drop,
      List.length_cons]
    simp only [List.mem_cons, exists_eq_or_imp, Occurrence.Contains, Occurrence.stop, hlen]
    constructor
    · intro h i hi hlt
      rcases Nat.lt_or_ge i (pos + (n + 1)) with hfirst | hlater
      · exact .inl ⟨hi, hfirst⟩
      · exact .inr (h i hlater (by omega))
    · intro h i hi hlt
      exact (h i (by omega) (by omega)).resolve_left fun hc => absurd hc.2 (Nat.not_lt.2 hi)

theorem covered_iff : Covered names text ↔
    ∀ i < text.length, ∃ o ∈ occurrences names text, o.Contains i := by
  rw [Covered, occurrences, flatMap_text_eq_iff]
  simp only [Nat.zero_le, Nat.zero_add, true_implies]

theorem covered_nil : Covered names [] := covered_iff.2 fun i hi => absurd hi (Nat.not_lt_zero i)

/-- Without gaps there is nothing to fill in. -/
theorem fill_tokenPieces (h : (occurrencesFrom names pos text).flatMap Occurrence.text = text) :
    fill pos text (tokenPieces (occurrencesFrom names pos text)) =
      (occurrencesFrom names pos text).map fun o => .token o.text := by
  fun_induction occurrencesFrom names pos text with
  | case1 pos => rfl
  | case2 pos c rest _ ih => exact absurd h flatMap_text_ne_cons
  | case3 pos c rest n hsucc ih =>
    rw [List.flatMap_cons, take_append_eq_iff, List.drop_succ_cons] at h
    rw [List.map_cons, ← ih h, tokenPieces, List.map_cons, fill, Nat.sub_self, List.take_zero, gap,
      List.nil_append, List.drop_zero, Segment.text, length_take_munch hsucc, List.drop_succ_cons]
    rfl

/-! ## One run -/

theorem uncovered_of_covered (h : Covered names text) :
    uncovered (occurrences names text) text = [] := by
  refine List.eq_nil_iff_forall_not_mem.2 fun w hw => ?_
  obtain ⟨hw, hfree⟩ := mem_uncovered.1 hw
  refine hfree ((covers_iff (isMunch_occurrences ..).ordered).2 fun i hi => covered_iff.1 h i ?_)
  exact Nat.lt_of_lt_of_le hi.2 (start_lt_and_stop_le_of_mem_letterRuns hw).2

theorem lexWords_of_covered (h : Covered names text) :
    lexWords names text = (occurrences names text).map fun o => .token o.text :=
  (lexWords_eq_lexTokens (uncovered_of_covered h)).trans (fill_tokenPieces h)

theorem letterRuns_of_ofLetters (hne : text ≠ []) (h : OfLetters text) :
    letterRuns text = [⟨0, text⟩] := by
  refine (IsRuns.eq_letterRuns ⟨List.pairwise_singleton _ _, ?_, ?_, ?_⟩).symm
  · exact List.forall_mem_singleton.2 ⟨Nat.le_refl _, List.prefix_refl _⟩
  · exact List.forall_mem_singleton.2 ⟨hne, h⟩
  · rintro i - ⟨c, hc, -⟩
    have hlt := (List.getElem?_eq_some_iff.1 hc).1
    exact ⟨_, .head _, Nat.zero_le i, by rwa [Occurrence.stop, Nat.zero_add]⟩

theorem letterRuns_of_others (h : ∀ c ∈ text, ¬c.isAlpha) : letterRuns text = [] :=
  (IsRuns.eq_letterRuns ⟨.nil, nofun, nofun, fun _ _ ⟨_, hc, hl⟩ =>
    absurd hl (h _ (List.mem_of_getElem? hc))⟩).symm

/-- A run that names do not make up is one word, and nothing is read in it. -/
theorem lexWords_of_not_covered (h : OfLetters text) (hnot : ¬Covered names text) :
    lexWords names text = [.word text] := by
  have hne : text ≠ [] := fun hnil => hnot (hnil ▸ covered_nil)
  have huncovered : uncovered (occurrences names text) text = [⟨0, text⟩] := by
    rw [uncovered, letterRuns_of_ofLetters hne h]
    refine List.filter_cons_of_pos ?_
    rw [Bool.not_eq_true', ← Bool.not_eq_true, covers_iff (isMunch_occurrences ..).ordered]
    refine fun hall => hnot (covered_iff.2 fun i hi => hall i ⟨Nat.zero_le i, ?_⟩)
    rwa [Occurrence.stop, Nat.zero_add]
  have hkept : (occurrences names text).filter
      (fun o => [(⟨0, text⟩ : Occurrence)].all fun w => ¬o.Overlaps w) = [] := by
    refine List.filter_eq_nil_iff.2 fun o ho => ?_
    have hbounds := start_lt_and_stop_le_of_mem_occurrences ho
    have hstart := Occurrence.start_lt_stop ((isMunch_occurrences names text).named o ho).2
    simp only [List.all_cons, List.all_nil, Bool.and_true, decide_eq_true_eq, not_not,
      Occurrence.Overlaps, Occurrence.stop, Nat.zero_add] at hbounds hstart ⊢
    omega
  rw [lexWords_eq_fill, outputPieces, huncovered, hkept]
  simp [tokenPieces, wordPieces, fill, gap, Segment.text]

theorem lexWords_of_others (hletters : ∀ n ∈ names, OfLetters n) (hne : text ≠ [])
    (h : ∀ c ∈ text, ¬c.isAlpha) : lexWords names text = [.literal text] := by
  have hfound : occurrences names text = [] := by
    refine List.eq_nil_iff_forall_not_mem.2 fun o ho => ?_
    have hmunch := isMunch_occurrences names text
    obtain ⟨hname, hne⟩ := hmunch.named o ho
    have hhead := List.head_mem hne
    exact h _ (List.mem_of_mem_drop ((hmunch.here o ho).2.subset hhead)) (hletters _ hname _ hhead)
  have hwords : uncovered (occurrences names text) text = [] := by
    rw [uncovered, letterRuns_of_others h, List.filter_nil]
  rw [lexWords_eq_lexTokens hwords, lexTokens, hfound]
  cases text with
  | nil => exact absurd rfl hne
  | cons c rest => rfl

/-! ## Run by run -/

theorem letterAt_zero_iff : LetterAt text 0 ↔ ∃ c ∈ text.head?, c.isAlpha := by
  rw [LetterAt, List.head?_eq_getElem?]
  rfl

theorem letterAt_last_iff : LetterAt text (text.length - 1) ↔ ∃ c ∈ text.getLast?, c.isAlpha := by
  rw [LetterAt, List.getLast?_eq_getElem?]
  rfl

theorem readBlock_of_others (hne : a ≠ []) (h : ∀ c ∈ a, ¬c.isAlpha) :
    readBlock names a = [.literal a] :=
  if_neg fun hl => h _ (List.head_mem hne) (hl _ (List.head_mem hne))

theorem lexWords_eq_readBlock (h : OfLetters text) :
    lexWords names text = readBlock names text := by
  rw [readBlock, if_pos h]
  split
  next hcovered => exact lexWords_of_covered hcovered
  next hnot => exact lexWords_of_not_covered h hnot

/-- Where all names are of letters, a text is read run by run. -/
theorem IsBlocks.lexWords_eq (hletters : ∀ n ∈ names, OfLetters n) (h : IsBlocks text bs) :
    lexWords names text = bs.flatMap (readBlock names) := by
  have hnil : lexWords names [] = [] := (readsNames_lexWords names).nil
  induction h with
  | nil => exact hnil
  | @letters a b bs hne ha hb _ ih =>
    have hlast : LetterAt a (a.length - 1) :=
      letterAt_last_iff.2 ⟨_, List.getLast?_eq_some_getLast hne, ha _ (List.getLast_mem hne)⟩
    rw [lexWords_append hletters (iff_of_true hlast hb), ih, lexWords_eq_readBlock ha,
      List.flatMap_cons]
  | @others a b bs hne ha hb hbs ih =>
    rw [List.flatMap_cons, readBlock_of_others hne ha, ← ih]
    rcases hb with rfl | hb
    · rw [hnil, List.append_nil, List.append_nil, lexWords_of_others hletters hne ha]
    · have hlast : ¬LetterAt a (a.length - 1) := fun h =>
        let ⟨_, hc, hl⟩ := letterAt_last_iff.1 h
        ha _ (List.mem_of_getLast? hc) hl
      rw [lexWords_append hletters (iff_of_false hlast (not_not.2 hb)),
        lexWords_of_others hletters hne ha]

/-! ## The runs of a text -/

section

variable {α : Type u} {κ : Type v} [DecidableEq κ] {key : α → κ} {xs ys : List α}

theorem blocksBy_append (hne : xs ≠ []) (hsame : ∀ x ∈ xs, ∀ y ∈ xs, key x = key y)
    (hborder : ∀ x ∈ xs, ∀ y ∈ ys.head?, key x ≠ key y) :
    blocksBy key (xs ++ ys) = xs :: blocksBy key ys := by
  have hchain : xs.IsChain fun x y => (key x == key y) = true :=
    (List.pairwise_of_forall_mem_list fun x hx y hy => beq_iff_eq.2 (hsame x hx y hy)).isChain
  rw [blocksBy, List.splitBy_append, List.splitBy_of_isChain hne hchain, List.singleton_append,
    blocksBy]
  exact fun x hx y hy => beq_eq_false_iff_ne.2 (hborder x (List.mem_of_getLast? hx) y hy)

/-- What a list that is not empty begins with, as far as the key does not change. -/
theorem exists_first_block (key : α → κ) (x : α) (rest : List α) : ∃ ys zs, x :: rest = ys ++ zs ∧
    ys ≠ [] ∧ (∀ y ∈ ys, ∀ z ∈ ys, key y = key z) ∧ (∀ y ∈ ys, ∀ z ∈ zs.head?, key y ≠ key z) ∧
      zs.length ≤ rest.length := by
  have hkey : ∀ y ∈ x :: rest.takeWhile (key · == key x), key y = key x :=
    List.forall_mem_cons.2 ⟨rfl, fun y hy => by simpa using List.mem_takeWhile_imp hy⟩
  refine ⟨x :: rest.takeWhile (key · == key x), rest.dropWhile (key · == key x), ?_,
    List.cons_ne_nil _ _, ?_, ?_, List.length_dropWhile_le ..⟩
  · rw [List.cons_append, List.takeWhile_append_dropWhile]
  · exact fun y hy z hz => (hkey y hy).trans (hkey z hz).symm
  · intro y hy z hz heq
    rw [← List.find?_not_eq_head?_dropWhile] at hz
    have hne := List.find?_some hz
    rw [← heq, hkey y hy, beq_self_eq_true] at hne
    exact nomatch hne

/-- Whatever holds of no blocks, and of a block put in front of the blocks of the rest, holds of the
blocks of every list. -/
theorem blocksBy_induction (key : α → κ) {motive : List α → List (List α) → Prop}
    (nil : motive [] [])
    (append : ∀ xs ys, xs ≠ [] → (∀ x ∈ xs, ∀ y ∈ xs, key x = key y) →
      (∀ x ∈ xs, ∀ y ∈ ys.head?, key x ≠ key y) → motive ys (blocksBy key ys) →
      motive (xs ++ ys) (xs :: blocksBy key ys))
    (zs : List α) : motive zs (blocksBy key zs) := by
  match zs with
  | [] => exact nil
  | x :: rest =>
    obtain ⟨xs, ys, hcut, hne, hsame, hborder, hle⟩ := exists_first_block key x rest
    rw [hcut, blocksBy_append hne hsame hborder]
    exact append xs ys hne hsame hborder (blocksBy_induction key nil append ys)
termination_by zs.length
decreasing_by exact Nat.lt_succ_of_le hle

end

theorem IsBlocks.eq_blocks (h : IsBlocks text bs) : bs = blocks text := by
  induction h with
  | nil => rfl
  | @letters a b bs hne ha hb _ ih =>
    rw [ih]
    refine (blocksBy_append hne (fun c hc d hd => (ha c hc).trans (ha d hd).symm) ?_).symm
    exact fun c hc d hd heq => hb (letterAt_zero_iff.2 ⟨d, hd, heq ▸ ha c hc⟩)
  | @others a b bs hne ha hb _ ih =>
    rw [ih]
    refine (blocksBy_append hne (fun c hc d hd => ?_) fun c hc d hd heq => ?_).symm
    · rw [Bool.eq_false_of_not_eq_true (ha c hc), Bool.eq_false_of_not_eq_true (ha d hd)]
    · rcases hb with rfl | hb
      · exact nomatch hd
      · obtain ⟨d', hd', hl⟩ := letterAt_zero_iff.1 hb
        cases Option.some.inj (hd.symm.trans hd')
        exact ha c hc (heq.trans hl)

theorem isBlocks_blocks (text : Text) : IsBlocks text (blocks text) := by
  refine blocksBy_induction Char.isAlpha .nil (fun a b hne hsame hborder ih => ?_) text
  have hhead := List.head_mem hne
  by_cases hl : (a.head hne).isAlpha
  · have ha : OfLetters a := fun c hc => (hsame c hc _ hhead).trans hl
    refine .letters hne ha (fun hb => ?_) ih
    obtain ⟨d, hd, hd'⟩ := letterAt_zero_iff.1 hb
    exact hborder _ hhead d hd (hl.trans hd'.symm)
  · have ha : ∀ c ∈ a, ¬c.isAlpha := fun c hc h => hl ((hsame c hc _ hhead).symm.trans h)
    refine .others hne ha ?_ ih
    cases b with
    | nil => exact .inl rfl
    | cons d b =>
      refine .inr (letterAt_zero_iff.2 ⟨d, rfl, Classical.byContradiction fun hd => ?_⟩)
      refine hborder _ hhead d rfl ?_
      rw [Bool.eq_false_of_not_eq_true hl, Bool.eq_false_of_not_eq_true hd]

theorem isBlocks_iff : IsBlocks text bs ↔ bs = blocks text :=
  ⟨IsBlocks.eq_blocks, fun h => h ▸ isBlocks_blocks text⟩

/-! ## Layouts -/

theorem mem_ordinaryBlocks :
    a ∈ ordinaryBlocks layout ↔ ∃ text, .plain text ∈ stretches layout ∧ a ∈ blocks text := by
  rw [ordinaryBlocks, List.mem_flatMap]
  constructor
  · rintro ⟨stretch, hstretch, ha⟩
    match stretch, ha with
    | .plain text, ha => exact ⟨text, hstretch, ha⟩
  · rintro ⟨text, htext, ha⟩
    exact ⟨_, htext, ha⟩

/-- Where all names are of letters, an output layout is read run by run. -/
theorem outputSegments_eq_flatMap_readBlock (hletters : ∀ n ∈ names, OfLetters n) :
    outputSegments names layout =
      (stretches layout).flatMap (·.read fun text => (blocks text).flatMap (readBlock names)) := by
  rw [outputSegments, ← segmentsBy_eq_flatMap]
  exact segmentsBy_congr fun text _ => (isBlocks_blocks text).lexWords_eq hletters

theorem word_mem_readBlock :
    .word text ∈ readBlock names a ↔ text = a ∧ OfLetters a ∧ ¬Covered names a := by
  unfold readBlock
  split
  next ha =>
    split
    next hcovered => simp [hcovered]
    next hnot => simp [ha, hnot]
  next ha => simp [ha]

/-- The words of an output layout are the letter runs that names do not make up. -/
theorem word_mem_outputSegments_iff (hletters : ∀ n ∈ names, OfLetters n) :
    .word text ∈ outputSegments names layout ↔
      text ∈ ordinaryBlocks layout ∧ OfLetters text ∧ ¬Covered names text := by
  rw [mem_ordinaryBlocks, outputSegments, mem_segmentsBy]
  constructor
  · rintro (⟨t, ht, hword⟩ | ⟨_, _, _, h⟩)
    · rw [(isBlocks_blocks t).lexWords_eq hletters, List.mem_flatMap] at hword
      obtain ⟨block, hblock, hword⟩ := hword
      obtain ⟨rfl, hread⟩ := word_mem_readBlock.1 hword
      exact ⟨⟨t, ht, hblock⟩, hread⟩
    · cases h
  · rintro ⟨⟨t, ht, hblock⟩, hread⟩
    refine .inl ⟨t, ht, ?_⟩
    rw [(isBlocks_blocks t).lexWords_eq hletters]
    exact List.mem_flatMap.2 ⟨text, hblock, word_mem_readBlock.2 ⟨rfl, hread⟩⟩

theorem filterMap_literal?_readBlock : (readBlock names a).filterMap Segment.literal? =
    [a].filter fun block => ¬OfLetters block := by
  unfold readBlock
  split
  next ha =>
    rw [List.filter_cons_of_neg (by simpa using ha), List.filter_nil, List.filterMap_eq_nil_iff]
    split
    next => exact List.forall_mem_map.2 fun _ _ => rfl
    next => exact List.forall_mem_singleton.2 rfl
  next ha => rw [List.filter_cons_of_pos (by simpa using ha)]; rfl

theorem filterMap_literal?_outputSegments (hletters : ∀ n ∈ names, OfLetters n) :
    (outputSegments names layout).filterMap Segment.literal? =
      (ordinaryBlocks layout).filter fun block => ¬OfLetters block := by
  rw [outputSegments_eq_flatMap_readBlock hletters, ordinaryBlocks, List.filterMap_flatMap,
    List.filter_flatMap]
  refine List.flatMap_congr fun stretch _ => ?_
  cases stretch with
  | plain text =>
    rw [Stretch.read, List.filterMap_flatMap]
    simp only [filterMap_literal?_readBlock]
    rw [← List.filter_flatMap, List.flatMap_singleton']
  | bracketed text => exact filterMap_enclosed fun _ => rfl

/-- Where names are of letters, an output layout is read stretch by stretch and run by run: each run
of letters as the names found in it alone if they make it up, or else as a word. The other runs are
the literals, and what input and output layouts have in common are those without words. -/
theorem outputSegments_run_by_run (hletters : ∀ n ∈ names, OfLetters n) (layout : Text) :
    (∀ text bs, IsBlocks text bs ↔ bs = blocks text) ∧
    outputSegments names layout =
      (stretches layout).flatMap (·.read fun text => (blocks text).flatMap (readBlock names)) ∧
    (outputSegments names layout).filterMap Segment.literal? =
      (ordinaryBlocks layout).filter (fun block => ¬OfLetters block) ∧
    (outputSegments names layout = segments names layout ↔
      ∀ block ∈ ordinaryBlocks layout, OfLetters block → Covered names block) := by
  refine ⟨fun _ _ => isBlocks_iff, outputSegments_eq_flatMap_readBlock hletters,
    filterMap_literal?_outputSegments hletters, ⟨fun h block hblock hl => ?_, fun h => ?_⟩⟩
  · refine Classical.byContradiction fun hnot => ?_
    have hword := (word_mem_outputSegments_iff hletters).2 ⟨hblock, hl, hnot⟩
    exact word_notMem_segments (h ▸ hword)
  · refine (lettersCovered_of_word_notMem fun t ht => ?_).outputSegments_eq
    obtain ⟨hblock, hl, hnot⟩ := (word_mem_outputSegments_iff hletters).1 ht
    exact hnot (h t hblock hl)

/-- A run that begins with a name, one that names make up, and one whose rest is no name. -/
theorem outputSegments_run_by_run_mixed :
    outputSegments ["d".toList, "dd".toList, "MM".toList] "day ddMM-[dd]M".toList =
      [.word "day".toList, .literal " ".toList, .token "dd".toList, .token "MM".toList,
        .literal "-".toList, .escaped "dd".toList, .word "M".toList] := by
  have hletters : ∀ n ∈ ["d".toList, "dd".toList, "MM".toList], OfLetters n := by
    simp [OfLetters]
  rw [(outputSegments_run_by_run hletters "day ddMM-[dd]M".toList).2.1]
  decide +kernel

end Relayout.Layout
