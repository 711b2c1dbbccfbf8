import Relayout.Layout.Occurrence

/-!
# The scan for names

What `occurrences` finds is fixed by conditions on single positions (`IsMunch`): the pieces stand in
order, each is the longest name at its place, and no name begins where none of them stands. Two
lists that meet the conditions are equal (`IsMunch.eq_occurrences`), so the scan depends on the set
of names only (`occurrences_congr`).
-/

namespace Relayout.Layout

variable {names names' : List Text} {text rest : Text} {o p : Occurrence} {pos i : Nat}

/-! ## The longest name -/

theorem munch_cons (n : Text) : munch (n :: names) text =
    if n.isPrefixOf text then max n.length (munch names text) else munch names text := by
  unfold munch
  rw [List.filter_cons]
  split <;> rfl

theorem length_le_munch {n : Text} (hn : n ∈ names) (h : n <+: text) :
    n.length ≤ munch names text := by
  induction names with
  | nil => exact nomatch hn
  | cons m ms ih =>
    rw [munch_cons]
    rcases List.mem_cons.1 hn with rfl | hn
    · rw [if_pos (List.isPrefixOf_iff_prefix.2 h)]
      exact Nat.le_max_left ..
    · have := ih hn
      split <;> omega

/-- A length other than zero is the length of a name that begins the text. -/
theorem exists_of_munch_pos (h : 0 < munch names text) :
    ∃ n ∈ names, n <+: text ∧ n.length = munch names text := by
  induction names with
  | nil => exact absurd h (Nat.lt_irrefl 0)
  | cons m ms ih =>
    rw [munch_cons] at h ⊢
    split at h
    next hm =>
      rw [if_pos hm]
      rcases Nat.le_total m.length (munch ms text) with hle | hle
      · rw [Nat.max_eq_right hle] at h ⊢
        obtain ⟨n, hn, hp⟩ := ih h
        exact ⟨n, .tail _ hn, hp⟩
      · exact ⟨m, .head _, List.isPrefixOf_iff_prefix.1 hm, (Nat.max_eq_left hle).symm⟩
    next hm =>
      rw [if_neg hm]
      obtain ⟨n, hn, hp⟩ := ih h
      exact ⟨n, .tail _ hn, hp⟩

theorem take_munch_mem (h : 0 < munch names text) : text.take (munch names text) ∈ names := by
  obtain ⟨n, hn, hp, hlen⟩ := exists_of_munch_pos h
  rwa [← hlen, ← List.prefix_iff_eq_take.1 hp]

theorem munch_le_length : munch names text ≤ text.length := by
  rcases Nat.eq_zero_or_pos (munch names text) with h | h
  · omega
  · obtain ⟨n, _, hp, hlen⟩ := exists_of_munch_pos h
    exact hlen ▸ hp.length_le

/-! ## Positions -/

/-- The piece takes up position `i`. -/
def Occurrence.Contains (o : Occurrence) (i : Nat) : Prop := o.start ≤ i ∧ i < o.stop

instance (o : Occurrence) (i : Nat) : Decidable (o.Contains i) :=
  inferInstanceAs (Decidable (_ ∧ _))

theorem Occurrence.start_lt_stop (h : o.text ≠ []) : o.start < o.stop :=
  Nat.lt_add_of_pos_right (List.length_pos_iff.2 h)

theorem Occurrence.contains_start (h : o.text ≠ []) : o.Contains o.start :=
  ⟨Nat.le_refl _, start_lt_stop h⟩

/-- A piece that stands in a text ends in it. -/
theorem Occurrence.stop_le_length (h : o.text <+: text.drop o.start) (hne : o.text ≠ []) :
    o.stop ≤ text.length := by
  have hle := h.length_le
  have hpos := List.length_pos_iff.2 hne
  rw [List.length_drop] at hle
  unfold stop
  omega

theorem Occurrence.Contains.overlaps (ho : o.Contains i) (hp : p.Contains i) : o.Overlaps p :=
  ⟨Nat.lt_of_le_of_lt ho.1 hp.2, Nat.lt_of_le_of_lt hp.1 ho.2⟩

theorem Occurrence.Overlaps.symm (h : o.Overlaps p) : p.Overlaps o := ⟨h.2, h.1⟩

theorem Occurrence.Overlaps.exists_contains (h : o.Overlaps p) (ho : o.text ≠ [])
    (hp : p.text ≠ []) : ∃ i, o.Contains i ∧ p.Contains i := by
  have := start_lt_stop ho
  have := start_lt_stop hp
  unfold Overlaps at h
  exact ⟨max o.start p.start, ⟨by omega, by omega⟩, by omega, by omega⟩

/-- Different elements of a list stand in its order one way or the other. -/
theorem eq_or_rel_of_pairwise {α : Type u} {R : α → α → Prop} {l : List α} {a b : α}
    (h : l.Pairwise R) (ha : a ∈ l) (hb : b ∈ l) : a = b ∨ R a b ∨ R b a := by
  induction l with
  | nil => exact nomatch ha
  | cons c cs ih =>
    obtain ⟨hc, hcs⟩ := List.pairwise_cons.1 h
    rcases List.mem_cons.1 ha with ha | ha <;> rcases List.mem_cons.1 hb with hb | hb
    · exact .inl (ha.trans hb.symm)
    · exact .inr (.inl (ha ▸ hc b hb))
    · exact .inr (.inr (hb ▸ hc a ha))
    · exact ih hcs ha hb

/-! ## The scan -/

/-- The conditions on what a scan of `text` from position `pos` on finds. -/
structure IsMunch (names : List Text) (text : Text) (pos : Nat) (found : List Occurrence) :
    Prop where
  ordered : found.Pairwise fun o p => o.stop ≤ p.start
  here : ∀ o ∈ found, pos ≤ o.start ∧ o.text <+: text.drop o.start
  named : ∀ o ∈ found, o.text ∈ names ∧ o.text ≠ []
  longest : ∀ o ∈ found, ∀ n ∈ names, n <+: text.drop o.start → n.length ≤ o.text.length
  gaps : ∀ i, pos ≤ i → (∀ o ∈ found, ¬o.Contains i) → ∀ n ∈ names, n <+: text.drop i → n = []

namespace IsMunch

variable {found : List Occurrence}

theorem nil (h : text.length ≤ pos) : IsMunch names text pos [] where
  ordered := .nil
  here := nofun
  named := nofun
  longest := nofun
  gaps i hi _ n _ hn := by
    rw [List.drop_of_length_le (by omega)] at hn
    exact List.prefix_nil.1 hn

/-- A position at which no name begins is passed over. -/
theorem skip (h : munch names (text.drop pos) = 0) (hrest : IsMunch names text (pos + 1) found) :
    IsMunch names text pos found where
  ordered := hrest.ordered
  here o ho := ⟨Nat.le_of_succ_le (hrest.here o ho).1, (hrest.here o ho).2⟩
  named := hrest.named
  longest := hrest.longest
  gaps i hi hfree n hn hp := by
    rcases Nat.eq_or_lt_of_le hi with rfl | hi
    · have := length_le_munch hn hp
      exact List.length_eq_zero_iff.1 (by omega)
    · exact hrest.gaps i hi hfree n hn hp

/-- The longest name at a position is taken, and the scan goes on behind it. -/
theorem take (h : 0 < munch names (text.drop pos))
    (hrest : IsMunch names text (pos + munch names (text.drop pos)) found) :
    IsMunch names text pos
      (⟨pos, (text.drop pos).take (munch names (text.drop pos))⟩ :: found) := by
  have hlen : ((text.drop pos).take (munch names (text.drop pos))).length =
      munch names (text.drop pos) := List.length_take_of_le munch_le_length
  refine ⟨List.pairwise_cons.2 ⟨fun p hp => ?_, hrest.ordered⟩, ?_, ?_, ?_, ?_⟩
  · rw [Occurrence.stop, hlen]
    exact (hrest.here p hp).1
  · intro o ho
    rcases List.mem_cons.1 ho with rfl | ho
    · exact ⟨Nat.le_refl _, List.take_prefix ..⟩
    · exact ⟨Nat.le_trans (Nat.le_add_right ..) (hrest.here o ho).1, (hrest.here o ho).2⟩
  · intro o ho
    rcases List.mem_cons.1 ho with rfl | ho
    · exact ⟨take_munch_mem h, List.ne_nil_of_length_pos (by rwa [hlen])⟩
    · exact hrest.named o ho
  · intro o ho n hn hp
    rcases List.mem_cons.1 ho with rfl | ho
    · rw [hlen]
      exact length_le_munch hn hp
    · exact hrest.longest o ho n hn hp
  · intro i hi hfree n hn hp
    refine hrest.gaps i ?_ (fun o ho => hfree o (.tail _ ho)) n hn hp
    have hpos := hfree _ (.head _)
    simp only [Occurrence.Contains, Occurrence.stop, hlen] at hpos
    omega

end IsMunch

theorem isMunch_occurrencesFrom (h : rest = text.drop pos) :
    IsMunch names text pos (occurrencesFrom names pos rest) := by
  fun_induction occurrencesFrom names pos rest with
  | case1 pos => exact .nil (List.drop_eq_nil_iff.1 h.symm)
  | case2 pos c rest hzero ih =>
    refine .skip (h ▸ hzero) (ih ?_)
    rw [← List.drop_drop, ← h, List.drop_one, List.tail_cons]
  | case3 pos c rest n hsucc ih =>
    have hm : munch names (text.drop pos) = n + 1 := h ▸ hsucc
    rw [h, ← hm]
    refine .take (by omega) ?_
    rw [hm, ← Nat.add_assoc]
    apply ih
    rw [Nat.add_assoc, ← List.drop_drop, ← h, List.drop_succ_cons]

theorem isMunch_occurrences (names : List Text) (text : Text) :
    IsMunch names text 0 (occurrences names text) :=
  isMunch_occurrencesFrom rfl

namespace IsMunch

variable {found : List Occurrence}

theorem eq_nil (h : IsMunch names text pos found) (hpos : text.length ≤ pos) : found = [] := by
  apply List.eq_nil_iff_forall_not_mem.2
  intro o ho
  apply (h.named o ho).2
  have hhere := h.here o ho
  rw [List.drop_of_length_le (by omega)] at hhere
  exact List.prefix_nil.1 hhere.2

/-- Where a name begins, there is a piece. -/
theorem exists_contains (h : IsMunch names text pos found) {n : Text} (hn : n ∈ names)
    (hne : n ≠ []) (hi : pos ≤ i) (hp : n <+: text.drop i) : ∃ o ∈ found, o.Contains i :=
  Classical.byContradiction fun hfree =>
    hne (h.gaps i hi (fun o ho hc => hfree ⟨o, ho, hc⟩) n hn hp)

/-- The first piece is the longest name at the first position at which a name begins. -/
theorem eq_cons (h : IsMunch names text pos found) (hpos : 0 < munch names (text.drop pos)) :
    ∃ found', found = ⟨pos, (text.drop pos).take (munch names (text.drop pos))⟩ :: found' ∧
      IsMunch names text (pos + munch names (text.drop pos)) found' := by
  obtain ⟨n, hn, hp, hlen⟩ := exists_of_munch_pos hpos
  -- some piece takes up the position, and it starts there, for none starts before it
  have hne : n ≠ [] := List.length_pos_iff.1 (hlen ▸ hpos)
  obtain ⟨o, ho, hcontains⟩ := h.exists_contains hn hne (Nat.le_refl _) hp
  have hstart : o.start = pos := Nat.le_antisymm hcontains.1 (h.here o ho).1
  have hprefix := hstart ▸ (h.here o ho).2
  have htext : o.text.length = munch names (text.drop pos) :=
    Nat.le_antisymm (length_le_munch (h.named o ho).1 hprefix)
      (hlen ▸ h.longest o ho n hn (hstart ▸ hp))
  have heq : o = ⟨pos, (text.drop pos).take (munch names (text.drop pos))⟩ := by
    rw [← htext, ← List.prefix_iff_eq_take.1 hprefix, ← hstart]
  cases found with
  | nil => exact nomatch ho
  | cons q qs =>
    obtain ⟨hq, hqs⟩ := List.pairwise_cons.1 h.ordered
    have hqo : o = q := by
      apply (List.mem_cons.1 ho).resolve_right
      intro ho'
      have := Occurrence.start_lt_stop (h.named q (.head _)).2
      have := hq o ho'
      have := (h.here q (.head _)).1
      omega
    subst hqo
    have hstop : o.stop = pos + munch names (text.drop pos) := by
      rw [Occurrence.stop, hstart, htext]
    refine ⟨qs, by rw [heq], hqs, fun p hp => ⟨hstop ▸ hq p hp, (h.here p (.tail _ hp)).2⟩,
      fun p hp => h.named p (.tail _ hp), fun p hp => h.longest p (.tail _ hp), ?_⟩
    intro i hi hfree
    apply h.gaps i (by omega)
    intro p hp
    rcases List.mem_cons.1 hp with rfl | hp
    · exact fun hc => absurd hc.2 (by omega)
    · exact hfree p hp

theorem of_munch_eq_zero (h : IsMunch names text pos found)
    (hzero : munch names (text.drop pos) = 0) : IsMunch names text (pos + 1) found := by
  refine ⟨h.ordered, fun o ho => ⟨?_, (h.here o ho).2⟩, h.named, h.longest,
    fun i hi => h.gaps i (by omega)⟩
  apply Nat.lt_of_le_of_ne (h.here o ho).1
  intro heq
  have := length_le_munch (h.named o ho).1 (heq ▸ (h.here o ho).2)
  exact (h.named o ho).2 (List.length_eq_zero_iff.1 (by omega))

theorem eq_occurrencesFrom (h : IsMunch names text pos found) (hrest : rest = text.drop pos) :
    found = occurrencesFrom names pos rest := by
  fun_induction occurrencesFrom names pos rest generalizing found with
  | case1 pos => exact h.eq_nil (List.drop_eq_nil_iff.1 hrest.symm)
  | case2 pos c rest hzero ih =>
    refine ih (h.of_munch_eq_zero (hrest ▸ hzero)) ?_
    rw [← List.drop_drop, ← hrest, List.drop_one, List.tail_cons]
  | case3 pos c rest n hsucc ih =>
    rw [hrest] at hsucc
    obtain ⟨found', rfl, h'⟩ := h.eq_cons (by omega)
    rw [hsucc] at h'
    have hdrop : rest.drop n = text.drop (pos + n + 1) := by
      rw [Nat.add_assoc, ← List.drop_drop, ← hrest, List.drop_succ_cons]
    rw [hsucc, ← hrest, ih h' hdrop]

/-- The conditions leave only one list. -/
theorem eq_occurrences (h : IsMunch names text 0 found) : found = occurrences names text :=
  h.eq_occurrencesFrom rfl

theorem congr (h : IsMunch names text pos found) (hnames : ∀ n ≠ [], n ∈ names ↔ n ∈ names') :
    IsMunch names' text pos found where
  ordered := h.ordered
  here := h.here
  named o ho := ⟨(hnames _ (h.named o ho).2).1 (h.named o ho).1, (h.named o ho).2⟩
  longest o ho n hn hp := by
    by_cases hne : n = []
    · exact hne ▸ Nat.zero_le _
    · exact h.longest o ho n ((hnames n hne).2 hn) hp
  gaps i hi hfree n hn hp := by
    by_cases hne : n = []
    · exact hne
    · exact h.gaps i hi hfree n ((hnames n hne).2 hn) hp

end IsMunch

/-- The empty name is never found. -/
theorem occurrences_congr_of_ne_nil (h : ∀ n ≠ [], n ∈ names ↔ n ∈ names') :
    occurrences names text = occurrences names' text :=
  ((isMunch_occurrences ..).congr h).eq_occurrences

/-- Neither the order of the names nor their repetition matters. -/
theorem occurrences_congr (h : ∀ n, n ∈ names ↔ n ∈ names') :
    occurrences names text = occurrences names' text :=
  occurrences_congr_of_ne_nil fun n _ => h n

end Relayout.Layout
