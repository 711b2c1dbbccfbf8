import Relayout.Proofs.Layout.Places

/-!
# Reading an output layout with more names

Two sets of names read an output layout alike when they ask for the same names at the same places,
be it by tokens or by words (`ReadAlike`). This is decided place by place (`readAlike_iff`).

When the words of a layout become names too, they are tokens of the same text. The rest is read as
before only if no token is the beginning of a longer new name (`Outgrown`): with `My` as a name,
`Myy` is no longer `M` and `yy`. Where no token reaches over an end of a word, nothing else can
change (`readAlike_append_iff`), for then a scan with the new names finds the tokens and the words.
-/

namespace Relayout.Layout

variable {names names' added : List Text} {text layout n : Text} {o w : Occurrence} {p : Piece}
  {segs segs' : List Segment} {s : Segment} {pos i : Nat}

/-- A token of an output layout: a name that is found and shares no letter with a word. -/
def TokenAt (names : List Text) (text : Text) (o : Occurrence) : Prop :=
  o ∈ occurrences names text ∧ ∀ w ∈ uncovered (occurrences names text) text, ¬o.Overlaps w

/-- A text asks for a name at a place, by a token or by a word. -/
def AsksAt (names : List Text) (text : Text) (o : Occurrence) : Prop :=
  TokenAt names text o ∨ o ∈ uncovered (occurrences names text) text

/-- A token is the beginning of a longer one among the added names. -/
def Outgrown (names added : List Text) (text : Text) : Prop :=
  ∃ o, TokenAt names text o ∧ ∃ n ∈ added, n <+: text.drop o.start ∧ o.text.length < n.length

/-- A word as the token of its name. -/
def Segment.asToken : Segment → Segment
  | .word t => .token t
  | s => s

/-- Two sets of names read an output layout alike, but for what is a token and what a word. -/
def ReadAlike (names names' : List Text) (layout : Text) : Prop :=
  (outputSegments names layout).map Segment.asToken =
    (outputSegments names' layout).map Segment.asToken

/-! ## The places where a text asks for names -/

theorem Segment.text_asToken (s : Segment) : s.asToken.text = s.text := by cases s <;> rfl

/-- The tokens and words of a text, in order. -/
def asked (names : List Text) (text : Text) : List Occurrence :=
  (outputPieces names text).map fun p => ⟨p.start, p.segment.text⟩

theorem mem_asked : o ∈ asked names text ↔ AsksAt names text o := by
  simp only [asked, List.mem_map, mem_outputPieces]
  constructor
  · rintro ⟨_, ⟨o, ho, hfree, rfl⟩ | ⟨w, hw, rfl⟩, rfl⟩
    · exact .inl ⟨ho, hfree⟩
    · exact .inr hw
  · rintro (⟨ho, hfree⟩ | hw)
    · exact ⟨_, .inl ⟨o, ho, hfree, rfl⟩, rfl⟩
    · exact ⟨_, .inr ⟨o, hw, rfl⟩, rfl⟩

theorem ordered_asked : (asked names text).Pairwise fun o p => o.stop ≤ p.start :=
  List.pairwise_map.2 (pairwise_outputPieces.imp_of_mem stop_le_start_of_before)

theorem AsksAt.here (h : AsksAt names text o) : o.text <+: text.drop o.start ∧ o.text ≠ [] := by
  have hfound := isMunch_occurrences names text
  have hruns := isRuns_letterRuns text
  rcases h with ⟨ho, -⟩ | hw
  · exact ⟨(hfound.here o ho).2, (hfound.named o ho).2⟩
  · exact ⟨(hruns.here o (mem_uncovered.1 hw).1).2, (hruns.letters o (mem_uncovered.1 hw).1).1⟩

theorem map_asToken_lexWords :
    (lexWords names text).map Segment.asToken = fill 0 text (tokenPieces (asked names text)) := by
  rw [lexWords_eq_fill, ← fill_map (fun _ => rfl) Segment.text_asToken, tokenPieces, asked,
    List.map_map]
  refine congrArg _ (List.map_congr_left fun p hp => ?_)
  rcases isTokenOrWord_of_mem_outputPieces hp with ⟨n, _, heq⟩ | ⟨n, heq⟩ <;>
    simp only [heq, Function.comp_apply, Segment.asToken, Segment.text]

theorem mem_tokenPieces {found : List Occurrence} :
    ⟨o.start, .token o.text⟩ ∈ tokenPieces found ↔ o ∈ found := by
  rw [tokenPieces, List.mem_map]
  constructor
  · rintro ⟨p, hp, heq⟩
    obtain ⟨hstart, htext⟩ := Piece.mk.inj heq
    obtain ⟨start, t⟩ := o
    obtain rfl : p = ⟨start, t⟩ := congrArg₂ Occurrence.mk hstart (Segment.token.inj htext)
    exact hp
  · exact fun ho => ⟨o, ho, rfl⟩

theorem asksAt_iff_mem_placed : AsksAt names text o ↔
    ⟨o.start, .token o.text⟩ ∈ placed 0 ((lexWords names text).map Segment.asToken) := by
  have hplaces : InPlace text 0 (tokenPieces (asked names text)) :=
    .tokenPieces ordered_asked fun o ho => (mem_asked.1 ho).here
  have hne : ∀ t, Segment.token o.text ≠ .literal t := nofun
  rw [map_asToken_lexWords, ← mem_asked, ← mem_tokenPieces]
  exact (hplaces.mem_placed_fill hne).symm

/-- A text is read alike just when it asks for the same names at the same places. -/
theorem map_asToken_lexWords_eq_iff :
    (lexWords names text).map Segment.asToken = (lexWords names' text).map Segment.asToken ↔
      ∀ o, AsksAt names text o ↔ AsksAt names' text o := by
  constructor
  · intro h o
    rw [asksAt_iff_mem_placed, h, ← asksAt_iff_mem_placed]
  · intro h
    have hbefore : ∀ names, (asked names text).Pairwise Occurrence.Before := fun names =>
      List.pairwise_map.2 pairwise_outputPieces
    rw [map_asToken_lexWords, map_asToken_lexWords,
      List.Pairwise.eq_of_mem_iff (hbefore names) (hbefore names') fun o =>
        mem_asked.trans ((h o).trans mem_asked.symm)]

/-! ## Stretch by stretch -/

/-- Segments that begin a list, and make up the same text as others that begin it, are these. -/
theorem append_inj_of_text (hsegs : ∀ s ∈ segs, s.text ≠ []) (hsegs' : ∀ s ∈ segs', s.text ≠ [])
    (htext : segs.flatMap Segment.text = segs'.flatMap Segment.text) {rest rest' : List Segment}
    (h : segs ++ rest = segs' ++ rest') : segs = segs' ∧ rest = rest' := by
  induction segs generalizing segs' with
  | nil =>
    cases segs' with
    | nil => exact ⟨rfl, h⟩
    | cons s segs' => exact absurd (List.append_eq_nil_iff.1 htext.symm).1 (hsegs' s (.head _))
  | cons s segs ih =>
    cases segs' with
    | nil => exact absurd (List.append_eq_nil_iff.1 htext).1 (hsegs s (.head _))
    | cons s' segs' =>
      obtain ⟨rfl, htail⟩ := List.cons.inj h
      obtain ⟨rfl, hrest⟩ := ih (List.forall_mem_cons.1 hsegs).2 (List.forall_mem_cons.1 hsegs').2
        (List.append_cancel_left htext) htail
      exact ⟨rfl, hrest⟩

/-- Parts with the same texts can be told from what they are together. -/
theorem eq_of_flatMap_eq {parts : List Stretch} {f g : Stretch → List Segment}
    (hf : ∀ part ∈ parts, ∀ s ∈ f part, s.text ≠ [])
    (hg : ∀ part ∈ parts, ∀ s ∈ g part, s.text ≠ [])
    (htext : ∀ part ∈ parts, (f part).flatMap Segment.text = (g part).flatMap Segment.text)
    (h : parts.flatMap f = parts.flatMap g) : ∀ part ∈ parts, f part = g part := by
  induction parts with
  | nil => exact nofun
  | cons part parts ih =>
    obtain ⟨hf, hfs⟩ := List.forall_mem_cons.1 hf
    obtain ⟨hg, hgs⟩ := List.forall_mem_cons.1 hg
    obtain ⟨htext, htexts⟩ := List.forall_mem_cons.1 htext
    obtain ⟨hpart, hparts⟩ := append_inj_of_text hf hg htext h
    exact List.forall_mem_cons.2 ⟨hpart, ih hfs hgs htexts hparts⟩

theorem readAlike_iff : ReadAlike names names' layout ↔
    ∀ text, .plain text ∈ stretches layout → ∀ o, AsksAt names text o ↔ AsksAt names' text o := by
  simp only [ReadAlike, outputSegments, segmentsBy_eq_flatMap, List.map_flatMap,
    ← map_asToken_lexWords_eq_iff]
  constructor
  · intro h text htext
    have hne : ∀ names, ∀ part ∈ stretches layout,
        ∀ s ∈ (part.read (lexWords names)).map Segment.asToken, s.text ≠ [] := by
      intro names part _
      refine List.forall_mem_map.2 fun s hs => ?_
      rw [s.text_asToken]
      exact ((tiles_lexWords names).mem_read hs).1
    have hsame : ∀ names, ∀ part : Stretch,
        ((part.read (lexWords names)).map Segment.asToken).flatMap Segment.text = part.text := by
      intro names part
      rw [List.flatMap_map]
      exact (List.flatMap_congr fun s _ => s.text_asToken).trans (tiles_lexWords names).text_read
    exact eq_of_flatMap_eq (hne names) (hne names')
      (fun part _ => (hsame names part).trans (hsame names' part).symm) h _ htext
  · intro h
    refine List.flatMap_congr fun part hpart => ?_
    cases part with
    | plain text => exact h text hpart
    | bracketed text => rfl

/-! ## New names of letters -/

/-- An added name that is longer than a token would be read in its place. -/
theorem not_outgrown (hadded : ∀ n ∈ added, ∀ c ∈ n, c.isAlpha)
    (h : ∀ o, AsksAt (names ++ added) text o ↔ AsksAt names text o) :
    ¬Outgrown names added text := by
  rintro ⟨o, ho, n, hn, hbegins, hlt⟩
  rcases (h o).2 (.inl ho) with ⟨hfound, -⟩ | hw
  · have := (isMunch_occurrences ..).longest o hfound n (List.mem_append_right _ hn) hbegins
    omega
  · -- the token has become a word, in which a name of letters has no room beyond its end
    have hne : n ≠ [] := List.length_pos_iff.1 (Nat.lt_of_le_of_lt (Nat.zero_le _) hlt)
    obtain ⟨-, hstop⟩ := (isRuns_letterRuns text).within (mem_uncovered.1 hw).1
      (o := ⟨o.start, n⟩) hbegins (hadded n hn) hne
      ((Occurrence.contains_start (o := ⟨o.start, n⟩) hne).overlaps
        (Occurrence.contains_start (AsksAt.here (.inr hw)).2))
    exact Nat.not_lt.2 (Nat.le_of_add_le_add_left hstop) hlt

namespace NoOverhang

/-- A position in a name that is found is in a token or in a word. -/
theorem exists_asksAt (h : NoOverhang names text) (ho : o ∈ occurrences names text)
    (hi : o.Contains i) : ∃ p, AsksAt names text p ∧ p.Contains i := by
  by_cases hfree : ∃ w ∈ uncovered (occurrences names text) text, o.Overlaps w
  · obtain ⟨w, hw, hov⟩ := hfree
    obtain ⟨hstart, hstop⟩ := h o ho w hw hov
    exact ⟨w, .inr hw, Nat.le_trans hstart hi.1, Nat.lt_of_lt_of_le hi.2 hstop⟩
  · exact ⟨o, .inl ⟨ho, fun w hw hov => hfree ⟨w, hw, hov⟩⟩, hi⟩

/-- A letter is in a token or in a word. -/
theorem exists_asksAt_of_letterAt (h : NoOverhang names text) (hl : LetterAt text i) :
    ∃ p, AsksAt names text p ∧ p.Contains i := by
  obtain ⟨r, hr, hi⟩ := (isRuns_letterRuns text).complete i (Nat.zero_le i) hl
  by_cases hcovers : covers (occurrences names text) r = true
  · obtain ⟨o, ho, hcontains⟩ := (covers_iff (isMunch_occurrences ..).ordered).1 hcovers i hi
    exact h.exists_asksAt ho hcontains
  · exact ⟨r, .inr (mem_uncovered.2 ⟨hr, hcovers⟩), hi⟩

/-- A name that begins where a word does stays within the word. -/
theorem length_le_of_mem_uncovered (h : NoOverhang names text)
    (hw : w ∈ uncovered (occurrences names text) text) (hn : n ∈ names)
    (hp : n <+: text.drop w.start) : n.length ≤ w.text.length := by
  have hfound := isMunch_occurrences names text
  have hne := (AsksAt.here (.inr hw)).2
  by_cases hnil : n = []
  · exact hnil ▸ Nat.zero_le _
  obtain ⟨o, ho, hcontains⟩ := hfound.exists_contains hn hnil (Nat.zero_le _) hp
  obtain ⟨hstart, hstop⟩ := h o ho w hw (hcontains.overlaps (Occurrence.contains_start hne))
  have hstart : o.start = w.start := Nat.le_antisymm hcontains.1 hstart
  have := hfound.longest o ho n hn (hstart ▸ hp)
  unfold Occurrence.stop at hstop
  omega

/-- The tokens and the words together leave no letter out. -/
theorem uncovered_asked (h : NoOverhang names text) : uncovered (asked names text) text = [] := by
  refine List.eq_nil_iff_forall_not_mem.2 fun r hr => ?_
  obtain ⟨hrun, hfree⟩ := mem_uncovered.1 hr
  have hruns := isRuns_letterRuns text
  refine hfree ((covers_iff ordered_asked).2 fun i hi => ?_)
  obtain ⟨p, hp, hcontains⟩ := h.exists_asksAt_of_letterAt
    (letterAt_of_contains (hruns.here r hrun).2 (hruns.letters r hrun).2 hi)
  exact ⟨p, mem_asked.2 hp, hcontains⟩

variable (h : NoOverhang names text) (hadded : ∀ n ∈ added, ∀ c ∈ n, c.isAlpha)
  (hwords : ∀ w ∈ uncovered (occurrences names text) text, w.text ∈ added)
  (hgrown : ¬Outgrown names added text)
include h hadded hwords hgrown

/-- Where words are added to the names, the tokens and the words are what the scan finds. -/
theorem isMunch_asked : IsMunch (names ++ added) text 0 (asked names text) := by
  have hfound := isMunch_occurrences names text
  have hruns := isRuns_letterRuns text
  refine ⟨ordered_asked, fun o ho => ⟨Nat.zero_le _, (mem_asked.1 ho).here.1⟩, ?_, ?_, ?_⟩
  · intro o ho
    refine ⟨?_, (mem_asked.1 ho).here.2⟩
    rcases mem_asked.1 ho with ⟨ho, -⟩ | hw
    · exact List.mem_append_left _ (hfound.named o ho).1
    · exact List.mem_append_right _ (hwords o hw)
  · intro o ho n hn hp
    rcases List.mem_append.1 hn with hn | hn <;> rcases mem_asked.1 ho with htoken | hw
    · exact hfound.longest o htoken.1 n hn hp
    · exact h.length_le_of_mem_uncovered hw hn hp
    · exact Nat.le_of_not_lt fun hlt => hgrown ⟨o, htoken, n, hn, hp, hlt⟩
    · by_cases hne : n = []
      · exact hne ▸ Nat.zero_le _
      obtain ⟨-, hstop⟩ := hruns.within (mem_uncovered.1 hw).1 (o := ⟨o.start, n⟩) hp
        (hadded n hn) hne ((Occurrence.contains_start (o := ⟨o.start, n⟩) hne).overlaps
          (Occurrence.contains_start (AsksAt.here (.inr hw)).2))
      exact Nat.le_of_add_le_add_left hstop
  · intro i _ hfree n hn hp
    refine Classical.byContradiction fun hne => ?_
    obtain ⟨p, hp, hcontains⟩ : ∃ p, AsksAt names text p ∧ p.Contains i := by
      rcases List.mem_append.1 hn with hn | hn
      · obtain ⟨o, ho, hcontains⟩ := hfound.exists_contains hn hne (Nat.zero_le i) hp
        exact h.exists_asksAt ho hcontains
      · exact h.exists_asksAt_of_letterAt (letterAt_of_contains (o := ⟨i, n⟩) hp (hadded n hn)
          (Occurrence.contains_start (o := ⟨i, n⟩) hne))
    exact hfree p (mem_asked.2 hp) hcontains

theorem asksAt_append_iff : AsksAt (names ++ added) text o ↔ AsksAt names text o := by
  have hscan : occurrences (names ++ added) text = asked names text :=
    (h.isMunch_asked hadded hwords hgrown).eq_occurrences.symm
  rw [AsksAt, TokenAt, hscan, h.uncovered_asked, mem_asked]
  simp only [List.not_mem_nil, false_implies, implies_true, and_true, or_false]

end NoOverhang

/-- When the words of a layout are added to the names, and no token reaches over an end of a word,
the layout is read as before just when no token is the beginning of a longer new name. -/
theorem readAlike_append_iff (hadded : ∀ n ∈ added, ∀ c ∈ n, c.isAlpha)
    (hclear : ∀ text, .plain text ∈ stretches layout → NoOverhang names text)
    (hwords : ∀ text, .plain text ∈ stretches layout →
      ∀ w ∈ uncovered (occurrences names text) text, w.text ∈ added) :
    ReadAlike (names ++ added) names layout ↔
      ∀ text, .plain text ∈ stretches layout → ¬Outgrown names added text := by
  rw [readAlike_iff]
  exact ⟨fun h text htext => not_outgrown hadded (h text htext), fun h text htext _ =>
    (hclear text htext).asksAt_append_iff hadded (hwords text htext) (h text htext)⟩

end Relayout.Layout
