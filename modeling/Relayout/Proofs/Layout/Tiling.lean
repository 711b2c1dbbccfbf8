import Relayout.Proofs.Layout.Segments
import Relayout.Proofs.Layout.Stretches

/-!
# The segments of a layout make up its text

Tokens and words stand in a stretch one behind the other (`InPlace`), so that with the text between
them they are the stretch again. Hence a layout that is read loses the brackets of its spans and nothing
else, and no segment reaches from one stretch into another (`Tiles.splits`).
-/

namespace Relayout.Layout

/-! ## Pieces in their places -/

/-- The position just behind the piece. -/
def Piece.stop (p : Piece) : Nat := p.start + p.segment.text.length

/-- The pieces stand in the text one behind the other, from `pos` on, and none is empty. -/
inductive InPlace (text : Text) : Nat → List Piece → Prop
  | nil {pos : Nat} : pos ≤ text.length → InPlace text pos []
  | cons {pos : Nat} {p : Piece} {ps : List Piece} : pos ≤ p.start →
    p.segment.text <+: text.drop p.start → p.segment.text ≠ [] → InPlace text p.stop ps →
    InPlace text pos (p :: ps)

variable {names : List Text} {text layout : Text} {p : Piece} {ps : List Piece} {s : Segment}
  {pos i : Nat} {lex : Text → List Segment}

theorem InPlace.of_pairwise (hordered : ps.Pairwise fun p q => p.stop ≤ q.start)
    (hhere : ∀ p ∈ ps, p.segment.text <+: text.drop p.start ∧ p.segment.text ≠ [])
    (hpos : pos ≤ text.length) (hfirst : ∀ p ∈ ps, pos ≤ p.start) : InPlace text pos ps := by
  induction ps generalizing pos with
  | nil => exact .nil hpos
  | cons p ps ih =>
    obtain ⟨hp, hps⟩ := List.pairwise_cons.1 hordered
    obtain ⟨⟨hbegins, hne⟩, hrest⟩ := List.forall_mem_cons.1 hhere
    have hstop : p.stop ≤ text.length :=
      Occurrence.stop_le_length (o := ⟨p.start, p.segment.text⟩) hbegins hne
    exact .cons (hfirst p (.head _)) hbegins hne (ih hps hrest hstop hp)

theorem fill_cons (h : pos ≤ p.start) : fill pos (text.drop pos) (p :: ps) =
    gap ((text.drop pos).take (p.start - pos)) ++ p.segment :: fill p.stop (text.drop p.stop) ps := by
  have hdrop : ((text.drop pos).drop (p.start - pos)).drop p.segment.text.length =
      text.drop p.stop := by
    rw [List.drop_drop, List.drop_drop, ← Nat.add_assoc, Nat.add_sub_cancel' h, Piece.stop]
  rw [fill, hdrop, Piece.stop]

/-! ## What is filled in -/

theorem flatMap_text_gap : (gap text).flatMap Segment.text = text := by
  cases text with
  | nil => rfl
  | cons c rest => exact List.append_nil _

theorem text_ne_nil_of_mem_gap (h : s ∈ gap text) : s.text ≠ [] := by
  cases text with
  | nil => exact nomatch h
  | cons c rest => exact List.mem_singleton.1 h ▸ List.cons_ne_nil c rest

theorem InPlace.flatMap_text_fill (h : InPlace text pos ps) :
    (fill pos (text.drop pos) ps).flatMap Segment.text = text.drop pos := by
  induction h with
  | nil _ => exact flatMap_text_gap
  | @cons pos p ps hp hbegins _ _ ih =>
    have htext : p.segment.text ++ text.drop p.stop = text.drop p.start := by
      rw [Piece.stop, ← List.drop_drop]
      exact List.prefix_iff_eq_append.1 hbegins
    rw [fill_cons hp, List.flatMap_append, List.flatMap_cons, flatMap_text_gap, ih, htext,
      ← Nat.add_sub_cancel' hp, ← List.drop_drop, Nat.add_sub_cancel_left, List.take_append_drop]

theorem InPlace.text_ne_nil_of_mem_fill (h : InPlace text pos ps)
    (hs : s ∈ fill pos (text.drop pos) ps) : s.text ≠ [] := by
  induction h with
  | nil _ => exact text_ne_nil_of_mem_gap hs
  | cons hp _ hne _ ih =>
    rw [fill_cons hp] at hs
    rcases List.mem_append.1 hs with hs | hs
    · exact text_ne_nil_of_mem_gap hs
    · rcases List.mem_cons.1 hs with rfl | hs
      · exact hne
      · exact ih hs

/-! ## Tokens and words in their places -/

theorem InPlace.tokenPieces {found : List Occurrence}
    (hordered : found.Pairwise fun o p => o.stop ≤ p.start)
    (hhere : ∀ o ∈ found, o.text <+: text.drop o.start ∧ o.text ≠ []) :
    InPlace text 0 (tokenPieces found) := by
  refine .of_pairwise (List.pairwise_map.2 hordered) ?_ (Nat.zero_le _) fun _ _ => Nat.zero_le _
  intro p hp
  obtain ⟨o, ho, rfl⟩ := List.mem_map.1 hp
  exact hhere o ho

theorem inPlace_tokenPieces : InPlace text 0 (tokenPieces (occurrences names text)) :=
  have hfound := isMunch_occurrences names text
  .tokenPieces hfound.ordered fun o ho => ⟨(hfound.here o ho).2, (hfound.named o ho).2⟩

/-- Of two pieces the one that begins first ends before the other. -/
theorem stop_le_start_of_before {q : Piece} (hp : p ∈ outputPieces names text)
    (hq : q ∈ outputPieces names text) (h : p.Before q) : p.stop ≤ q.start := by
  have hfound := isMunch_occurrences names text
  have hruns := isRuns_letterRuns text
  rcases mem_outputPieces.1 hp with ⟨o, ho, hfree, rfl⟩ | ⟨w, hw, rfl⟩ <;>
    rcases mem_outputPieces.1 hq with ⟨o', ho', hfree', rfl⟩ | ⟨w', hw', rfl⟩ <;>
    simp only [Piece.Before, Piece.stop, Segment.text] at h ⊢
  · -- two tokens
    rcases eq_or_rel_of_pairwise hfound.ordered ho ho' with rfl | hle | hle
    · omega
    · exact hle
    · unfold Occurrence.stop at hle
      omega
  · -- a token before a word
    have hover := hfree w' hw'
    unfold Occurrence.Overlaps Occurrence.stop at hover
    omega
  · -- a word before a token
    have hover := hfree' w hw
    unfold Occurrence.Overlaps Occurrence.stop at hover
    omega
  · -- two words
    rcases eq_or_rel_of_pairwise hruns.apart (mem_uncovered.1 hw).1 (mem_uncovered.1 hw').1 with
      rfl | hlt | hlt
    · omega
    · exact Nat.le_of_lt hlt
    · unfold Occurrence.stop at hlt
      omega

theorem inPlace_outputPieces : InPlace text 0 (outputPieces names text) := by
  have hfound := isMunch_occurrences names text
  have hruns := isRuns_letterRuns text
  refine .of_pairwise (pairwise_outputPieces.imp_of_mem stop_le_start_of_before) ?_ (Nat.zero_le _)
    fun _ _ => Nat.zero_le _
  intro p hp
  rcases mem_outputPieces.1 hp with ⟨o, ho, -, rfl⟩ | ⟨w, hw, rfl⟩
  · exact ⟨(hfound.here o ho).2, (hfound.named o ho).2⟩
  · have hw := (mem_uncovered.1 hw).1
    exact ⟨(hruns.here w hw).2, (hruns.letters w hw).1⟩

/-- The segment is a token with one of the names, or a word. -/
def Segment.IsTokenOrWord (names : List Text) (s : Segment) : Prop :=
  (∃ n ∈ names, s = .token n) ∨ ∃ w, s = .word w

theorem isTokenOrWord_of_mem_tokenPieces (hp : p ∈ tokenPieces (occurrences names text)) :
    p.segment.IsTokenOrWord names := by
  obtain ⟨o, ho, rfl⟩ := List.mem_map.1 hp
  exact .inl ⟨o.text, ((isMunch_occurrences ..).named o ho).1, rfl⟩

theorem isTokenOrWord_of_mem_outputPieces (hp : p ∈ outputPieces names text) :
    p.segment.IsTokenOrWord names := by
  rcases mem_outputPieces.1 hp with ⟨o, ho, -, rfl⟩ | ⟨w, -, rfl⟩
  · exact .inl ⟨o.text, ((isMunch_occurrences ..).named o ho).1, rfl⟩
  · exact .inr ⟨w.text, rfl⟩

/-! ## Stretches -/

/-- The text that a bracketed segment stands for. -/
def Segment.inside? : Segment → Option Text
  | escaped t => some t
  | literal _ | token _ | word _ => none

/-- A way to read ordinary text by segments that make it up. -/
structure Tiles (names : List Text) (lex : Text → List Segment) : Prop where
  text : ∀ t, (lex t).flatMap Segment.text = t
  ordinary : ∀ t, ∀ s ∈ lex t, s.text ≠ [] ∧ s.inside? = none
  named : ∀ t n, .token n ∈ lex t → n ∈ names

/-- Pieces in their places with the text between them. -/
theorem tiles_fill {pieces : Text → List Piece} (hplaces : ∀ t, InPlace t 0 (pieces t))
    (hsegments : ∀ t, ∀ p ∈ pieces t, p.segment.IsTokenOrWord names) :
    Tiles names fun t => fill 0 t (pieces t) where
  text t := (hplaces t).flatMap_text_fill
  ordinary t s hs := by
    refine ⟨(hplaces t).text_ne_nil_of_mem_fill hs, ?_⟩
    rcases exists_of_mem_fill hs with ⟨_, rfl⟩ | ⟨p, hp, rfl⟩
    · rfl
    · rcases hsegments t p hp with ⟨n, _, heq⟩ | ⟨w, heq⟩ <;> rw [heq] <;> rfl
  named t n hn := by
    rcases exists_of_mem_fill hn with ⟨_, heq⟩ | ⟨p, hp, heq⟩
    · exact nomatch heq
    · rcases hsegments t p hp with ⟨m, hm, hp⟩ | ⟨w, hp⟩
      · exact Segment.token.inj (heq.trans hp) ▸ hm
      · exact nomatch heq.trans hp

theorem tiles_lexTokens (names : List Text) : Tiles names (lexTokens names) :=
  tiles_fill (fun _ => inPlace_tokenPieces) fun _ _ => isTokenOrWord_of_mem_tokenPieces

theorem tiles_lexWords (names : List Text) : Tiles names (lexWords names) :=
  tiles_fill (fun _ => inPlace_outputPieces) fun _ _ => isTokenOrWord_of_mem_outputPieces

namespace Tiles

variable {stretch : Stretch} {parts : List Stretch}

theorem text_read (h : Tiles names lex) :
    (stretch.read lex).flatMap Segment.text = stretch.text := by
  cases stretch with
  | plain t => exact h.text t
  | bracketed t =>
    cases t with
    | nil => rfl
    | cons _ _ => exact List.append_nil _

theorem mem_read (h : Tiles names lex) (hs : s ∈ stretch.read lex) :
    s.text ≠ [] ∧ s.inside? = stretch.inside? := by
  cases stretch with
  | plain t => exact h.ordinary t s hs
  | bracketed t =>
    cases t with
    | nil => exact nomatch hs
    | cons c t =>
      obtain rfl := List.mem_singleton.1 hs
      exact ⟨List.cons_ne_nil c t, rfl⟩

theorem insides_read (h : Tiles names lex) :
    (stretch.read lex).filterMap Segment.inside? = stretch.inside?.toList.filter (· ≠ []) := by
  cases stretch with
  | plain t => exact List.filterMap_eq_nil_iff.2 fun s hs => (h.ordinary t s hs).2
  | bracketed t => cases t <;> rfl

theorem named_read (h : Tiles names lex) {n : Text} (hn : .token n ∈ stretch.read lex) :
    n ∈ names := by
  cases stretch with
  | plain t => exact h.named t n hn
  | bracketed t =>
    cases t with
    | nil => exact nomatch hn
    | cons _ _ => exact nomatch List.mem_singleton.1 hn

end Tiles

/-- The segments of a layout are its stretches, cut up. -/
structure Splits (names : List Text) (parts : List Stretch) (segs : List Segment) : Prop where
  /-- together they are the layout without the brackets of its spans -/
  text : segs.flatMap Segment.text = parts.flatMap Stretch.text
  nonempty : ∀ s ∈ segs, s.text ≠ []
  /-- the bracketed ones are the insides of the spans -/
  insides : segs.filterMap Segment.inside? = (parts.filterMap Stretch.inside?).filter (· ≠ [])
  /-- each stands in one stretch, a bracketed one in a span and any other outside -/
  apart : ∃ groups, segs = groups.flatten ∧ List.Forall₂ (fun part group =>
    group.flatMap Segment.text = part.text ∧ ∀ s ∈ group, s.inside? = part.inside?) parts groups
  named : ∀ n, .token n ∈ segs → n ∈ names

theorem Tiles.splits (h : Tiles names lex) (parts : List Stretch) :
    Splits names parts (parts.flatMap (·.read lex)) where
  text := by
    simp only [List.flatMap_assoc, h.text_read]
  nonempty s hs := by
    obtain ⟨part, _, hs⟩ := List.mem_flatMap.1 hs
    exact (h.mem_read hs).1
  insides := by
    induction parts with
    | nil => rfl
    | cons part parts ih =>
      rw [List.flatMap_cons, List.filterMap_append, ih, h.insides_read, List.filterMap_cons]
      cases part.inside? with
      | none => rfl
      | some t => exact (List.filter_append [t] _).symm
  apart := by
    refine ⟨parts.map (·.read lex), rfl, ?_⟩
    exact List.forall₂_map_right_iff.2
      (List.forall₂_same.2 fun part _ => ⟨h.text_read, fun s hs => (h.mem_read hs).2⟩)
  named n hn := by
    obtain ⟨part, _, hn⟩ := List.mem_flatMap.1 hn
    exact h.named_read hn

end Relayout.Layout
