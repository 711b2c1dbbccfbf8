import Relayout.Proofs.Bytes
import Relayout.Proofs.Layout.Segments

/-!
# Letter runs and their coverage at bytes

A scan that knows byte positions only finds the bytes of the letter runs (`letterSpans_eq`). Whether
the matches cover a run is decided by one sweep over their bytes, which ends where `reach` does
(`sweep_byteAt`). It finds a run covered exactly when each byte of it is in some match
(`coveredBy_matchSpans`).
-/

namespace Relayout.Layout

/-- The bytes of a text from `start` on and before `stop`. -/
structure Span where
  start : Nat
  stop : Nat
  deriving DecidableEq

namespace Span

/-- The byte is one of the span. -/
def Contains (s : Span) (b : Nat) : Prop := s.start ≤ b ∧ b < s.stop

instance (s : Span) (b : Nat) : Decidable (s.Contains b) := inferInstanceAs (Decidable (_ ∧ _))

/-- How far one gets from byte `b` by stepping to the end of each span that one stands in. -/
def sweep (spans : List Span) (b : Nat) : Nat :=
  spans.foldl (fun b s => if s.Contains b then s.stop else b) b

/-- Spans, given in order, leave no byte of the span free. They may begin before it and end behind
it. -/
def coveredBy (s : Span) (spans : List Span) : Bool := s.stop ≤ sweep spans s.start

end Span

/-- The bytes of a piece that stands in the text. -/
def Occurrence.span (text : Text) (o : Occurrence) : Span :=
  ⟨text.byteAt o.start, text.byteAt o.start + o.text.utf8Size⟩

/-- The bytes of the names found in a text. -/
def matchSpans (names : List Text) (text : Text) : List Span :=
  (occurrences names text).map (·.span text)

/-- The bytes of the letter runs of a text that starts at byte `b`. A run that was begun before is
`opened` at its first byte. -/
def scanSpans (opened : Option Nat) (b : Nat) : Text → List Span
  | [] => opened.toList.map fun first => ⟨first, b⟩
  | c :: rest =>
    match c.isAlpha, opened with
    | true, none => scanSpans (some b) (b + c.utf8Size) rest
    | false, some first => ⟨first, b⟩ :: scanSpans none (b + c.utf8Size) rest
    | _, _ => scanSpans opened (b + c.utf8Size) rest

/-- The bytes of the letter runs of a text, from left to right. -/
def letterSpans (text : Text) : List Span := scanSpans none 0 text

variable {names : List Text} {text rest t : Text} {o r : Occurrence} {found : List Occurrence}
  {pos i b : Nat}

/-! ## The bytes of a piece -/

theorem Occurrence.span_stop (h : o.text <+: text.drop o.start) :
    (o.span text).stop = text.byteAt o.stop :=
  (Text.byteAt_add h).symm

theorem Occurrence.span_of_append (h : t ++ rest = text.drop i) (hpos : i + t.length = pos) :
    span text ⟨i, t⟩ = ⟨text.byteAt i, text.byteAt pos⟩ := by
  rw [span, ← hpos, Text.byteAt_add ⟨rest, h⟩]

/-- A piece has a byte of a character exactly when it has the character. -/
theorem Occurrence.span_contains_iff (h : o.text <+: text.drop o.start) (hle : text.byteAt i ≤ b)
    (hlt : b < text.byteAt (i + 1)) : (o.span text).Contains b ↔ o.Contains i := by
  have hstart : text.byteAt o.start ≤ b ↔ o.start ≤ i := by
    refine ⟨fun hb => Nat.le_of_not_lt fun hi => ?_, fun hi => ?_⟩
    · exact absurd (Text.byteAt_le_byteAt hi) (Nat.not_le.2 (Nat.lt_of_le_of_lt hb hlt))
    · exact Nat.le_trans (Text.byteAt_le_byteAt hi) hle
  have hstop : b < text.byteAt o.stop ↔ i < o.stop := by
    refine ⟨fun hb => Nat.lt_of_not_le fun hi => ?_, fun hi => ?_⟩
    · exact absurd (Text.byteAt_le_byteAt hi) (Nat.not_le.2 (Nat.lt_of_le_of_lt hle hb))
    · exact Nat.lt_of_lt_of_le hlt (Text.byteAt_le_byteAt hi)
  rw [Span.Contains, span_stop h]
  exact and_congr hstart hstop

/-! ## The sweep -/

theorem sweep_byteAt (h : ∀ o ∈ found, o.text <+: text.drop o.start ∧ o.text ≠ []) :
    Span.sweep (found.map (·.span text)) (text.byteAt pos) = text.byteAt (reach found pos) := by
  induction found generalizing pos with
  | nil => rfl
  | cons o os ih =>
    obtain ⟨⟨hhere, hne⟩, hos⟩ := List.forall_mem_cons.1 h
    have hin : (o.span text).Contains (text.byteAt pos) ↔ o.Contains pos := by
      rcases Nat.lt_or_ge pos text.length with hpos | hpos
      · exact Occurrence.span_contains_iff hhere (Nat.le_refl _)
          (Text.byteAt_lt_byteAt (Nat.lt_succ_self pos) hpos)
      · -- no piece has a position behind the text
        have hstop := Nat.le_trans (Occurrence.stop_le_length hhere hne) hpos
        refine iff_of_false (fun hc => ?_) fun hc => absurd hc.2 (Nat.not_lt.2 hstop)
        rw [Span.Contains, Occurrence.span_stop hhere] at hc
        exact absurd hc.2 (Nat.not_lt.2 (Text.byteAt_le_byteAt hstop))
    have hnext : (if (o.span text).Contains (text.byteAt pos) then (o.span text).stop
        else text.byteAt pos) = text.byteAt (if o.Contains pos then o.stop else pos) := by
      rw [apply_ite text.byteAt, Occurrence.span_stop hhere]
      exact if_congr hin rfl rfl
    rw [List.map_cons, reach_cons, ← ih hos]
    exact congrArg (Span.sweep (os.map (·.span text))) hnext

/-- The sweep over bytes decides what the one over characters decides. -/
theorem coveredBy_span (hr : r.text <+: text.drop r.start) (hne : r.text ≠ []) :
    (r.span text).coveredBy (matchSpans names text) = covers (occurrences names text) r := by
  have hfound := isMunch_occurrences names text
  have hsweep : Span.sweep (matchSpans names text) (text.byteAt r.start) =
      text.byteAt (reach (occurrences names text) r.start) :=
    sweep_byteAt fun o ho => ⟨(hfound.here o ho).2, (hfound.named o ho).2⟩
  have hstart : (r.span text).start = text.byteAt r.start := rfl
  have hstop := Occurrence.stop_le_length hr hne
  rw [Span.coveredBy, Occurrence.span_stop hr, hstart, hsweep, covers, decide_eq_decide]
  refine ⟨fun hle => Nat.le_of_not_lt fun hlt => ?_, Text.byteAt_le_byteAt⟩
  exact absurd hle (Nat.not_le.2 (Text.byteAt_lt_byteAt hlt (Nat.lt_of_lt_of_le hlt hstop)))

/-- All characters of a piece are in some match exactly when all its bytes are. -/
theorem forall_contains_iff (hr : r.text <+: text.drop r.start) (hne : r.text ≠ []) :
    (∀ i, r.Contains i → ∃ o ∈ occurrences names text, o.Contains i) ↔
      ∀ b, (r.span text).Contains b → ∃ m ∈ matchSpans names text, m.Contains b := by
  have hfound := isMunch_occurrences names text
  have hmatch : ∀ {i b}, text.byteAt i ≤ b → b < text.byteAt (i + 1) →
      ((∃ m ∈ matchSpans names text, m.Contains b) ↔
        ∃ o ∈ occurrences names text, o.Contains i) := by
    intro i b hle hlt
    simp only [matchSpans, List.mem_map, exists_exists_and_eq_and]
    exact exists_congr fun o => and_congr_right fun ho =>
      Occurrence.span_contains_iff (hfound.here o ho).2 hle hlt
  have hstop := Occurrence.stop_le_length hr hne
  constructor
  · intro h b hb
    have hbyte : b < text.utf8Size := by
      rw [← Text.byteAt_length]
      exact Nat.lt_of_lt_of_le (Occurrence.span_stop hr ▸ hb.2) (Text.byteAt_le_byteAt hstop)
    obtain ⟨i, hle, hlt⟩ := Text.exists_byteAt_le hbyte
    exact (hmatch hle hlt).2 (h i ((Occurrence.span_contains_iff hr hle hlt).1 hb))
  · intro h i hi
    have hlt := Text.byteAt_lt_byteAt (Nat.lt_succ_self i) (Nat.lt_of_lt_of_le hi.2 hstop)
    have hle := Nat.le_refl (text.byteAt i)
    exact (hmatch hle hlt).1 (h _ ((Occurrence.span_contains_iff hr hle hlt).2 hi))

/-! ## The scan for letter runs -/

theorem scanSpans_letter {c : Char} (hc : c.isAlpha) (opened : Option Nat) :
    scanSpans opened b (c :: rest) = scanSpans (some (opened.getD b)) (b + c.utf8Size) rest := by
  cases opened with
  | none => simp only [scanSpans, hc, Option.getD_none]
  | some _ => simp only [scanSpans, hc, Option.getD_some]

theorem scanSpans_other {c : Char} (hc : ¬c.isAlpha) (opened : Option Nat) :
    scanSpans opened b (c :: rest) =
      (opened.toList.map fun first => ⟨first, b⟩) ++ scanSpans none (b + c.utf8Size) rest := by
  cases opened with
  | none => simp only [scanSpans, hc, Option.toList_none, List.map_nil, List.nil_append]
  | some _ =>
    simp only [scanSpans, hc, Option.toList_some, List.map_cons, List.map_nil, List.cons_append,
      List.nil_append]

/-- Letters before a text whose runs do not begin at once are a run of their own. -/
theorem letterRunsFrom_append (ht : t ≠ []) (hl : ∀ c ∈ t, c.isAlpha)
    (hrest : ∀ r ∈ letterRunsFrom (pos + t.length) rest, r.start ≠ pos + t.length) :
    letterRunsFrom pos (t ++ rest) = ⟨pos, t⟩ :: letterRunsFrom (pos + t.length) rest := by
  induction t generalizing pos with
  | nil => exact absurd rfl ht
  | cons c t ih =>
    obtain ⟨hc, hl⟩ := List.forall_mem_cons.1 hl
    rw [List.cons_append, letterRunsFrom, if_pos hc]
    cases t with
    | nil =>
      rw [List.nil_append, List.length_singleton]
      cases hruns : letterRunsFrom (pos + 1) rest with
      | nil => rfl
      | cons r rs =>
        have hstart : r.start ≠ pos + 1 := hrest r (by simp [hruns])
        rw [joinLetter, if_neg hstart]
    | cons d t =>
      have hlen : pos + 1 + (d :: t).length = pos + (c :: d :: t).length := by
        simp only [List.length_cons]
        omega
      rw [ih (List.cons_ne_nil d t) hl (hlen ▸ hrest), joinLetter, if_pos rfl, hlen]

/-- From a place on, with no run begun or with the letters `t` of one before it, the scan finds the
bytes of the letter runs. -/
theorem scanSpans_byteAt (h : rest = text.drop pos) :
    scanSpans none (text.byteAt pos) rest = (letterRunsFrom pos rest).map (·.span text) ∧
    ∀ first t, t ≠ [] → (∀ c ∈ t, c.isAlpha) → t ++ rest = text.drop first →
      first + t.length = pos → scanSpans (some (text.byteAt first)) (text.byteAt pos) rest =
        (letterRunsFrom first (t ++ rest)).map (·.span text) := by
  induction rest generalizing pos with
  | nil =>
    refine ⟨rfl, fun first t ht hl hhere hpos => ?_⟩
    rw [letterRunsFrom_append ht hl (List.forall_mem_nil _), List.map_cons,
      Occurrence.span_of_append hhere hpos]
    rfl
  | cons c rest ih =>
    have hrest : rest = text.drop (pos + 1) := by
      rw [← List.drop_drop, ← h, List.drop_one, List.tail_cons]
    obtain ⟨hclosed, hopened⟩ := ih hrest
    rw [Text.byteAt_succ h.symm] at hclosed hopened
    by_cases hc : c.isAlpha
    · have hletter : ∀ d ∈ [c], d.isAlpha := List.forall_mem_singleton.2 hc
      constructor
      · rw [scanSpans_letter hc]
        exact hopened pos [c] (List.cons_ne_nil _ _) hletter h rfl
      · intro first t ht hl hhere hpos
        rw [scanSpans_letter hc, List.append_cons]
        refine hopened first (t ++ [c]) (by simp) (List.forall_mem_append.2 ⟨hl, hletter⟩) ?_ ?_
        · rw [← hhere, List.append_assoc, List.singleton_append]
        · rw [List.length_append, ← Nat.add_assoc, hpos, List.length_singleton]
    · have hruns : letterRunsFrom pos (c :: rest) = letterRunsFrom (pos + 1) rest := by
        rw [letterRunsFrom, if_neg hc]
      constructor
      · rw [scanSpans_other hc, hruns]
        exact hclosed
      · intro first t ht hl hhere hpos
        have hapart : ∀ r ∈ letterRunsFrom (first + t.length) (c :: rest),
            r.start ≠ first + t.length := by
          rw [hpos, hruns]
          intro r hr heq
          have := ((isRuns_letterRunsFrom hrest).here r hr).1
          omega
        rw [letterRunsFrom_append ht hl hapart, hpos, hruns, List.map_cons,
          Occurrence.span_of_append hhere hpos, ← hclosed, scanSpans_other hc]
        rfl

theorem letterSpans_eq (text : Text) : letterSpans text = (letterRuns text).map (·.span text) :=
  (scanSpans_byteAt (List.drop_zero (l := text)).symm).1

/-! ## Coverage -/

/-- Whether the names found in a text cover a letter run is decided exactly. The sweep over their
bytes finds the run covered if and only if each byte of it is one of a match, and that is when
`covers` holds; so the runs that become words are those of the spans scanned that the sweep does not
get through. -/
theorem coveredBy_matchSpans (names : List Text) (text : Text) :
    (∀ r, MaximalRun text r →
      ((r.span text).coveredBy (matchSpans names text) = true ↔
        ∀ b, (r.span text).Contains b → ∃ m ∈ matchSpans names text, m.Contains b) ∧
      (r.span text).coveredBy (matchSpans names text) = covers (occurrences names text) r) ∧
    (letterSpans text).filter (fun s => !s.coveredBy (matchSpans names text)) =
      (uncovered (occurrences names text) text).map (·.span text) := by
  have hsame : ∀ r, MaximalRun text r →
      (r.span text).coveredBy (matchSpans names text) = covers (occurrences names text) r :=
    fun r hr => coveredBy_span hr.here hr.letters.1
  refine ⟨fun r hr => ⟨?_, hsame r hr⟩, ?_⟩
  · rw [hsame r hr, covers_iff (isMunch_occurrences ..).ordered]
    exact forall_contains_iff hr.here hr.letters.1
  · rw [letterSpans_eq, List.filter_map, uncovered]
    refine congrArg _ (List.filter_congr fun r hr => ?_)
    rw [Function.comp_apply, hsame r (mem_letterRuns_iff.1 hr)]

/-- One match begins before the run `xab`, and one goes on in the next run and leaves a byte of
it. -/
theorem coveredBy_matchSpans_overhanging :
    MaximalRun "é-xab cd".toList ⟨2, "xab".toList⟩ ∧
    matchSpans ["-xa".toList, "b c".toList] "é-xab cd".toList = [⟨2, 5⟩, ⟨5, 8⟩] ∧
    (⟨3, 6⟩ : Span).coveredBy [⟨2, 5⟩, ⟨5, 8⟩] = true ∧
    ¬(⟨7, 9⟩ : Span).coveredBy [⟨2, 5⟩, ⟨5, 8⟩] = true := by
  have hfound : occurrences ["-xa".toList, "b c".toList] "é-xab cd".toList =
      [⟨1, "-xa".toList⟩, ⟨4, "b c".toList⟩] := by cbv
  have hmatches : matchSpans ["-xa".toList, "b c".toList] "é-xab cd".toList = [⟨2, 5⟩, ⟨5, 8⟩] := by
    rw [matchSpans, hfound]
    decide
  have hxab : MaximalRun "é-xab cd".toList ⟨2, "xab".toList⟩ := mem_letterRuns_iff.1 (by decide)
  have hcd : MaximalRun "é-xab cd".toList ⟨6, "cd".toList⟩ := mem_letterRuns_iff.1 (by decide)
  have hdecides := (coveredBy_matchSpans ["-xa".toList, "b c".toList] "é-xab cd".toList).1
  rw [hmatches] at hdecides
  refine ⟨hxab, hmatches, (hdecides _ hxab).1.2 ?_, fun hcovered => ?_⟩
  · intro b hb
    rcases Nat.lt_or_ge b 5 with hlt | hge
    · exact ⟨⟨2, 5⟩, .head _, Nat.le_of_succ_le hb.1, hlt⟩
    · exact ⟨⟨5, 8⟩, .tail _ (.head _), hge, Nat.lt_of_lt_of_le hb.2 (by decide)⟩
  · have hlast := (hdecides _ hcd).1.1 hcovered 8 (by decide)
    exact absurd hlast (by decide)

end Relayout.Layout
