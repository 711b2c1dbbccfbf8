import Mathlib.Data.List.Induction
import Mathlib.Data.List.Nodup
import Relayout.Proofs.NameMap
import Relayout.Proofs.Results
import Relayout.Proofs.Slices
import Relayout.Reading.Basic

/-!
# Readings step by step

A step fails where a segment that is checked does not fit its slice, and else it notes the slice of
a token (`Cursor.step_eq`). Hence a reading that ends without an error has noted the slots of the
layout, and an error is that of the first such segment, or else of the end of the input
(`Reading.ofInput_eq_ok_iff`, `Reading.ofInput_eq_error_iff`). Under `throw` every token of the
layout has digits of its own width in the end (`Reading.Complete`).
-/

namespace Relayout

open Layout

variable {mode mode' : ParseMode} {policy : ErrorPolicy} {c c' : Cursor} {s : Segment}
  {segs : List Segment} {r : Reading} {t u d input piece : Text} {pieces : List Text}
  {p : Text × Text} {ps qs : List (Text × Text)} {e : ConversionError}

/-! ## What is recorded -/

namespace Reading

theorem value?_record : (r.record t d).value? u = if u = t then some d else r.value? u := by
  simp only [value?, record, NameMap.get?_insert]
  split <;> rfl

/-- Records the digits of several tokens, one after the other. -/
def recordAll (r : Reading) (pairs : List (Text × Text)) : Reading :=
  pairs.foldl (fun r p => r.record p.1 p.2) r

theorem recordAll_cons {pairs : List (Text × Text)} :
    r.recordAll ((t, d) :: pairs) = (r.record t d).recordAll pairs := rfl

theorem tokens_recordAll (pairs : List (Text × Text)) :
    (r.recordAll pairs).tokens = r.tokens ++ pairs.map (·.1) := by
  induction pairs generalizing r with
  | nil => exact (List.append_nil _).symm
  | cons p ps ih => rw [recordAll_cons, ih, record, List.append_assoc]; rfl

theorem value?_recordAll_of_notMem {pairs : List (Text × Text)} (h : t ∉ pairs.map (·.1)) :
    (r.recordAll pairs).value? t = r.value? t := by
  induction pairs generalizing r with
  | nil => rfl
  | cons p ps ih =>
    rw [List.map_cons, List.mem_cons, not_or] at h
    rw [recordAll_cons, ih h.2, value?_record, if_neg h.1]

/-- A token that takes the same digits each time has those digits. -/
theorem value?_recordAll {pairs : List (Text × Text)} (hmem : (t, d) ∈ pairs)
    (hsame : ∀ d', (t, d') ∈ pairs → d' = d) : (r.recordAll pairs).value? t = some d := by
  induction pairs generalizing r with
  | nil => exact nomatch hmem
  | cons p ps ih =>
    rw [recordAll_cons]
    by_cases hps : (t, d) ∈ ps
    · exact ih hps fun d' hd' => hsame d' (.tail _ hd')
    · obtain rfl := (List.mem_cons.1 hmem).resolve_right hps
      rw [value?_recordAll_of_notMem, value?_record, if_pos rfl]
      intro hlater
      obtain ⟨⟨u, d'⟩, hd', rfl⟩ := List.mem_map.1 hlater
      exact hps (hsame d' (.tail _ hd') ▸ hd')

theorem value?_recordAll_of_nodup {pairs : List (Text × Text)} (hmem : (t, d) ∈ pairs)
    (hnodup : (pairs.map (·.1)).Nodup) : (r.recordAll pairs).value? t = some d := by
  refine value?_recordAll hmem fun d' hd' => ?_
  exact congrArg Prod.snd (List.inj_on_of_nodup_map hnodup hd' hmem rfl)

/-! ## What is noted -/

/-- Records an occurrence of a token with its slice, which counts if it can be used. -/
def note (r : Reading) (p : Text × Text) : Reading :=
  if Usable p then r.record p.1 p.2 else r.recordFailure p.1

def noteAll (r : Reading) (ps : List (Text × Text)) : Reading := ps.foldl note r

theorem noteAll_append : r.noteAll (ps ++ qs) = (r.noteAll ps).noteAll qs := List.foldl_append

theorem noteAll_of_usable (h : ∀ p ∈ ps, Usable p) : r.noteAll ps = r.recordAll ps := by
  induction ps generalizing r with
  | nil => rfl
  | cons p ps ih =>
    obtain ⟨hp, hps⟩ := List.forall_mem_cons.1 h
    have hnote : r.note p = r.record p.1 p.2 := if_pos hp
    exact (ih hps).trans (by rw [hnote]; rfl)

theorem tokens_note : (r.note p).tokens = r.tokens ++ [p.1] := by
  unfold note
  split <;> rfl

theorem tokens_noteAll : (r.noteAll ps).tokens = r.tokens ++ ps.map (·.1) := by
  induction ps generalizing r with
  | nil => exact (List.append_nil _).symm
  | cons p ps ih =>
    have hcons : r.noteAll (p :: ps) = (r.note p).noteAll ps := rfl
    rw [hcons, ih, tokens_note, List.append_assoc]
    rfl

theorem get?_recordFailure : (r.recordFailure t).raw.get? u =
    if u = t then some (r.value? t) else r.raw.get? u := by
  simp only [recordFailure, value?]
  split
  next h =>
    obtain ⟨v, hv⟩ := Option.isSome_iff_exists.1 h
    split
    next heq => rw [heq, hv, Option.join_some]
    next => rfl
  next h =>
    have hnone : r.raw.get? t = none := by simpa [NameMap.contains] using h
    rw [NameMap.get?_insert, hnone]
    rfl

theorem get?_note : (r.note p).raw.get? t =
    if t = p.1 then some ((lastUsable? [p] t).or (r.value? t)) else r.raw.get? t := by
  rw [lastUsable?_singleton]
  unfold note
  split
  next h =>
    rw [record, NameMap.get?_insert]
    split
    next heq => rw [if_pos ⟨heq, h⟩]; rfl
    next => rfl
  next h =>
    rw [get?_recordFailure]
    split
    next heq => rw [if_neg fun h' => h h'.2, heq]; rfl
    next => rfl

/-- The last slice that can be used counts, and a slice that cannot be used takes none away. -/
theorem get?_noteAll : (r.noteAll ps).raw.get? t =
    if t ∈ ps.map (·.1) then some ((lastUsable? ps t).or (r.value? t)) else r.raw.get? t := by
  induction ps using List.reverseRecOn with
  | nil => rfl
  | append_singleton ps p ih =>
    have hstep : r.noteAll (ps ++ [p]) = (r.noteAll ps).note p := noteAll_append
    have hvalue : (r.noteAll ps).value? t = (lastUsable? ps t).or (r.value? t) := by
      rw [value?, ih]
      split
      next => rfl
      next hmem => rw [lastUsable?_eq_none hmem]; rfl
    rw [hstep, get?_note, hvalue, ih, lastUsable?_append, Option.or_assoc]
    by_cases hp : t = p.1
    · simp [hp]
    · have hnone : lastUsable? [p] t = none := lastUsable?_eq_none (by simpa using hp)
      have hmem : t ∈ (ps ++ [p]).map (·.1) ↔ t ∈ ps.map (·.1) := by simp [hp]
      simp only [hnone, hmem, if_neg hp, Option.none_or]

theorem get?_noteAll_empty : (noteAll {} ps).raw.get? t =
    if t ∈ ps.map (·.1) then some (lastUsable? ps t) else none := by
  have hempty : (lastUsable? ps t).or (value? {} t) = lastUsable? ps t := Option.or_none
  rw [get?_noteAll, hempty]
  rfl

theorem get?_noteAll_of_usable (h : ∀ p ∈ ps, Usable p) :
    (noteAll {} ps).raw.get? t = (lastOf? ps t).map some := by
  rw [get?_noteAll_empty, lastUsable?_of_usable h]
  split
  next hmem =>
    obtain ⟨d, hd⟩ := Option.ne_none_iff_exists'.1 fun h => lastOf?_eq_none_iff.1 h hmem
    rw [hd, Option.map_some]
  next hmem => rw [lastOf?_eq_none_iff.2 hmem, Option.map_none]

theorem value?_noteAll_empty : (noteAll {} ps).value? t = lastUsable? ps t := by
  rw [value?, get?_noteAll_empty]
  split
  next => rfl
  next hmem => rw [lastUsable?_eq_none hmem]; rfl

theorem mem_names_noteAll_empty : t ∈ (noteAll {} ps).raw.names ↔ t ∈ ps.map (·.1) := by
  rw [NameMap.mem_names_iff_isSome, get?_noteAll_empty]
  split
  next h => exact ⟨fun _ => h, fun _ => rfl⟩
  next h => exact ⟨nofun, fun h' => absurd h' h⟩

theorem allFailed_eq_true_iff : r.allFailed = true ↔ r.tokens ≠ [] ∧ ∀ t, r.value? t = none := by
  have hentries : (∀ e ∈ r.raw.entries, e.2 = none) ↔ ∀ t, r.value? t = none := by
    simp only [value?, NameMap.mem_entries_iff]
    constructor
    · intro h t
      cases hget : r.raw.get? t with
      | none => rfl
      | some v => exact h (t, v) hget
    · intro h e he
      have hnone := h e.1
      rwa [he, Option.join_some] at hnone
  simp only [allFailed, Bool.and_eq_true, Bool.not_eq_true', List.isEmpty_eq_false_iff, ne_eq,
    List.all_eq_true, Option.isNone_iff_eq_none, hentries]

/-- No token has digits exactly when no slot can be used. -/
theorem allFailed_noteAll_iff :
    (noteAll {} ps).allFailed = true ↔ ps ≠ [] ∧ ∀ p ∈ ps, ¬Usable p := by
  have htokens : (noteAll {} ps).tokens = ps.map (·.1) := tokens_noteAll
  rw [allFailed_eq_true_iff, htokens, ne_eq, List.map_eq_nil_iff]
  simp only [value?_noteAll_empty, lastUsable?_eq_none_iff]
  exact and_congr_right fun _ =>
    ⟨fun h p hp hp' => h p.1 p hp hp' rfl, fun h _ p hp hp' => absurd hp' (h p hp)⟩

/-- The digits of a token that was read are as many as its name has characters. -/
structure Sound (r : Reading) : Prop where
  of_value : ∀ t d, r.value? t = some d → t ∈ r.tokens ∧ d.length = t.length ∧ d.all Char.isDigit

theorem sound_noteAll : (noteAll {} ps).Sound where
  of_value t d h := by
    rw [value?_noteAll_empty] at h
    obtain ⟨hmem, husable⟩ := mem_of_lastUsable? h
    rw [tokens_noteAll]
    exact ⟨List.mem_append_right _ (List.mem_map_of_mem hmem), husable⟩

/-- Every token that was read has digits. -/
structure Complete (r : Reading) : Prop extends Sound r where
  exists_value : ∀ t ∈ r.tokens, ∃ d, r.value? t = some d

theorem complete_noteAll (h : ∀ p ∈ ps, Usable p) : (noteAll {} ps).Complete where
  toSound := sound_noteAll
  exists_value t ht := by
    rw [tokens_noteAll] at ht
    obtain ⟨p, hp, rfl⟩ := List.mem_map.1 ((List.mem_append.1 ht).resolve_left List.not_mem_nil)
    rw [value?_noteAll_empty, ← Option.ne_none_iff_exists', ne_eq, lastUsable?_eq_none_iff]
    exact fun hnone => hnone p hp (h p hp) rfl

/-- A reading that lacks nothing does not count as failed. -/
theorem Complete.allFailed_eq_false (h : r.Complete) : r.allFailed = false := by
  rw [← Bool.not_eq_true, allFailed_eq_true_iff]
  rintro ⟨htokens, hnone⟩
  obtain ⟨t, ht⟩ := List.exists_mem_of_ne_nil _ htokens
  obtain ⟨d, hd⟩ := h.exists_value t ht
  exact nomatch (hnone t).symm.trans hd

end Reading

/-! ## One step -/

namespace Layout.Segment

/-- A slice that does not fit the segment ends the reading. -/
def IsChecked (mode : ParseMode) (policy : ErrorPolicy) : Segment → Prop
  | .token _ => policy = .throw
  | _ => mode = .strict

instance : Decidable (s.IsChecked mode policy) :=
  match s with
  | .token _ | .literal _ | .escaped _ | .word _ => inferInstanceAs (Decidable (_ = _))

/-- The error of a segment that begins at a position and does not fit its slice. -/
def misfit (position : Nat) (slice : Text) : Segment → ConversionError
  | .token t => if slice.length < t.length then .tooShort t else .notNumeric t slice
  | s => .literalMismatch s.text position

theorem isChecked_strict_throw : s.IsChecked .strict .throw := by
  cases s <;> rfl

/-- Looser settings check less. -/
theorem IsChecked.throw (h : s.IsChecked mode' policy)
    (hmode : mode' = .positional ∨ mode' = mode) : s.IsChecked mode .throw := by
  cases s with
  | token _ => rfl
  | literal _ | escaped _ | word _ =>
    rcases hmode with rfl | rfl
    · exact nomatch h
    · exact h

end Layout.Segment

namespace Cursor

theorem sliceError?_of_usable (h : Usable (t, d)) : sliceError? t d = none := by
  have hlt : ¬d.length < t.length := Nat.not_lt.2 (Nat.le_of_eq h.1.symm)
  simp only [sliceError?, if_neg hlt, h.2, if_true]

theorem sliceError?_of_not_usable (hle : d.length ≤ t.length) (h : ¬Usable (t, d)) (pos : Nat) :
    sliceError? t d = some ((Segment.token t).misfit pos d) := by
  unfold sliceError? Segment.misfit
  by_cases hlt : d.length < t.length
  · simp only [if_pos hlt]
  · have hdigits : ¬d.all Char.isDigit := fun hd =>
      h ⟨Nat.le_antisymm hle (Nat.le_of_not_lt hlt), hd⟩
    simp only [if_neg hlt, if_neg hdigits]

/-- The state behind segments of which none ends the reading. -/
def after (c : Cursor) (segs : List Segment) : Cursor :=
  { c.advance (width segs) with reading := c.reading.noteAll (taken segs (slices segs c.rest)) }

theorem after_nil : c.after [] = c := by
  simp only [after, advance, width_nil, List.drop_zero, List.take_zero, List.length_nil,
    Nat.add_zero]
  rfl

theorem after_singleton : c.after [s] = { c.advance s.text.length with
    reading := c.reading.noteAll (s.token?.map (·, c.rest.take s.text.length)).toList } := by
  rw [after, slices_cons, taken_cons]
  exact congrArg _ (congrArg _ (List.append_nil _))

theorem after_cons (c : Cursor) (s : Segment) (segs : List Segment) :
    (c.after [s]).after segs = c.after (s :: segs) := by
  have hpos : (c.rest.take s.text.length).length +
      ((c.rest.drop s.text.length).take (width segs)).length =
        (c.rest.take (s.text.length + width segs)).length := by
    rw [← List.length_append, ← List.take_add]
  simp only [after, advance, width_cons, width_nil, Nat.add_zero, List.drop_drop, slices_cons,
    taken_cons, Reading.noteAll_append, Nat.add_assoc, hpos]
  rfl

/-- What a step can do. -/
theorem step_eq : step mode policy c s =
    if s.IsChecked mode policy ∧ ¬s.Fits (c.rest.take s.text.length) then
      .error (s.misfit c.position (c.rest.take s.text.length))
    else .ok (c.after [s]) := by
  cases s with
  | token t =>
    have hafter : c.after [.token t] = { c.advance t.length with
      reading := c.reading.note (t, c.rest.take t.length) } := after_singleton
    have hfits : (Segment.token t).Fits (c.rest.take t.length) ↔
        Usable (t, c.rest.take t.length) := Iff.rfl
    simp only [step, Segment.text, hafter, hfits, Segment.IsChecked]
    by_cases h : Usable (t, c.rest.take t.length)
    · simp only [sliceError?_of_usable h, h, not_true, and_false, if_false, Reading.note, if_true]
    · simp only [sliceError?_of_not_usable (List.length_take_le ..) h c.position]
      cases policy with
      | silent => simp only [h, if_false, reduceCtorEq, false_and, Reading.note]
      | throw => simp only [h, not_false_eq_true, and_self, if_true]
  | literal _ | escaped _ | word _ => rfl

theorem step_eq_error_iff : step mode policy c s = .error e ↔ s.IsChecked mode policy ∧
    ¬s.Fits (c.rest.take s.text.length) ∧
      s.misfit c.position (c.rest.take s.text.length) = e := by
  rw [step_eq]
  split
  next h => rw [Except.error.injEq, and_iff_right h.1, and_iff_right h.2]
  next h => exact ⟨nofun, fun h' => absurd ⟨h'.1, h'.2.1⟩ h⟩

/-! ## All steps -/

/-- Every segment that is checked fits its slice. -/
def Passes (mode : ParseMode) (policy : ErrorPolicy) (segs : List Segment) (input : Text) : Prop :=
  List.Forall₂ (fun s slice => s.IsChecked mode policy → s.Fits slice) segs (slices segs input)

theorem passes_cons : Passes mode policy (s :: segs) input ↔
    (s.IsChecked mode policy → s.Fits (input.take s.text.length)) ∧
      Passes mode policy segs (input.drop s.text.length) := by
  rw [Passes, slices_cons, List.forall₂_cons]
  rfl

theorem foldlM_step_eq_ok_iff : segs.foldlM (step mode policy) c = .ok c' ↔
    Passes mode policy segs c.rest ∧ c.after segs = c' := by
  induction segs generalizing c with
  | nil =>
    rw [List.foldlM_nil, after_nil]
    exact ⟨fun h => ⟨.nil, Except.ok.inj h⟩, fun h => congrArg _ h.2⟩
  | cons s ss ih =>
    rw [List.foldlM_cons, step_eq, passes_cons]
    split
    next h => exact ⟨nofun, fun h' => absurd (h'.1.1 h.1) h.2⟩
    next h =>
      have hs : s.IsChecked mode policy → s.Fits (c.rest.take s.text.length) := by
        simpa only [not_and, not_not] using h
      rw [and_iff_right hs, ← after_cons c s ss]
      exact ih

theorem foldlM_step_eq_error_iff : segs.foldlM (step mode policy) c = .error e ↔
    ∃ before s behind, segs = before ++ s :: behind ∧ Passes mode policy before c.rest ∧
      s.IsChecked mode policy ∧ ¬s.Fits ((c.rest.drop (width before)).take s.text.length) ∧
        s.misfit (c.after before).position
          ((c.rest.drop (width before)).take s.text.length) = e := by
  simp only [foldlM_eq_error_iff, foldlM_step_eq_ok_iff, step_eq_error_iff]
  constructor
  · rintro ⟨before, s, behind, _, rfl, ⟨hbefore, rfl⟩, hs⟩
    exact ⟨before, s, behind, rfl, hbefore, hs⟩
  · rintro ⟨before, s, behind, rfl, hbefore, hs⟩
    exact ⟨before, s, behind, _, rfl, ⟨hbefore, rfl⟩, hs⟩

theorem passes_strict_throw_iff :
    Passes .strict .throw segs input ↔ List.Forall₂ Segment.Fits segs (slices segs input) := by
  simp only [Passes, Segment.isChecked_strict_throw, true_implies]

theorem passes_of_fits (h : List.Forall₂ Segment.Fits segs (slices segs input)) :
    Passes mode policy segs input :=
  h.imp fun s _ hfits (_ : s.IsChecked mode policy) => hfits

theorem Passes.of_throw (h : Passes mode .throw segs input)
    (hmode : mode' = .positional ∨ mode' = mode) : Passes mode' policy segs input :=
  h.imp fun _ _ hfits hchecked => hfits (hchecked.throw hmode)

/-- Under `throw` all tokens have digits. -/
theorem Passes.usable (h : Passes mode .throw segs input) :
    ∀ p ∈ taken segs (slices segs input), Usable p := fun _ hp =>
  List.forall₂_zip h (exists_of_mem_taken hp) rfl

/-! ## The end -/

/-- In strict mode nothing may be left, and there must be a year. -/
theorem finish_eq_ok_iff : c.finish mode = .ok r ↔ c.reading = r ∧
    (mode = .strict →
      c.rest = [] ∧ (Builtin.yyyy.name ∈ r.raw.names ∨ Builtin.yy.name ∈ r.raw.names)) := by
  cases mode with
  | positional => simp only [finish, Except.ok.injEq, reduceCtorEq, false_implies, and_true]
  | strict =>
    simp only [finish, true_implies, ← NameMap.contains_eq_true_iff, ← Bool.or_eq_true]
    split
    next hrest => exact ⟨nofun, fun h => absurd h.2.1 hrest⟩
    next hrest =>
      split
      next hyear =>
        constructor
        · intro h
          cases h
          exact ⟨rfl, Classical.not_not.1 hrest, hyear⟩
        · rintro ⟨rfl, -⟩
          rfl
      next hyear =>
        refine ⟨nofun, ?_⟩
        rintro ⟨rfl, -, h⟩
        exact absurd h hyear

theorem finish_eq_error_iff : c.finish mode = .error e ↔ mode = .strict ∧
    (c.rest ≠ [] ∧ .trailingInput c.position c.rest = e ∨ c.rest = [] ∧
      ¬(Builtin.yyyy.name ∈ c.reading.raw.names ∨ Builtin.yy.name ∈ c.reading.raw.names) ∧
        .missingYear = e) := by
  cases mode with
  | positional => exact ⟨nofun, nofun⟩
  | strict =>
    simp only [finish, true_and, ← NameMap.contains_eq_true_iff, ← Bool.or_eq_true]
    split
    next hrest => simp [hrest]
    next hrest =>
      rw [ne_eq, Classical.not_not] at hrest
      split
      next hyear => simp [hrest, hyear]
      next hyear => simp [hrest, hyear]

end Cursor

/-! ## Whole inputs -/

/-- A segment asks for a year. -/
def Layout.NamesYear (segs : List Segment) : Prop :=
  .token Builtin.yyyy.name ∈ segs ∨ .token Builtin.yy.name ∈ segs

namespace Reading

variable {names : List Text} {layout : Text}

theorem namesYear_iff (input : Text) : NamesYear (segments names layout) ↔
    Builtin.yyyy.name ∈ (noteAll {} (slots names layout input)).raw.names ∨
      Builtin.yy.name ∈ (noteAll {} (slots names layout input)).raw.names := by
  simp only [mem_names_noteAll_empty, map_fst_slots, mem_filterMap_token?]
  rfl

theorem ofInput_eq_ok_iff : ofInput names mode policy layout input = .ok r ↔
    Cursor.Passes mode policy (segments names layout) input ∧
      (mode = .strict → input.drop (width (segments names layout)) = [] ∧
        NamesYear (segments names layout)) ∧
      noteAll {} (slots names layout input) = r := by
  simp only [ofInput, bind_eq_ok_iff, Cursor.foldlM_step_eq_ok_iff, Cursor.finish_eq_ok_iff,
    namesYear_iff input]
  constructor
  · rintro ⟨_, ⟨hpasses, rfl⟩, rfl, hend⟩
    exact ⟨hpasses, hend, rfl⟩
  · rintro ⟨hpasses, hend, rfl⟩
    exact ⟨_, ⟨hpasses, rfl⟩, rfl, hend⟩

theorem ofInput_eq_error_iff : ofInput names mode policy layout input = .error e ↔
    (∃ before s behind, segments names layout = before ++ s :: behind ∧
      Cursor.Passes mode policy before input ∧ s.IsChecked mode policy ∧
        ¬s.Fits ((input.drop (width before)).take s.text.length) ∧
          s.misfit (min (width before) input.length)
            ((input.drop (width before)).take s.text.length) = e) ∨
    Cursor.Passes mode policy (segments names layout) input ∧ mode = .strict ∧
      (input.drop (width (segments names layout)) ≠ [] ∧
          .trailingInput (min (width (segments names layout)) input.length)
            (input.drop (width (segments names layout))) = e ∨
        input.drop (width (segments names layout)) = [] ∧
          ¬NamesYear (segments names layout) ∧ .missingYear = e) := by
  have hposition : ∀ segs, ((⟨input, 0, {}⟩ : Cursor).after segs).position =
      min (width segs) input.length := fun _ =>
    (Nat.zero_add _).trans List.length_take
  simp only [ofInput, bind_eq_error_iff, Cursor.foldlM_step_eq_error_iff,
    Cursor.foldlM_step_eq_ok_iff, Cursor.finish_eq_error_iff, namesYear_iff input, hposition]
  refine or_congr_right ?_
  constructor
  · rintro ⟨_, ⟨hpasses, rfl⟩, hend⟩
    rw [hposition] at hend
    exact ⟨hpasses, hend⟩
  · rintro ⟨hpasses, hend⟩
    refine ⟨_, ⟨hpasses, rfl⟩, ?_⟩
    rw [hposition]
    exact hend

theorem sound_of_ofInput (h : ofInput names mode policy layout input = .ok r) : r.Sound := by
  obtain ⟨-, -, rfl⟩ := ofInput_eq_ok_iff.1 h
  exact sound_noteAll

theorem tokens_of_ofInput (h : ofInput names mode policy layout input = .ok r) :
    r.tokens = (segments names layout).filterMap Segment.token? := by
  obtain ⟨-, -, rfl⟩ := ofInput_eq_ok_iff.1 h
  rw [tokens_noteAll, map_fst_slots]
  rfl

theorem ofInput_of_throw (h : ofInput names mode .throw layout input = .ok r)
    (hmode : mode' = .positional ∨ mode' = mode) :
    ofInput names mode' policy layout input = .ok r := by
  obtain ⟨hpasses, hend, hr⟩ := ofInput_eq_ok_iff.1 h
  refine ofInput_eq_ok_iff.2 ⟨hpasses.of_throw hmode, fun hstrict => hend ?_, hr⟩
  rcases hmode with rfl | rfl
  · exact nomatch hstrict
  · exact hstrict

theorem complete_of_ofInput (h : ofInput names mode .throw layout input = .ok r) : r.Complete := by
  obtain ⟨hpasses, -, rfl⟩ := ofInput_eq_ok_iff.1 h
  exact complete_noteAll hpasses.usable

/-- In strict mode only inputs made of fitting pieces are read. -/
theorem exists_fits_of_ofInput (h : ofInput names .strict .throw layout input = .ok r) :
    ∃ pieces, List.Forall₂ Segment.Fits (segments names layout) pieces ∧ input = pieces.flatten ∧
      r = recordAll {} (Cursor.taken (segments names layout) pieces) := by
  obtain ⟨hpasses, hend, rfl⟩ := ofInput_eq_ok_iff.1 h
  refine ⟨_, Cursor.passes_strict_throw_iff.1 hpasses, ?_, noteAll_of_usable hpasses.usable⟩
  rw [flatten_slices, List.take_of_length_le (List.drop_eq_nil_iff.1 (hend rfl).1)]

/-- In strict mode there is a year. -/
theorem year_mem_of_ofInput (h : ofInput names .strict .throw layout input = .ok r) :
    Builtin.yyyy.name ∈ r.tokens ∨ Builtin.yy.name ∈ r.tokens := by
  obtain ⟨-, hend, -⟩ := ofInput_eq_ok_iff.1 h
  rw [tokens_of_ofInput h, mem_filterMap_token?, mem_filterMap_token?]
  exact (hend rfl).2

/-- Inputs made of fitting pieces are read in every mode; strict mode asks for a year. -/
theorem ofInput_of_fits (hfits : List.Forall₂ Segment.Fits (segments names layout) pieces)
    (hr : r = recordAll {} (Cursor.taken (segments names layout) pieces))
    (hyear : mode = .strict → NamesYear (segments names layout)) :
    ofInput names mode policy layout pieces.flatten = .ok r := by
  obtain ⟨hslices, hdrop⟩ := exists_fits_flatten_iff.1 ⟨pieces, hfits, rfl⟩
  have hpieces : slices (segments names layout) pieces.flatten = pieces := by
    simpa only [List.append_nil] using slices_of_fits hfits []
  have hpasses : Cursor.Passes mode .throw (segments names layout) pieces.flatten :=
    Cursor.passes_of_fits hslices
  refine ofInput_eq_ok_iff.2
    ⟨Cursor.passes_of_fits hslices, fun hstrict => ⟨hdrop, hyear hstrict⟩, ?_⟩
  rw [hr, ← noteAll_of_usable (hpieces ▸ hpasses.usable), slots, hpieces]

end Reading

end Relayout
