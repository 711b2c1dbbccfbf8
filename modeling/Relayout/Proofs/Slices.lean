import Mathlib.Data.List.Forall2
import Relayout.Layout.Segment
import Relayout.NameMap

/-!
# The places of segments in an input

The place of a segment in an input is as wide as the segment and lies behind the places of the
segments before it. `Layout.slices` are the characters at these places, `Layout.slots` those of the
tokens. An input begins with pieces that fit the segments exactly when its slices fit them
(`Layout.exists_fits_iff`).
-/

namespace Relayout

open Layout

variable {s : Segment} {segs : List Segment} {t d input rest piece : Text} {pieces : List Text}
  {p : Text × Text} {ps qs : List (Text × Text)}

namespace Layout

/-! ## Segments and pieces -/

/-- The name of a token segment. -/
def Segment.token? : Segment → Option Text
  | .token t => some t
  | _ => none

/-- The piece is what the segment stands for in an input: as many digits as the token has
characters, or the text itself. -/
def Segment.Fits : Segment → Text → Prop
  | .token t, piece => piece.length = t.length ∧ piece.all Char.isDigit
  | s, piece => piece = s.text

instance : Decidable (s.Fits piece) :=
  match s with
  | .token _ => inferInstanceAs (Decidable (_ ∧ _))
  | .literal _ | .escaped _ | .word _ => inferInstanceAs (Decidable (_ = _))

theorem Segment.token?_eq_some_iff : s.token? = some t ↔ s = .token t := by
  cases s with
  | token u => exact ⟨fun h => congrArg _ (Option.some.inj h), fun h => congrArg _ (token.inj h)⟩
  | literal _ | escaped _ | word _ => exact ⟨nofun, nofun⟩

theorem Segment.fits_of_token?_eq_none (h : s.token? = none) :
    s.Fits piece ↔ piece = s.text := by
  cases s with
  | token t => exact nomatch h
  | literal _ | escaped _ | word _ => rfl

theorem Segment.Fits.length_eq (h : s.Fits piece) : piece.length = s.text.length := by
  cases s with
  | token t => exact h.1
  | literal _ | escaped _ | word _ => exact congrArg List.length h

theorem mem_filterMap_token? : t ∈ segs.filterMap Segment.token? ↔ .token t ∈ segs := by
  simp only [List.mem_filterMap, Segment.token?_eq_some_iff, exists_eq_right]

/-! ## Slices -/

/-- Number of characters that segments stand for. -/
def width : List Segment → Nat
  | [] => 0
  | s :: segs => s.text.length + width segs

/-- The characters of an input at the place of each segment, as far as the input reaches. -/
def slices (segs : List Segment) (input : Text) : List Text :=
  segs.mapIdx fun i s =>
    let start := min input.length (width (segs.take i))
    input.extract start (min (start + s.text.length) input.length)

@[simp] theorem width_nil : width [] = 0 := rfl

@[simp] theorem width_cons : width (s :: segs) = s.text.length + width segs := rfl

theorem extract_min (input : Text) (k w : Nat) :
    input.extract (min input.length k) (min (min input.length k + w) input.length) =
      (input.drop k).take w := by
  rcases Nat.le_total k input.length with h | h
  · rw [Nat.min_eq_right h, List.extract_eq_take_drop, List.take_eq_take_iff, List.length_drop]
    omega
  · rw [Nat.min_eq_left h, List.extract_eq_take_drop, List.drop_eq_nil_of_le h, List.drop_length,
      List.take_nil, List.take_nil]

/-- The first segment takes its characters, and the others have their places in what is left. -/
theorem slices_cons : slices (s :: segs) input =
    input.take s.text.length :: slices segs (input.drop s.text.length) := by
  simp only [slices, extract_min, List.mapIdx_cons, List.take_zero, width_nil, List.drop_zero,
    List.take_succ_cons, width_cons, List.drop_drop]

theorem slices_append {behind : List Segment} : slices (segs ++ behind) input =
    slices segs input ++ slices behind (input.drop (width segs)) := by
  induction segs generalizing input with
  | nil => rfl
  | cons s ss ih =>
    rw [List.cons_append, slices_cons, slices_cons, ih, List.drop_drop, width_cons]
    rfl

theorem length_slices : (slices segs input).length = segs.length := List.length_mapIdx

theorem flatten_slices : (slices segs input).flatten = input.take (width segs) := by
  induction segs generalizing input with
  | nil => rfl
  | cons s ss ih => rw [slices_cons, List.flatten_cons, ih, width_cons, List.take_add]

theorem length_flatten_of_fits (h : List.Forall₂ Segment.Fits segs pieces) :
    pieces.flatten.length = width segs := by
  induction h with
  | nil => rfl
  | cons hfits _ ih => rw [List.flatten_cons, List.length_append, ih, width_cons, hfits.length_eq]

/-- Pieces that fit are the slices of an input that begins with them. -/
theorem slices_of_fits (h : List.Forall₂ Segment.Fits segs pieces) (rest : Text) :
    slices segs (pieces.flatten ++ rest) = pieces := by
  induction h with
  | nil => rfl
  | cons hfits _ ih =>
    rw [slices_cons, List.flatten_cons, List.append_assoc, ← hfits.length_eq, List.take_left,
      List.drop_left, ih]

theorem drop_of_fits (h : List.Forall₂ Segment.Fits segs pieces) (rest : Text) :
    (pieces.flatten ++ rest).drop (width segs) = rest :=
  List.drop_left' (length_flatten_of_fits h)

theorem exists_fits_iff (segs : List Segment) (input rest : Text) :
    (∃ pieces, List.Forall₂ Segment.Fits segs pieces ∧ input = pieces.flatten ++ rest) ↔
      List.Forall₂ Segment.Fits segs (slices segs input) ∧ input.drop (width segs) = rest := by
  constructor
  · rintro ⟨pieces, h, rfl⟩
    exact ⟨(slices_of_fits h rest).symm ▸ h, drop_of_fits h rest⟩
  · rintro ⟨h, rfl⟩
    exact ⟨_, h, by rw [flatten_slices, List.take_append_drop]⟩

theorem exists_fits_flatten_iff :
    (∃ pieces, List.Forall₂ Segment.Fits segs pieces ∧ input = pieces.flatten) ↔
      List.Forall₂ Segment.Fits segs (slices segs input) ∧ input.drop (width segs) = [] := by
  simpa only [List.append_nil] using exists_fits_iff segs input []

/-- What is left of an input behind fitting pieces. -/
theorem exists_fits_rest_iff {P : Text → Prop} :
    (∃ pieces rest, List.Forall₂ Segment.Fits segs pieces ∧ input = pieces.flatten ++ rest ∧
        P rest) ↔
      List.Forall₂ Segment.Fits segs (slices segs input) ∧ P (input.drop (width segs)) := by
  constructor
  · rintro ⟨pieces, rest, hfits, hinput, hrest⟩
    obtain ⟨hslices, rfl⟩ := (exists_fits_iff segs input rest).1 ⟨pieces, hfits, hinput⟩
    exact ⟨hslices, hrest⟩
  · rintro ⟨hslices, hrest⟩
    obtain ⟨pieces, hfits, hinput⟩ := (exists_fits_iff segs input _).2 ⟨hslices, rfl⟩
    exact ⟨pieces, _, hfits, hinput, hrest⟩

theorem width_le_of_fits (h : List.Forall₂ Segment.Fits segs (slices segs input)) :
    width segs ≤ input.length := by
  have hlen := length_flatten_of_fits h
  rw [flatten_slices, List.length_take] at hlen
  omega

end Layout

/-! ## Tokens with their pieces -/

/-- The tokens among the segments, each with its piece. -/
def Cursor.taken (segs : List Segment) (pieces : List Text) : List (Text × Text) :=
  (segs.zip pieces).filterMap fun p => p.1.token?.map (·, p.2)

namespace Cursor

theorem taken_cons : taken (s :: segs) (piece :: pieces) =
    (s.token?.map (·, piece)).toList ++ taken segs pieces := by
  cases hs : s.token? <;> simp [taken, hs]

theorem taken_append {behind : List Segment} {others : List Text}
    (h : segs.length = pieces.length) :
    taken (segs ++ behind) (pieces ++ others) = taken segs pieces ++ taken behind others := by
  rw [taken, List.zip_append h, List.filterMap_append]
  rfl

theorem mem_taken (h : (s, piece) ∈ segs.zip pieces) (hs : s.token? = some t) :
    (t, piece) ∈ taken segs pieces :=
  List.mem_filterMap.2 ⟨_, h, by rw [hs]; rfl⟩

theorem exists_of_mem_taken (h : p ∈ taken segs pieces) : (.token p.1, p.2) ∈ segs.zip pieces := by
  obtain ⟨⟨s, piece⟩, hmem, heq⟩ := List.mem_filterMap.1 h
  obtain ⟨t, ht, rfl⟩ := Option.map_eq_some_iff.1 heq
  exact Segment.token?_eq_some_iff.1 ht ▸ hmem

/-- Where the piece of a segment is known from the segment. -/
theorem mem_taken_map {g : Segment → Text} :
    (t, d) ∈ taken segs (segs.map g) ↔ .token t ∈ segs ∧ d = g (.token t) := by
  simp only [taken, ← List.map_prod_left_eq_zip, List.mem_filterMap, List.mem_map,
    Option.map_eq_some_iff, Prod.mk.injEq]
  constructor
  · rintro ⟨_, ⟨s, hs, rfl⟩, u, hu, rfl, rfl⟩
    obtain rfl := Segment.token?_eq_some_iff.1 hu
    exact ⟨hs, rfl⟩
  · rintro ⟨hs, rfl⟩
    exact ⟨_, ⟨_, hs, rfl⟩, t, rfl, rfl, rfl⟩

theorem map_fst_taken (h : segs.length = pieces.length) :
    (taken segs pieces).map (·.1) = segs.filterMap Segment.token? := by
  induction segs generalizing pieces with
  | nil => rfl
  | cons s ss ih =>
    cases pieces with
    | nil => exact nomatch h
    | cons p ps =>
      rw [taken_cons, List.map_append, ih (Nat.succ.inj h)]
      cases hs : s.token? with
      | none => rw [List.filterMap_cons_none hs]; rfl
      | some t => rw [List.filterMap_cons_some hs]; rfl

end Cursor

namespace Layout

/-- The tokens of a layout in order, each with the characters of the input at its place. -/
def slots (names : List Text) (layout input : Text) : List (Text × Text) :=
  Cursor.taken (segments names layout) (slices (segments names layout) input)

theorem map_fst_slots {names : List Text} {layout : Text} :
    (slots names layout input).map (·.1) = (segments names layout).filterMap Segment.token? :=
  Cursor.map_fst_taken length_slices.symm

/-! ## What can be used -/

/-- The slice of the token is digits, as many as the token has characters. -/
def Usable (p : Text × Text) : Prop := p.2.length = p.1.length ∧ p.2.all Char.isDigit

instance : DecidablePred Usable := fun _ => inferInstanceAs (Decidable (_ ∧ _))

/-- The text that a list has for the last occurrence of a token. -/
def lastOf? (ps : List (Text × Text)) (t : Text) : Option Text := ps.reverse.lookup t

/-- The slice of the last occurrence of a token that can be used. -/
def lastUsable? (ps : List (Text × Text)) (t : Text) : Option Text := lastOf? (ps.filter Usable) t

theorem lastOf?_append : lastOf? (ps ++ qs) t = (lastOf? qs t).or (lastOf? ps t) := by
  rw [lastOf?, List.reverse_append, List.lookup_append]
  rfl

theorem mem_of_lastOf? (h : lastOf? ps t = some d) : (t, d) ∈ ps := by
  obtain ⟨l₁, l₂, heq, -⟩ := List.lookup_eq_some_iff.1 h
  rw [← List.mem_reverse, heq]
  exact List.mem_append_right _ (.head _)

theorem lastOf?_eq_none_iff : lastOf? ps t = none ↔ t ∉ ps.map (·.1) := by
  simp only [lastOf?, List.lookup_eq_none_iff, List.mem_reverse, bne_iff_ne, ne_eq,
    List.mem_map, not_exists, not_and, eq_comm (a := t)]

theorem lastUsable?_append :
    lastUsable? (ps ++ qs) t = (lastUsable? qs t).or (lastUsable? ps t) := by
  rw [lastUsable?, List.filter_append, lastOf?_append]
  rfl

theorem lastUsable?_singleton :
    lastUsable? [p] t = if t = p.1 ∧ Usable p then some p.2 else none := by
  by_cases h : Usable p <;> simp [lastUsable?, lastOf?, h, NameMap.lookup_cons]

theorem mem_of_lastUsable? (h : lastUsable? ps t = some d) : (t, d) ∈ ps ∧ Usable (t, d) := by
  simpa only [List.mem_filter, decide_eq_true_eq] using mem_of_lastOf? h

theorem lastUsable?_eq_none_iff :
    lastUsable? ps t = none ↔ ∀ p ∈ ps, Usable p → p.1 ≠ t := by
  simp only [lastUsable?, lastOf?_eq_none_iff, List.mem_map, List.mem_filter, decide_eq_true_eq,
    not_exists, not_and, and_imp, ne_eq]

theorem lastUsable?_eq_none (h : t ∉ ps.map (·.1)) : lastUsable? ps t = none :=
  lastUsable?_eq_none_iff.2 fun _ hp _ heq => h (heq ▸ List.mem_map_of_mem hp)

theorem lastUsable?_of_usable (h : ∀ p ∈ ps, Usable p) : lastUsable? ps t = lastOf? ps t := by
  rw [lastUsable?, List.filter_eq_self.2 fun p hp => decide_eq_true (h p hp)]

end Layout

end Relayout
