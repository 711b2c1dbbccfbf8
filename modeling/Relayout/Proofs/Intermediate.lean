import Relayout.Proofs.RoundTrip

/-!
# Conversion through another layout

A date that is written in a layout of padded numbers loses nothing: the layout reads it back with
the same numbers (`exists_reading`). A conversion from there goes on as one from the input
itself (`Options.convert_through`).
-/

namespace Relayout

open Layout

variable {mode : ParseMode} {r : Reading} {parts : DateParts} {ts : List Builtin} {t u : Builtin}
  {layout d : Text} {f : Field}

namespace Builtin

/-- The padded number of a field. -/
def padded : Field → Builtin
  | .year => yyyy
  | .month => MM
  | .day => dd
  | .hour => HH
  | .minute => mm
  | .second => ss

theorem isNumber_padded (f : Field) : (padded f).form.isNumber := by cases f <;> rfl

theorem eq_padded (h : t ∈ [yyyy, MM, dd, HH, mm, ss]) : t = padded t.field := by
  cases t with
  | yyyy | MM | dd | HH | mm | ss => rfl
  | yy | MMMM | MMM | M | d | H | m | s => exact absurd h (by decide)

/-- The padded number is the widest. -/
theorem length_name_le_padded (h : t.form.isNumber) :
    t.name.length ≤ (padded t.field).name.length := by
  cases t with
  | yy | MMMM | MMM => exact nomatch h
  | yyyy | MM | M | dd | d | HH | H | mm | m | ss | s => decide

end Builtin

/-! ## What is read has room in the padded number -/

/-- The value is a number that the padded token of the field can write. -/
def DateParts.HasRoom (parts : DateParts) (f : Field) : Prop :=
  ∃ (v : Int64) (k : Nat), parts.get f = some v ∧ v.toInt = k ∧
    k < 10 ^ (Builtin.padded f).name.length

theorem Reading.Complete.hasRoom_of_value (hc : r.Complete) (ht : t.form.isNumber)
    (hvalue : r.value? t.name = some d) {v : Int64} (hread : Decimal.readInt64? d = some v)
    (hget : parts.get t.field = some v) : parts.HasRoom t.field := by
  obtain ⟨-, hlen, hd⟩ := hc.of_value _ _ hvalue
  refine ⟨v, _, hget, Builtin.toInt_of_read hlen hd hread, ?_⟩
  calc Nat.ofDigitChars 10 d 0
    _ < 10 ^ t.name.length := hlen ▸ Decimal.ofDigitChars_lt hd
    _ ≤ _ := Nat.pow_le_pow_right (by decide) (Builtin.length_name_le_padded ht)

/-- Without a converter each field of a token that is no month name has its number. -/
theorem Reading.Complete.hasRoom (hc : r.Complete) (htokens : r.tokens = ts.map Builtin.name)
    (hparts : DateParts.ofReading r none .throw = .ok parts) (hu : u ∈ ts) (hMMMM : u ≠ .MMMM)
    (hMMM : u ≠ .MMM) : parts.HasRoom u.field := by
  have hnumber : ∀ (t : Builtin) e, t.form.isNumber → r.value? t.name = some e →
      parts.HasRoom t.field := by
    intro t e ht hvalue
    obtain ⟨t', hfield, ht', d, v, hvalue', hread, hget⟩ :=
      DateParts.exists_get_of_value hparts ht hvalue
    rw [← hfield] at hget ⊢
    exact hc.hasRoom_of_value ht' hvalue' hread hget
  obtain ⟨e, hvalue, -⟩ := hc.exists_value_of_mem htokens hu
  cases u with
  | yy =>
    cases hyyyy : r.value? Builtin.yyyy.name with
    | some d => exact hnumber .yyyy d rfl hyyyy
    | none =>
      -- a two-digit year alone is refused where there is no converter
      obtain ⟨_, _, _, hexpand, _⟩ :=
        (year_of_yy hyyyy hvalue).1 (DateParts.ofReading_eq_ok_iff.1 hparts).1
      exact nomatch hexpand
  | MMMM => exact absurd rfl hMMMM
  | MMM => exact absurd rfl hMMM
  | yyyy | MM | M | dd | d | HH | H | mm | m | ss | s => exact hnumber _ e rfl hvalue

/-! ## Padded numbers are read back -/

/-- All tokens of the layout are padded numbers. -/
def Builtin.AllPadded (layout : Text) : Prop :=
  ∀ t ∈ tokens layout, t ∈ [yyyy, MM, dd, HH, mm, ss]

theorem DateParts.HasRoom.of_eq_padded (h : parts.HasRoom t.field)
    (ht : t = Builtin.padded t.field) : t.HasRoom parts := by
  obtain ⟨v, k, hget, hv, hk⟩ := h
  rw [← ht] at hk
  exact ⟨ht ▸ Builtin.isNumber_padded _, v, k, hget, hv, hk⟩

/-- What is written with padded numbers is read back with the same numbers. -/
theorem exists_reading (hpadded : Builtin.AllPadded layout)
    (hroom : ∀ t ∈ Builtin.tokens layout, parts.HasRoom t.field)
    (hyear : mode = .strict → .yyyy ∈ Builtin.tokens layout) :
    ∃ r parts', Reading.ofInput Builtin.names mode .throw layout
        ((segments Builtin.names layout).flatMap (Segment.written parts)) = .ok r ∧
      DateParts.ofReading r none .throw = .ok parts' ∧
      ∀ f, parts'.get f = if f ∈ (Builtin.tokens layout).map Builtin.field then parts.get f
        else none := by
  have hnumbers : ∀ t ∈ Builtin.tokens layout, t.HasRoom parts := fun t ht =>
    (hroom t ht).of_eq_padded (Builtin.eq_padded (hpadded t ht))
  obtain ⟨r, hreading, hparts⟩ := exists_reading_of_hasRoom hnumbers hyear
  obtain ⟨parts', hparts', hget⟩ := hparts none .throw
  exact ⟨r, parts', hreading .throw, hparts', hget⟩

/-- In strict mode the input layout names a year, and so does a layout of the same fields. -/
theorem yyyy_mem_tokens {inputLayout input : Text} (hpadded : Builtin.AllPadded layout)
    (hfields : ∀ f, f ∈ (Builtin.tokens inputLayout).map Builtin.field ↔
      f ∈ (Builtin.tokens layout).map Builtin.field)
    (hreading : Reading.ofInput Builtin.names .strict .throw inputLayout input = .ok r) :
    .yyyy ∈ Builtin.tokens layout := by
  have htokens := Reading.tokens_of_ofInput hreading
  rw [← Builtin.map_name_tokens] at htokens
  obtain ⟨u, hu, hfield⟩ : ∃ u ∈ Builtin.tokens inputLayout, u.field = .year := by
    rcases Reading.year_mem_of_ofInput hreading with h | h
    · exact ⟨.yyyy, Sources.name_mem_map.1 (htokens ▸ h), rfl⟩
    · exact ⟨.yy, Sources.name_mem_map.1 (htokens ▸ h), rfl⟩
  obtain ⟨t, ht, htfield⟩ := List.mem_map.1 ((hfields _).1 (List.mem_map_of_mem hu))
  have hpad := Builtin.eq_padded (hpadded t ht)
  rw [htfield, hfield] at hpad
  cases hpad
  exact ht

namespace Options

/-- A conversion through a layout of padded numbers that names the fields of the input layout is
the conversion of the input, whether it succeeds or not. -/
theorem convert_through (mode : ParseMode) (inputLayout layout outputLayout input text : Text)
    (hMMMM : .MMMM ∉ Builtin.tokens inputLayout) (hMMM : .MMM ∉ Builtin.tokens inputLayout)
    (hpadded : ∀ t ∈ Builtin.tokens layout, t ∈ [.yyyy, .MM, .dd, .HH, .mm, .ss])
    (hfields : ∀ f, f ∈ (Builtin.tokens inputLayout).map Builtin.field ↔
      f ∈ (Builtin.tokens layout).map Builtin.field)
    (h : convert { policy := .throw, mode } inputLayout layout input = .ok text) :
    convert { policy := .throw, mode } layout outputLayout text =
      convert { policy := .throw, mode } inputLayout outputLayout input := by
  obtain ⟨r, parts, hreading, hparts, hwrite⟩ := convert_builtin_eq_ok_iff.1 h
  have hc := Reading.complete_of_ofInput hreading
  have htokens := Reading.tokens_of_ofInput hreading
  rw [← Builtin.map_name_tokens] at htokens
  -- a token of the input layout has read the field of each token of the layout between
  have hroom : ∀ t ∈ Builtin.tokens layout, parts.HasRoom t.field := by
    intro t ht
    obtain ⟨u, hu, hfield⟩ := List.mem_map.1 ((hfields _).2 (List.mem_map_of_mem ht))
    exact hfield ▸ hc.hasRoom htokens hparts hu (fun h => hMMMM (h ▸ hu)) fun h => hMMM (h ▸ hu)
  have hyear : mode = .strict → .yyyy ∈ Builtin.tokens layout := by
    rintro rfl
    exact yyyy_mem_tokens hpadded hfields hreading
  obtain ⟨-, -, rfl⟩ := (write_builtin_eq_ok_iff (tokens_of_parts hreading hparts)).1 hwrite
  obtain ⟨r', parts', hreading', hparts', hget⟩ := exists_reading hpadded hroom hyear
  -- fields that neither layout names are unknown in both
  have hsame : ∀ f, parts'.get f = parts.get f := by
    intro f
    rw [hget]
    split
    next => rfl
    next hf =>
      have hnone : parts.get f = none := by
        apply DateParts.get_of_none hparts
        intro u hu
        apply hc.value?_eq_none htokens
        intro h
        exact hf ((hfields f).1 (hu ▸ List.mem_map_of_mem h))
      exact hnone.symm
  calc convert (builtin mode none) layout outputLayout _
    _ = (builtin mode none).write outputLayout parts' := convert_builtin_of_parts hreading' hparts'
    _ = (builtin mode none).write outputLayout parts :=
      write_builtin_congr hsame (tokens_of_parts hreading' hparts')
        (tokens_of_parts hreading hparts) fun f => (hfields f).symm
    _ = convert (builtin mode none) inputLayout outputLayout input :=
      (convert_builtin_of_parts hreading hparts).symm

/-- A date that goes through digits only, on to a layout with a month name. -/
theorem convert_through_digits :
    convert { policy := .throw, mode := .strict } "yyyyMMdd".toList "MMMM d".toList
      "20240305".toList = .ok "March 5".toList := by
  have hinput : Builtin.tokens "d/M/yyyy".toList = [.d, .M, .yyyy] := by decide +kernel
  have hlayout : Builtin.tokens "yyyyMMdd".toList = [.yyyy, .MM, .dd] := by decide +kernel
  have hMMMM : .MMMM ∉ Builtin.tokens "d/M/yyyy".toList := hinput ▸ by decide
  have hMMM : .MMM ∉ Builtin.tokens "d/M/yyyy".toList := hinput ▸ by decide
  have hpadded : ∀ t ∈ Builtin.tokens "yyyyMMdd".toList, t ∈ [.yyyy, .MM, .dd, .HH, .mm, .ss] :=
    hlayout ▸ by decide
  have hfields : ∀ f, f ∈ (Builtin.tokens "d/M/yyyy".toList).map Builtin.field ↔
      f ∈ (Builtin.tokens "yyyyMMdd".toList).map Builtin.field := by
    rw [hinput, hlayout]
    intro f
    cases f <;> decide
  have h : convert { policy := .throw, mode := .strict } "d/M/yyyy".toList "yyyyMMdd".toList
      "5/3/2024".toList = .ok "20240305".toList := by
    simp only [convert, write_eq_insertionSort]
    decide +kernel
  rw [convert_through .strict _ _ _ _ _ hMMMM hMMM hpadded hfields h]
  simp only [convert, write_eq_insertionSort]
  decide +kernel

end Options

end Relayout
