import Relayout.Proofs.Conversion
import Relayout.Proofs.Writing

/-!
# Conversion to the layout of the input

In strict mode a date that is written in the layout in which it was read is the input again
(`Options.convert_same_layout`): each token writes the digits that it has read, and each text is
the text of the layout.
-/

namespace Relayout

open Layout

variable {r : Reading} {converter : Option YearConverter} {parts : DateParts} {ts : List Builtin}
  {t u : Builtin} {d layout input output : Text} {pieces : List Text}

/-- The converter gives years above nine that end in the two digits it was asked for. -/
def YearConverter.KeepsDigits (convert : YearConverter) : Prop :=
  ∀ yy : Int64, 0 ≤ yy.toInt → yy.toInt ≤ 99 →
    ∃ year, convert yy = .ok year ∧ 10 ≤ year.toInt ∧ year.toInt % 100 = yy.toInt

theorem YearConverter.keepsDigits_pivot (n : Int64) : (pivot n).KeepsDigits := by
  intro yy hpos hle
  obtain ⟨century, hcentury, hround⟩ : ∃ century : Int64, (if yy < n then 2000 else 1900) =
      century ∧ (century.toInt = 2000 ∨ century.toInt = 1900) := by
    split
    next => exact ⟨2000, rfl, .inl rfl⟩
    next => exact ⟨1900, rfl, .inr rfl⟩
  obtain ⟨k, hk⟩ : ∃ k : Nat, yy.toInt + century.toInt = k :=
    Int.eq_ofNat_of_zero_le (by omega)
  obtain ⟨year, hyear⟩ := Decimal.exists_toInt_eq (n := k) (by omega)
  have hsum : Decimal.toInt64? (yy.toInt + century.toInt) = some year :=
    Decimal.toInt64?_eq_some_iff.2 (hyear.trans hk.symm)
  refine ⟨year, ?_, by omega, by omega⟩
  simp only [pivot, sum, hcentury, hsum]

/-- The tokens of a layout that writes a date as it was read: numbers, one for each field at most,
with two-digit years only where a converter keeps their digits. -/
structure Builtin.Faithful (converter : Option YearConverter) (ts : List Builtin) : Prop where
  numbers : ∀ t ∈ ts, t ∈ [.yyyy, .yy, .MM, .M, .dd, .d, .HH, .H, .mm, .m, .ss, .s]
  once : (ts.map field).Nodup
  century : yy ∈ ts → ∃ convert, converter = some convert ∧ convert.KeepsDigits

theorem Builtin.Faithful.isNumber (hts : Faithful converter ts) (ht : t ∈ ts) (hyy : t ≠ yy) :
    t.form.isNumber := by
  have hmem := hts.numbers t ht
  cases t with
  | yy => exact absurd rfl hyy
  | MMMM | MMM => exact absurd hmem (by decide)
  | yyyy | MM | M | dd | d | HH | H | mm | m | ss | s => rfl

namespace Reading.Complete

theorem value?_eq_none_of_ne (hc : r.Complete) (htokens : r.tokens = ts.map Builtin.name)
    (hts : Builtin.Faithful converter ts) (ht : t ∈ ts) (hfield : u.field = t.field) (hne : u ≠ t) :
    r.value? u.name = none :=
  hc.value?_eq_none htokens fun hu => hne (List.inj_on_of_nodup_map hts.once hu ht hfield)

/-- Each token writes the digits that it has read. -/
theorem write_eq (hc : r.Complete) (htokens : r.tokens = ts.map Builtin.name)
    (hts : Builtin.Faithful converter ts)
    (hparts : DateParts.ofReading r converter .throw = .ok parts) (ht : t ∈ ts)
    (hvalue : r.value? t.name = some d) : t.write parts = some d := by
  obtain ⟨-, hlen, hd⟩ := hc.of_value _ _ hvalue
  by_cases hyy : t = .yy
  · -- the year of the converter ends in the two digits, and the token writes its last two
    subst hyy
    have hnone : r.value? Builtin.yyyy.name = none :=
      hc.value?_eq_none_of_ne htokens hts ht rfl (by decide)
    obtain ⟨yy, hread, v, hv, heq⟩ :=
      (year_of_yy hnone hvalue).1 (DateParts.ofReading_eq_ok_iff.1 hparts).1
    obtain ⟨convert, rfl, hconvert⟩ := hts.century ht
    have htoInt := Builtin.toInt_of_read hlen hd hread
    have hroom := hlen ▸ Decimal.ofDigitChars_lt hd
    have hhundred : 10 ^ Builtin.yy.name.length = 100 := rfl
    obtain ⟨year, hyear', hten, hmod⟩ := hconvert yy (by omega) (by omega)
    obtain rfl : year = v := by
      simp only [expandYear, hyear'] at hv
      exact Except.ok.inj hv
    have hget : parts.get Builtin.yy.field = some year := heq
    rw [Builtin.write, hget]
    exact congrArg some (Decimal.drop_write hd hlen hten (hmod.trans htoInt))
  · have hform := hts.isNumber ht hyy
    obtain ⟨v, hget, hread⟩ := DateParts.get_of_only hparts hform hvalue
      fun u => hc.value?_eq_none_of_ne htokens hts ht
    rw [Builtin.write, hget]
    exact Builtin.write_of_read hform hlen hd hread

end Reading.Complete

/-- A layout writes the pieces of the input that its segments have taken. -/
theorem flatMap_written (hts : Builtin.Faithful converter (Builtin.tokens layout))
    (hfits : List.Forall₂ Segment.Fits (segments Builtin.names layout) pieces)
    (hr : r = Reading.recordAll {} (Cursor.taken (segments Builtin.names layout) pieces))
    (hc : r.Complete) (hparts : DateParts.ofReading r converter .throw = .ok parts) :
    (segments Builtin.names layout).flatMap (Segment.written parts) = pieces.flatten := by
  have htaken := Cursor.map_fst_taken hfits.length_eq
  rw [← Builtin.map_name_tokens] at htaken
  have htokens : r.tokens = (Builtin.tokens layout).map Builtin.name := by
    rw [hr, Reading.tokens_recordAll, htaken]
    rfl
  have hnodup : ((Builtin.tokens layout).map Builtin.name).Nodup :=
    hts.once.of_map.map fun _ _ => Builtin.name_injective
  have hwritten : List.Forall₂ (fun s piece => Segment.written parts s = piece)
      (segments Builtin.names layout) pieces := by
    refine List.forall₂_iff_zip.2 ⟨hfits.length_eq, fun {s piece} hmem => ?_⟩
    have hs := (List.of_mem_zip hmem).1
    have hfit := List.forall₂_zip hfits hmem
    cases htoken : s.token? with
    | none =>
      rw [Segment.written_of_token?_eq_none hs htoken]
      exact ((Segment.fits_of_token?_eq_none htoken).1 hfit).symm
    | some n =>
      obtain rfl := Segment.token?_eq_some_iff.1 htoken
      obtain ⟨t, ht, rfl⟩ := Builtin.exists_of_token_mem hs
      have hvalue : r.value? t.name = some piece := by
        rw [hr]
        exact Reading.value?_recordAll_of_nodup (Cursor.mem_taken hmem htoken) (htaken ▸ hnodup)
      rw [Segment.written_token, hc.write_eq htokens hts hparts ht hvalue, Option.getD_some]
  rw [List.flatMap_def]
  exact congrArg List.flatten
    (List.forall₂_eq_eq_eq ▸ List.forall₂_map_left_iff.2 hwritten)

namespace Options

/-- In strict mode and under `throw` a date is written in its own layout as it was read, if the
tokens of the layout are numbers, one for each field at most. It is written if it is read and the
tokens leave out no letter of the layout. -/
theorem convert_same_layout (converter : Option YearConverter) (layout input : Text)
    (hts : Builtin.Faithful converter (Builtin.tokens layout)) :
    (∀ output, convert { policy := .throw, mode := .strict, converter } layout layout input =
      .ok output → output = input) ∧
    ((∃ reading, Reading.ofInput Builtin.handlers.names .strict .throw layout input =
        .ok reading) → LettersCovered Builtin.names layout →
      convert { policy := .throw, mode := .strict, converter } layout layout input =
        .ok input) := by
  have hidentity : ∀ output, convert (builtin .strict converter) layout layout input =
      .ok output → output = input := by
    intro output h
    obtain ⟨r, parts, hreading, hparts, hwrite⟩ := convert_builtin_eq_ok_iff.1 h
    obtain ⟨-, -, rfl⟩ := (write_builtin_eq_ok_iff (tokens_of_parts hreading hparts)).1 hwrite
    obtain ⟨pieces, hfits, rfl, hr⟩ := Reading.exists_fits_of_ofInput hreading
    exact flatMap_written hts hfits hr (Reading.complete_of_ofInput hreading) hparts
  refine ⟨hidentity, ?_⟩
  rintro ⟨r, hreading⟩ hcovered
  rw [Builtin.ofInput_handlers] at hreading
  have hc := Reading.complete_of_ofInput hreading
  have htokens := Reading.tokens_of_ofInput hreading
  rw [← Builtin.map_name_tokens] at htokens
  obtain ⟨parts, hparts⟩ : ∃ parts, DateParts.ofReading r converter .throw = .ok parts := by
    refine DateParts.exists_ofReading (hc.exists_year fun hyy yy hpos hle => ?_) hc.exists_number
    have hmem : .yy ∈ Builtin.tokens layout :=
      Classical.byContradiction fun h => hyy (hc.value?_eq_none htokens h)
    obtain ⟨convert, rfl, hconvert⟩ := hts.century hmem
    obtain ⟨year, hyear, -⟩ := hconvert yy hpos hle
    exact ⟨year, by simp only [expandYear, hyear]; rfl⟩
  have hwrite : (builtin .strict converter).write layout parts = .ok _ :=
    (write_builtin_eq_ok_iff (tokens_of_parts hreading hparts)).2
      ⟨hcovered, fun t ht => List.mem_map_of_mem ht, rfl⟩
  have hconvert := (convert_builtin_of_parts hreading hparts).trans hwrite
  exact hconvert.trans (congrArg _ (hidentity _ hconvert))

/-- A date with a two-digit year and text between its tokens. -/
theorem convert_same_layout_century :
    convert { policy := .throw, mode := .strict, converter := some (YearConverter.pivot 50) }
      "d.MM.[yy]yy".toList "d.MM.[yy]yy".toList "4.07.yy25".toList = .ok "4.07.yy25".toList := by
  have htokens : Builtin.tokens "d.MM.[yy]yy".toList = [.d, .MM, .yy] := by decide +kernel
  have hwords : outputSegments Builtin.names "d.MM.[yy]yy".toList =
      [.token "d".toList, .literal ".".toList, .token "MM".toList, .literal ".".toList,
        .escaped "yy".toList, .token "yy".toList] := by
    rw [outputSegments_eq_insertionSort]
    decide +kernel
  have hcovered : LettersCovered Builtin.names "d.MM.[yy]yy".toList :=
    lettersCovered_of_word_notMem fun t ht => by
      rw [hwords] at ht
      simp at ht
  have hts : Builtin.Faithful (some (YearConverter.pivot 50)) [.d, .MM, .yy] :=
    ⟨by decide, by decide, fun _ => ⟨_, rfl, YearConverter.keepsDigits_pivot 50⟩⟩
  exact (convert_same_layout (some (YearConverter.pivot 50)) _ _ (htokens ▸ hts)).2
    ⟨{ raw := NameMap.ofList [("d".toList, some "4".toList), ("MM".toList, some "07".toList),
        ("yy".toList, some "25".toList)], tokens := ["d".toList, "MM".toList, "yy".toList] },
      by decide +kernel⟩ hcovered

end Options

end Relayout
