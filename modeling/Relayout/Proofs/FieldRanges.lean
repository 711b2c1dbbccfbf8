import Relayout.Proofs.FieldValues

/-!
# Ranges of what is read

The digits of a token that was read are a number below the power of ten of its width
(`Reading.Sound.range_of_decides`). Hence date parts of a reading never fail on a number, the
converter is asked for two digits at most, and every field is in the range of the token that
decides it (`DateParts.ofReading_of_ofInput`).
-/

namespace Relayout

variable {r : Reading} {converter : Option YearConverter} {policy : ErrorPolicy} {f : Field}
  {t : Builtin} {text : Text} {k : Int} {value : Option Int64} {e : ConversionError}

/-! ## Deciding texts of a reading -/

namespace Reading

/-- The digits of a token denote a number that has room in its width. -/
theorem Sound.exists_denotes (hs : r.Sound) (h : r.value? t.name = some text) :
    ∃ v : Int64, Decimal.Denotes text v.toInt ∧ 0 ≤ v.toInt ∧ v.toInt < 10 ^ t.name.length := by
  obtain ⟨v, hread, hv, hlt⟩ := hs.exists_read h
  refine ⟨v, Decimal.readInt64?_eq_some_iff_denotes.1 hread, ?_, ?_⟩
  · exact hv ▸ Int.natCast_nonneg _
  · rw [hv]
    exact_mod_cast hlt

theorem Sound.range_of_decides (hs : r.Sound) (h : r.Decides f t text)
    (hk : Decimal.Denotes text k) : 0 ≤ k ∧ k < 10 ^ t.name.length := by
  obtain ⟨v, hv, hrange⟩ := hs.exists_denotes h.value?_eq
  exact hv.unique hk ▸ hrange

theorem Sound.not_outOfRange (hs : r.Sound) (h : r.value? t.name = some text) :
    ¬∀ k, Decimal.Denotes text k → k < -2 ^ 63 ∨ 2 ^ 63 ≤ k := by
  intro hrange
  obtain ⟨v, hv, -⟩ := hs.exists_denotes h
  have hnone := Decimal.readInt64?_eq_none_iff.2 hrange
  exact nomatch hnone.symm.trans (Decimal.readInt64?_eq_some_iff_denotes.2 hv)

/-- Only a two-digit year can be in the way. -/
theorem Sound.gives_error_iff (hs : r.Sound) : r.Gives converter policy f (.error e) ↔
    f = .year ∧ ∃ yy, r.AsksFor yy ∧ expandYear converter policy yy = .error e := by
  constructor
  · intro h
    cases h with
    | notNumeric h hrange => exact absurd hrange (hs.not_outOfRange h.value?_eq)
    | refused h hyy hconverter hmessage =>
      obtain rfl : Field.year = f := h.field_eq
      refine ⟨rfl, _, ⟨_, h, hyy⟩, ?_⟩
      rw [hconverter, expandYear, hmessage]
      rfl
    | unconverted h hyy hconverter hpolicy =>
      obtain rfl : Field.year = f := h.field_eq
      refine ⟨rfl, _, ⟨_, h, hyy⟩, ?_⟩
      rw [hconverter, hpolicy]
      rfl
  · rintro ⟨rfl, yy, ⟨text, h, hyy⟩, herror⟩
    refine gives_iff.2 ?_
    rw [fieldValue_of_yy h hyy, herror]
    rfl

/-- A converter is asked for a number of two digits at most, and for none if there is a year of
four. -/
theorem Sound.range_of_asksFor {yy : Int64} (hs : r.Sound) (h : r.AsksFor yy) :
    r.value? Builtin.yyyy.name = none ∧ 0 ≤ yy.toInt ∧ yy.toInt ≤ 99 := by
  obtain ⟨text, hdecides, hyy⟩ := h
  obtain ⟨hpos, hlt⟩ := hs.range_of_decides hdecides hyy
  exact ⟨hdecides.yyyy_eq_none, hpos, Int.le_of_lt_add_one hlt⟩

/-! ## What is given -/

theorem Gives.of_decides (h : r.Gives converter policy f (.ok value))
    (hdecides : r.Decides f t text) (ht : t ≠ .yy) :
    ∃ v : Int64, value = some v ∧ Decimal.Denotes text v.toInt := by
  cases h with
  | absent h => exact absurd h hdecides.not_absent
  | number h _ hv =>
    obtain ⟨-, rfl⟩ := h.unique hdecides
    exact ⟨_, rfl, hv⟩
  | converted h | kept h => exact absurd (h.unique hdecides).1.symm ht

/-- A field has no number exactly when no spelling has a text. -/
theorem Gives.eq_none_iff (h : r.Gives converter policy f (.ok value)) :
    value = none ↔ ∀ t ∈ Builtin.spellings f, r.value? t.name = none := by
  constructor
  · rintro rfl
    cases h with
    | absent h => exact h
  · intro hnone
    exact Except.ok.inj (h.unique (.absent hnone))

/-- Without a converter a year that comes from two digits is what they denote. -/
theorem Gives.of_year_none {year : Int64} (h : r.Gives none policy .year (.ok (some year)))
    (hnone : r.value? Builtin.yyyy.name = none) : r.AsksFor year := by
  cases h with
  | number h ht hv =>
    obtain rfl : _ = Builtin.yyyy := by simpa [Builtin.spellings, ht] using h.mem_spellings
    cases hnone.symm.trans h.value?_eq
  | converted _ _ hconverter _ => cases hconverter
  | kept h hyy _ _ => exact ⟨_, h, hyy⟩

end Reading

theorem Builtin.ne_yy_of_mem_spellings (h : t ∈ spellings f) (hf : f ≠ .year) : t ≠ .yy := by
  rintro rfl
  exact hf (field_of_mem_spellings h).symm

theorem Builtin.length_name_le_two (h : t ∈ spellings f) (hf : f ≠ .year) : t.name.length ≤ 2 := by
  have hall : ∀ f ∈ Field.all, f ≠ .year → ∀ t ∈ spellings f, t.name.length ≤ 2 := by decide
  exact hall f (Field.mem_all f) hf t h

/-- A number is in the range of the token that decides its field. -/
theorem Reading.Sound.range_of_gives {v : Int64} (hs : r.Sound) (hf : f ≠ .year)
    (h : r.Gives converter policy f (.ok (some v))) :
    0 ≤ v.toInt ∧ v.toInt ≤ 99 ∧
      ∀ t text, r.Decides f t text → t.name.length = 1 → v.toInt ≤ 9 := by
  have hrange : ∀ t text, r.Decides f t text → 0 ≤ v.toInt ∧ v.toInt < 10 ^ t.name.length := by
    intro t text hdecides
    obtain ⟨v', heq, hv⟩ :=
      h.of_decides hdecides (Builtin.ne_yy_of_mem_spellings hdecides.mem_spellings hf)
    obtain rfl := Option.some.inj heq
    exact hs.range_of_decides hdecides hv
  rcases r.exists_decides_or f with ⟨t, text, hdecides⟩ | hnone
  · obtain ⟨hpos, hlt⟩ := hrange t text hdecides
    have hlen := Builtin.length_name_le_two hdecides.mem_spellings hf
    have hroom : (10 : Int) ^ t.name.length ≤ 10 ^ 2 := by
      exact_mod_cast Nat.pow_le_pow_right (by decide : 0 < 10) hlen
    refine ⟨hpos, by omega, fun u text' hdecides' hone => ?_⟩
    have hlt := (hrange u text' hdecides').2
    rw [hone] at hlt
    omega
  · exact nomatch h.eq_none_iff.2 hnone

/-! ## Date parts of an input -/

namespace DateParts

/-- Date parts of an input that was read, with any converter and policy. No number is refused, and
the only error is that of a two-digit year which is not converted. The converter is asked for a
number of two digits, and not if there is a year of four; nothing else of it matters. A year of four
digits and a year of two that is kept are in range, and so are the other fields, each of which is
there if one of its tokens has digits. -/
theorem ofReading_of_ofInput {names : List Text} {mode : ParseMode} {policy : ErrorPolicy}
    {layout input : Text} {r : Reading}
    (h : Reading.ofInput names mode policy layout input = .ok r)
    (converter : Option YearConverter) (policy' : ErrorPolicy) :
    (∀ name text, ofReading r converter policy' ≠ .error (.notNumeric name text)) ∧
    (∀ e, ofReading r converter policy' = .error e ↔
      ∃ yy, r.AsksFor yy ∧ expandYear converter policy' yy = .error e) ∧
    (∀ yy, r.AsksFor yy →
      r.value? Builtin.yyyy.name = none ∧ 0 ≤ yy.toInt ∧ yy.toInt ≤ 99) ∧
    (∀ convert convert' : YearConverter, (∀ yy, r.AsksFor yy → convert' yy = convert yy) →
      ofReading r (some convert') policy' = ofReading r (some convert) policy') ∧
    ∀ parts, ofReading r converter policy' = .ok parts →
      (r.value? Builtin.yyyy.name ≠ none →
        ∃ year, parts.year = some year ∧ 0 ≤ year.toInt ∧ year.toInt ≤ 9999) ∧
      (r.value? Builtin.yyyy.name = none → converter = none →
        ∀ year, parts.year = some year → 0 ≤ year.toInt ∧ year.toInt ≤ 99) ∧
      ∀ f ≠ .year,
        (parts.get f = none ↔ ∀ t ∈ Builtin.spellings f, r.value? t.name = none) ∧
        ∀ v, parts.get f = some v → 0 ≤ v.toInt ∧ v.toInt ≤ 99 ∧
          ∀ t text, r.Decides f t text → t.name.length = 1 → v.toInt ≤ 9 := by
  have hs := Reading.sound_of_ofInput h
  refine ⟨fun name text herror => ?_, fun e => ⟨fun herror => ?_, fun hyy => ?_⟩,
    fun yy => hs.range_of_asksFor, fun convert convert' hagree => ?_, fun parts hparts => ?_⟩
  · obtain ⟨-, f, -, -, -, hgives⟩ := ofReading_eq_error_iff.1 herror
    cases hgives with
    | notNumeric h hrange => exact hs.not_outOfRange h.value?_eq hrange
  · obtain ⟨-, f, -, -, -, hgives⟩ := ofReading_eq_error_iff.1 herror
    exact (hs.gives_error_iff.1 hgives).2
  · exact ofReading_eq_error_iff.2 ⟨[], .year, _, rfl, nofun, hs.gives_error_iff.2 ⟨rfl, hyy⟩⟩
  · refine ofReading_congr rfl fun f => Reading.fieldValue_congr fun yy hasked => ?_
    exact congrArg (Except.mapError _) (hagree yy hasked)
  · have hgives := (ofReading_eq_ok_iff_gives.1 hparts).1
    refine ⟨fun hyyyy => ?_, fun hnone hconverter year hyear => ?_, fun f hf =>
      ⟨(hgives f).eq_none_iff, fun v hv => ?_⟩⟩
    · obtain ⟨text, htext⟩ := Option.ne_none_iff_exists'.1 hyyyy
      have hdecides := Reading.decides_yyyy htext
      obtain ⟨year, hyear, hdenotes⟩ := (hgives .year).of_decides hdecides (by decide)
      obtain ⟨hpos, hlt⟩ := hs.range_of_decides hdecides hdenotes
      exact ⟨year, hyear, hpos, Int.le_of_lt_add_one hlt⟩
    · subst hconverter
      have hyear' : r.Gives none policy' .year (.ok (some year)) := hyear ▸ hgives .year
      exact (hs.range_of_asksFor (hyear'.of_year_none hnone)).2
    · exact hs.range_of_gives hf (hv ▸ hgives f)

/-- A day of one digit, a month that was not read, and a year of two digits with which two
converters do the same. -/
theorem ofReading_of_ofInput_failed_month :
    let r : Reading := {
      raw := NameMap.ofList [("d".toList, some "7".toList), ("MM".toList, none),
        ("yy".toList, some "25".toList)],
      tokens := ["d".toList, "MM".toList, "yy".toList] }
    Reading.ofInput Builtin.names .positional .silent "d/MM/yy".toList "7/x1/25".toList = .ok r ∧
    ofReading r none .silent = .ok { year := some 25, day := some 7, tokens := r.tokens } ∧
    (0 ≤ (25 : Int64).toInt ∧ (25 : Int64).toInt ≤ 99) ∧ (7 : Int64).toInt ≤ 9 ∧
    (∀ t ∈ Builtin.spellings .month, r.value? t.name = none) ∧
    ofReading r (some (.pivot 70)) .throw = ofReading r (some (.add 2000)) .throw ∧
    ofReading r none .throw = .error .missingYearConverter := by
  intro r
  have hr : Reading.ofInput Builtin.names .positional .silent "d/MM/yy".toList "7/x1/25".toList =
      .ok r := by decide +kernel
  have hparts : ofReading r none .silent =
      .ok { year := some 25, day := some 7, tokens := r.tokens } := by decide +kernel
  have hday : r.Decides .day .d "7".toList := Reading.decides_iff.2 (by decide +kernel)
  have hyear : r.Decides .year .yy "25".toList := Reading.decides_iff.2 (by decide +kernel)
  have h25 : Decimal.Denotes "25".toList (25 : Int64).toInt :=
    Decimal.read?_eq_some_iff.1 (by decide +kernel)
  obtain ⟨-, -, -, -, hranges⟩ := ofReading_of_ofInput hr none .silent
  obtain ⟨-, hkept, hfields⟩ := hranges _ hparts
  obtain ⟨-, herror, -, hconverters, -⟩ := ofReading_of_ofInput hr none .throw
  refine ⟨hr, hparts, hkept (by decide +kernel) rfl 25 rfl, ?_,
    (hfields .month (by decide)).1.1 rfl, ?_, (herror _).2 ⟨25, ⟨_, hyear, h25⟩, rfl⟩⟩
  · exact ((hfields .day (by decide)).2 7 rfl).2.2 .d _ hday rfl
  · refine hconverters _ _ fun yy hyy => ?_
    obtain ⟨text, hdecides, hdenotes⟩ := hyy
    obtain ⟨-, rfl⟩ := hyear.unique hdecides
    obtain rfl := Int64.toInt_inj.1 (h25.unique hdenotes)
    decide +kernel

end DateParts
end Relayout
