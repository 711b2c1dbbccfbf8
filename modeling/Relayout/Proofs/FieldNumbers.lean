import Relayout.Proofs.Conversion

/-!
# Which tokens know a field and which write it

After a reading a field has a number exactly when one of its tokens has digits that is not the name
of a month (`DateParts.isSome_get_iff`). Then every token of the field writes it; only the names of
months ask for a month from 1 to 12 (`DateParts.fields_of_ofReading`). The digits that a layout
takes for the name of a month are lost.
-/

namespace Relayout

variable {r : Reading} {parts : DateParts} {converter : Option YearConverter}
  {policy : ErrorPolicy} {f : Field} {t : Builtin} {v : Int64} {value : Option Int64}

namespace Builtin

/-- The token writes the month as a name, in full or cut off. -/
def IsMonthName (t : Builtin) : Prop := t.form = .monthName ∨ t.form = .monthAbbreviation

instance : DecidablePred IsMonthName := fun _ => inferInstanceAs (Decidable (_ ∨ _))

theorem mem_numeric_iff (hf : f ≠ .year) : t ∈ numeric f ↔ t.field = f ∧ ¬t.IsMonthName := by
  have hform : t.field ≠ .year → (t.form.isNumber = true ↔ ¬t.IsMonthName) := by
    cases t <;> decide
  rw [mem_numeric hf]
  refine and_congr_right ?_
  rintro rfl
  exact hform hf

theorem eq_yyyy_or_yy (h : t.field = .year) : t = .yyyy ∨ t = .yy := by
  cases t with
  | yyyy => exact .inl rfl
  | yy => exact .inr rfl
  | MMMM | MMM | MM | M | dd | d | HH | H | mm | m | ss | s => exact nomatch h

theorem isSome_monthName?_iff :
    (Relayout.monthName? v).isSome ↔ 1 ≤ v.toInt ∧ v.toInt ≤ 12 := by
  have hlength : monthNames.length = 12 := rfl
  unfold monthName?
  split
  next h => rw [Option.isSome_iff_ne_none, ne_eq, List.getElem?_eq_none_iff, hlength]; omega
  next h => exact ⟨nofun, fun h' => absurd h'.1 h⟩

theorem isSome_form_write_iff : (t.form.write v).isSome ↔
    (t.IsMonthName → 1 ≤ v.toInt ∧ v.toInt ≤ 12) := by
  rw [← isSome_monthName?_iff]
  cases t with
  | MMMM => exact ⟨fun h _ => h, fun h => h (.inl rfl)⟩
  | MMM =>
    have hcut : (MMM.form.write v).isSome = (Relayout.monthName? v).isSome := Option.isSome_map
    rw [hcut]
    exact ⟨fun h _ => h, fun h => h (.inr rfl)⟩
  | yyyy | yy | MM | M | dd | d | HH | H | mm | m | ss | s =>
    exact ⟨fun _ h => absurd h (by decide), fun _ => rfl⟩

/-- The token asks for the name of a month that does not exist. -/
def AsksInVain (t : Builtin) (parts : DateParts) : Prop :=
  t.IsMonthName ∧ ∃ v, parts.get t.field = some v ∧ ¬(1 ≤ v.toInt ∧ v.toInt ≤ 12)

theorem write_eq_none_iff :
    t.write parts = none ↔ parts.get t.field = none ∨ t.AsksInVain parts := by
  cases hget : parts.get t.field with
  | none =>
    simp only [write, hget, Option.bind_none, true_or]
  | some v =>
    simp only [write, AsksInVain, hget, Option.bind_some, reduceCtorEq, Option.some.injEq,
      exists_eq_left', false_or]
    rw [← Option.not_isSome_iff_eq_none, isSome_form_write_iff, Classical.not_imp]

end Builtin

namespace Reading

theorem isSome_year_iff (h : r.year converter policy = .ok value) :
    value.isSome ↔ (r.value? Builtin.yyyy.name).isSome ∨ (r.value? Builtin.yy.name).isSome := by
  cases hyyyy : r.value? Builtin.yyyy.name with
  | some d =>
    obtain ⟨v, -, rfl⟩ := (year_of_yyyy hyyyy).1 h
    exact ⟨fun _ => .inl rfl, fun _ => rfl⟩
  | none =>
    cases hyy : r.value? Builtin.yy.name with
    | none =>
      obtain rfl := Except.ok.inj ((year_of_none hyyyy hyy).symm.trans h)
      exact ⟨nofun, fun h => h.elim nofun nofun⟩
    | some d =>
      obtain ⟨_, -, v, -, rfl⟩ := (year_of_yy hyyyy hyy).1 h
      exact ⟨fun _ => .inr rfl, fun _ => rfl⟩

theorem isSome_number_iff (h : r.number f = .ok value) :
    value.isSome ↔ ∃ t ∈ Builtin.numeric f, (r.value? t.name).isSome := by
  cases hfirst : r.firstValue? (Builtin.numeric f) with
  | none =>
    obtain rfl := (number_of_none hfirst).1 h
    refine ⟨nofun, fun ⟨t, ht, hvalue⟩ => ?_⟩
    rw [firstValue?_eq_none_iff.1 hfirst t ht] at hvalue
    exact nomatch hvalue
  | some p =>
    obtain ⟨v, -, rfl⟩ := (number_of_firstValue? hfirst).1 h
    obtain ⟨t, ht, -, hvalue⟩ := exists_of_firstValue? hfirst
    exact ⟨fun _ => ⟨t, ht, by rw [hvalue]; rfl⟩, fun _ => rfl⟩

end Reading

namespace DateParts

theorem isSome_get_iff (h : ofReading r converter policy = .ok parts) (f : Field) :
    (parts.get f).isSome ↔
      ∃ t : Builtin, t.field = f ∧ ¬t.IsMonthName ∧ (r.value? t.name).isSome := by
  obtain ⟨hyear, hnumber, -⟩ := ofReading_eq_ok_iff.1 h
  by_cases hf : f = .year
  · subst hf
    refine (Reading.isSome_year_iff hyear).trans ⟨?_, ?_⟩
    · rintro (hyyyy | hyy)
      · exact ⟨.yyyy, rfl, by decide, hyyyy⟩
      · exact ⟨.yy, rfl, by decide, hyy⟩
    · rintro ⟨t, ht, -, hvalue⟩
      rcases Builtin.eq_yyyy_or_yy ht with rfl | rfl
      · exact .inl hvalue
      · exact .inr hvalue
  · rw [Reading.isSome_number_iff (hnumber f hf)]
    simp only [Builtin.mem_numeric_iff hf, and_assoc]

/-- After a reading a field is known when one of its tokens has digits that is not the name of a
month, and the handler of each token of a known field writes it, where a name asks for a month. -/
theorem fields_of_ofReading (h : ofReading r converter policy = .ok parts) (f : Field) :
    ((parts.get f).isSome ↔
      ∃ t : Builtin, t.field = f ∧ ¬t.IsMonthName ∧ (r.value? t.name).isSome) ∧
    ∀ v, parts.get f = some v → ∀ u : Builtin, u.field = f →
      ∃ source, Builtin.handlers.get? u.name = some source ∧
        ((source.produce parts).isSome ↔ (u.IsMonthName → 1 ≤ v.toInt ∧ v.toInt ≤ 12)) := by
  refine ⟨isSome_get_iff h f, ?_⟩
  rintro v hv u rfl
  obtain ⟨place, hsource⟩ := Builtin.get?_handlers u
  refine ⟨_, hsource, ?_⟩
  have hwrite : u.write parts = u.form.write v := by rw [Builtin.write, hv]; rfl
  rw [← Builtin.isSome_form_write_iff, ← hwrite]
  rfl

/-- A month that is read as a number is written as a name. -/
theorem fields_of_ofReading_month :
    ofReading { raw := NameMap.ofList [("M".toList, some "4".toList)], tokens := ["M".toList] }
      none .throw = .ok { month := some 4, tokens := ["M".toList] } ∧
    ∃ source, Builtin.handlers.get? "MMMM".toList = some source ∧
      (source.produce { month := some 4, tokens := ["M".toList] }).isSome := by
  have hparts :
      ofReading { raw := NameMap.ofList [("M".toList, some "4".toList)], tokens := ["M".toList] }
        none .throw = .ok { month := some 4, tokens := ["M".toList] } := by decide +kernel
  obtain ⟨source, hsource, hwrites⟩ :=
    (fields_of_ofReading hparts .month).2 4 rfl .MMMM rfl
  exact ⟨hparts, source, hsource, hwrites.2 fun _ => by decide⟩

/-- The digits taken for the name of a month give no month. -/
theorem not_forall_isSome_get : ¬∀ (layout input : Text) (mode : ParseMode) (policy : ErrorPolicy)
    (converter : Option YearConverter) (r : Reading) (parts : DateParts) (t : Builtin),
    Reading.ofInput Builtin.handlers.names mode policy layout input = .ok r →
      (r.value? t.name).isSome → ofReading r converter policy = .ok parts →
        (parts.get t.field).isSome := by
  intro h
  have hmonth := h "yyyyMMMM".toList "20250004".toList .strict .throw none
    { raw := NameMap.ofList
        [("MMMM".toList, some "0004".toList), ("yyyy".toList, some "2025".toList)],
      tokens := ["yyyy".toList, "MMMM".toList] }
    { year := some 2025, tokens := ["yyyy".toList, "MMMM".toList] } .MMMM
    (by decide +kernel) (by decide +kernel) (by decide +kernel)
  exact absurd hmonth Bool.false_ne_true

/-- A layout may then ask for the month, which is written as the name of its token. -/
example : Options.convert {} "yyyyMMMM".toList "yyyy-MM".toList "20250004".toList =
    .ok "2025-MM".toList := by
  simp only [Options.convert, Options.write_eq_insertionSort]
  decide +kernel

end DateParts
end Relayout
