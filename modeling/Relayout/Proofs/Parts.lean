import Relayout.Proofs.Builtin
import Relayout.Proofs.Reading
import Relayout.Reading.Parts

/-!
# Date parts from a reading

The date parts hold the year and the number of each other field, or there is an error
(`DateParts.ofReading_eq_ok_iff`). The policy matters for a two-digit year only.
-/

namespace Relayout

variable {r : Reading} {parts : DateParts} {converter : Option YearConverter}
  {policy : ErrorPolicy} {f : Field} {ts : List Builtin} {t : Builtin} {n d : Text} {v : Int64}
  {value : Option Int64}

theorem readNumber_eq_ok_iff : readNumber n d = .ok v ↔ Decimal.readInt64? d = some v := by
  unfold readNumber
  cases Decimal.readInt64? d with
  | none => exact ⟨nofun, nofun⟩
  | some a => exact ⟨fun h => Except.ok.inj h ▸ rfl, fun h => Option.some.inj h ▸ rfl⟩

namespace Reading

/-! ## The number of a field -/

theorem firstValue?_eq_none_iff :
    r.firstValue? ts = none ↔ ∀ t ∈ ts, r.value? t.name = none := by
  simp only [firstValue?, List.findSome?_eq_none_iff, Option.map_eq_none_iff]

theorem exists_of_firstValue? (h : r.firstValue? ts = some (n, d)) :
    ∃ t ∈ ts, t.name = n ∧ r.value? t.name = some d := by
  obtain ⟨t, ht, h⟩ := List.exists_of_findSome?_eq_some h
  obtain ⟨e, he, heq⟩ := Option.map_eq_some_iff.1 h
  obtain ⟨rfl, rfl⟩ := Prod.mk.inj heq
  exact ⟨t, ht, rfl, he⟩

theorem number_of_none (h : r.firstValue? (Builtin.numeric f) = none) :
    r.number f = .ok value ↔ value = none := by
  simp only [number, h, Except.ok.injEq, eq_comm]

theorem number_of_firstValue? (h : r.firstValue? (Builtin.numeric f) = some (n, d)) :
    r.number f = .ok value ↔ ∃ v, Decimal.readInt64? d = some v ∧ value = some v := by
  simp only [number, h, map_some_eq_ok_iff, readNumber_eq_ok_iff]

/-! ## The year -/

theorem year_of_yyyy (h : r.value? Builtin.yyyy.name = some d) :
    r.year converter policy = .ok value ↔ ∃ v, Decimal.readInt64? d = some v ∧ value = some v := by
  simp only [year, h, map_some_eq_ok_iff, readNumber_eq_ok_iff]

theorem year_of_yy (hnone : r.value? Builtin.yyyy.name = none)
    (h : r.value? Builtin.yy.name = some d) : r.year converter policy = .ok value ↔
      ∃ yy, Decimal.readInt64? d = some yy ∧
        ∃ v, expandYear converter policy yy = .ok v ∧ value = some v := by
  simp only [year, hnone, h, bind_eq_ok_iff, map_some_eq_ok_iff, readNumber_eq_ok_iff]

theorem year_of_none (hyyyy : r.value? Builtin.yyyy.name = none)
    (hyy : r.value? Builtin.yy.name = none) : r.year converter policy = .ok none := by
  simp only [year, hyyyy, hyy]

/-! ## Sound readings -/

namespace Sound

theorem value?_eq_none (h : r.Sound) (htokens : r.tokens = ts.map Builtin.name) (ht : t ∉ ts) :
    r.value? t.name = none := by
  cases hvalue : r.value? t.name with
  | none => rfl
  | some d =>
    have hname := htokens ▸ (h.of_value _ _ hvalue).1
    obtain ⟨u, hu, heq⟩ := List.mem_map.1 hname
    exact absurd (Builtin.name_injective heq ▸ hu) ht

/-- The digits of a built-in token are a number that has room in its width. -/
theorem exists_read (h : r.Sound) (hvalue : r.value? t.name = some d) :
    ∃ v, Decimal.readInt64? d = some v ∧ v.toInt = Nat.ofDigitChars 10 d 0 ∧
      Nat.ofDigitChars 10 d 0 < 10 ^ t.name.length :=
  Builtin.exists_read (h.of_value _ _ hvalue).2.1 (h.of_value _ _ hvalue).2.2

theorem exists_number (h : r.Sound) (f : Field) : ∃ value, r.number f = .ok value := by
  cases hfirst : r.firstValue? (Builtin.numeric f) with
  | none => exact ⟨none, (number_of_none hfirst).2 rfl⟩
  | some p =>
    obtain ⟨t, -, -, hvalue⟩ := exists_of_firstValue? hfirst
    obtain ⟨v, hread, -⟩ := h.exists_read hvalue
    exact ⟨some v, (number_of_firstValue? hfirst).2 ⟨v, hread, rfl⟩⟩

/-- Only what becomes of a two-digit year can stand in the way of a year. -/
theorem exists_year_of_expandYear (h : r.Sound) (hyy : ∀ d yy, r.value? Builtin.yyyy.name = none →
      r.value? Builtin.yy.name = some d → Int64.toInt yy = Nat.ofDigitChars 10 d 0 →
        ∃ v, expandYear converter policy yy = .ok v) :
    ∃ value, r.year converter policy = .ok value := by
  cases hyyyy : r.value? Builtin.yyyy.name with
  | some d =>
    obtain ⟨v, hread, -⟩ := h.exists_read hyyyy
    exact ⟨some v, (year_of_yyyy hyyyy).2 ⟨v, hread, rfl⟩⟩
  | none =>
    cases hvalue : r.value? Builtin.yy.name with
    | none => exact ⟨none, year_of_none hyyyy hvalue⟩
    | some d =>
      obtain ⟨yy, hread, hnumber, -⟩ := h.exists_read hvalue
      obtain ⟨v, hv⟩ := hyy d yy hyyyy hvalue hnumber
      exact ⟨some v, (year_of_yy hyyyy hvalue).2 ⟨yy, hread, v, hv, rfl⟩⟩

/-- The converter is asked for a number of two digits at most. -/
theorem exists_year (h : r.Sound) (hyy : r.value? Builtin.yy.name ≠ none →
      ∀ yy : Int64, 0 ≤ yy.toInt → yy.toInt ≤ 99 → ∃ v, expandYear converter policy yy = .ok v) :
    ∃ value, r.year converter policy = .ok value := by
  refine h.exists_year_of_expandYear fun d yy _ hvalue hnumber => ?_
  obtain ⟨-, -, -, hlt⟩ := h.exists_read hvalue
  have hroom : 10 ^ Builtin.yy.name.length = 100 := rfl
  exact hyy (by simp only [hvalue, ne_eq, reduceCtorEq, not_false_eq_true]) yy (by omega) (by omega)

end Sound

theorem Complete.exists_value_of_mem (h : r.Complete) (htokens : r.tokens = ts.map Builtin.name)
    (ht : t ∈ ts) :
    ∃ d, r.value? t.name = some d ∧ d.length = t.name.length ∧ d.all Char.isDigit := by
  obtain ⟨d, hvalue⟩ := h.exists_value t.name (htokens ▸ List.mem_map_of_mem ht)
  exact ⟨d, hvalue, (h.of_value _ _ hvalue).2⟩

end Reading

/-! ## All fields -/

theorem DateParts.ofReading_eq_ok_iff : ofReading r converter policy = .ok parts ↔
    r.year converter policy = .ok parts.year ∧ (∀ f ≠ .year, r.number f = .ok (parts.get f)) ∧
      parts.tokens = r.tokens := by
  simp only [ofReading, bind_eq_ok_iff]
  constructor
  · rintro ⟨year, hyear, month, hmonth, day, hday, hour, hhour, minute, hminute, second, hsecond, h⟩
    obtain rfl := Except.ok.inj h
    refine ⟨hyear, fun f hf => ?_, rfl⟩
    cases f with
    | year => exact absurd rfl hf
    | month => exact hmonth
    | day => exact hday
    | hour => exact hhour
    | minute => exact hminute
    | second => exact hsecond
  · rintro ⟨hyear, hnumber, htokens⟩
    refine ⟨_, hyear, _, hnumber .month nofun, _, hnumber .day nofun, _, hnumber .hour nofun, _,
      hnumber .minute nofun, _, hnumber .second nofun, ?_⟩
    rw [← htokens]
    rfl

/-- A field with the digits of a number has the number of one of its tokens. -/
theorem DateParts.exists_get_of_value (h : ofReading r converter policy = .ok parts)
    (hform : t.form.isNumber) (hvalue : r.value? t.name = some d) :
    ∃ u : Builtin, u.field = t.field ∧ u.form.isNumber ∧ ∃ e v, r.value? u.name = some e ∧
      Decimal.readInt64? e = some v ∧ parts.get t.field = some v := by
  obtain ⟨hyear, hnumber, -⟩ := ofReading_eq_ok_iff.1 h
  by_cases hfield : t.field = .year
  · obtain rfl : t = .yyyy := by
      cases t with
      | yyyy => rfl
      | yy => exact nomatch hform
      | MMMM | MMM | MM | M | dd | d | HH | H | mm | m | ss | s => exact nomatch hfield
    obtain ⟨v, hread, hget⟩ := (Reading.year_of_yyyy hvalue).1 hyear
    exact ⟨.yyyy, rfl, rfl, d, v, hvalue, hread, hget⟩
  · cases hfirst : r.firstValue? (Builtin.numeric t.field) with
    | none =>
      have hnone := Reading.firstValue?_eq_none_iff.1 hfirst t
        ((Builtin.mem_numeric hfield).2 ⟨rfl, hform⟩)
      exact nomatch hnone.symm.trans hvalue
    | some p =>
      obtain ⟨u, hu, -, hvalue'⟩ := Reading.exists_of_firstValue? hfirst
      obtain ⟨v, hread, hget⟩ := (Reading.number_of_firstValue? hfirst).1 (hnumber _ hfield)
      obtain ⟨hufield, huform⟩ := (Builtin.mem_numeric hfield).1 hu
      exact ⟨u, hufield, huform, _, v, hvalue', hread, hget⟩

/-- The only token of a field gives the field its number. -/
theorem DateParts.get_of_only (h : ofReading r converter policy = .ok parts)
    (hform : t.form.isNumber) (hvalue : r.value? t.name = some d)
    (honly : ∀ u : Builtin, u.field = t.field → u ≠ t → r.value? u.name = none) :
    ∃ v, parts.get t.field = some v ∧ Decimal.readInt64? d = some v := by
  obtain ⟨u, hfield, -, e, v, hvalue', hread, hget⟩ := exists_get_of_value h hform hvalue
  by_cases heq : u = t
  · rw [heq, hvalue] at hvalue'
    exact ⟨v, hget, Option.some.inj hvalue' ▸ hread⟩
  · exact nomatch (honly u hfield heq).symm.trans hvalue'

/-- A field of which no token has digits is not known. -/
theorem DateParts.get_of_none (h : ofReading r converter policy = .ok parts)
    (hnone : ∀ u : Builtin, u.field = f → r.value? u.name = none) : parts.get f = none := by
  obtain ⟨hyear, hnumber, -⟩ := ofReading_eq_ok_iff.1 h
  by_cases hfield : f = .year
  · subst hfield
    rw [Reading.year_of_none (hnone .yyyy rfl) (hnone .yy rfl)] at hyear
    exact (Except.ok.inj hyear).symm
  · refine (Reading.number_of_none ?_).1 (hnumber f hfield)
    exact Reading.firstValue?_eq_none_iff.2 fun u hu =>
      hnone u ((Builtin.mem_numeric hfield).1 hu).1

theorem DateParts.exists_ofReading (hyear : ∃ value, r.year converter policy = .ok value)
    (hnumber : ∀ f, ∃ value, r.number f = .ok value) :
    ∃ parts, ofReading r converter policy = .ok parts := by
  obtain ⟨year, hyear⟩ := hyear
  choose number hnumber using hnumber
  refine ⟨⟨year, number .month, number .day, number .hour, number .minute, number .second,
    r.tokens⟩, ofReading_eq_ok_iff.2 ⟨hyear, fun f hf => ?_, rfl⟩⟩
  cases f with
  | year => exact absurd rfl hf
  | month | day | hour | minute | second => exact hnumber _

theorem expandYear_of_throw {yy year : Int64} (h : expandYear converter .throw yy = .ok year) :
    expandYear converter policy yy = .ok year := by
  cases converter with
  | none => exact nomatch h
  | some convert => exact h

theorem Reading.year_of_throw {year : Option Int64} (h : r.year converter .throw = .ok year) :
    r.year converter policy = .ok year := by
  unfold Reading.year at h ⊢
  split at h
  next => exact h
  next text _ _ =>
    obtain ⟨yy, hyy, h⟩ := bind_eq_ok_iff.1 h
    cases hyear : expandYear converter .throw yy with
    | error e =>
      rw [hyear] at h
      exact nomatch h
    | ok year' =>
      rw [hyear] at h
      exact bind_eq_ok_iff.2 ⟨yy, hyy, by rw [expandYear_of_throw hyear]; exact h⟩
  next => exact h

theorem DateParts.ofReading_of_throw (h : ofReading r converter .throw = .ok parts) :
    ofReading r converter policy = .ok parts := by
  obtain ⟨hyear, hrest⟩ := ofReading_eq_ok_iff.1 h
  exact ofReading_eq_ok_iff.2 ⟨Reading.year_of_throw hyear, hrest⟩

end Relayout
