import Relayout.Proofs.Numerals
import Relayout.Proofs.Parts

/-!
# What a reading gives for each field

The first spelling of a field that has a text decides the field (`Reading.Decides`), and its text
gives the field a number or an error (`Reading.Gives`). Date parts hold what the fields are given,
and the error of date parts is that of the first field which has one
(`DateParts.ofReading_gives`).
-/

namespace Relayout

variable {r r' : Reading} {converter converter' : Option YearConverter}
  {policy policy' : ErrorPolicy} {f : Field} {fs : List Field} {t : Builtin} {text : Text}
  {parts : DateParts} {e : ConversionError} {result : Except ConversionError (Option Int64)}

/-! ## The text that decides a field -/

namespace Builtin

/-- The tokens whose digits give a field its number; the first that has digits counts. -/
def spellings : Field → List Builtin
  | .year => [yyyy, yy]
  | .month => [MM, M]
  | .day => [dd, d]
  | .hour => [HH, H]
  | .minute => [mm, m]
  | .second => [ss, s]

theorem numeric_eq_spellings (hf : f ≠ .year) : numeric f = spellings f := by
  cases f with
  | year => exact absurd rfl hf
  | month | day | hour | minute | second => rfl

theorem field_of_mem_spellings (h : t ∈ spellings f) : t.field = f := by
  have hall : ∀ f ∈ Field.all, ∀ t ∈ spellings f, t.field = f := by decide
  exact hall f (Field.mem_all f) t h

end Builtin

namespace Reading

/-- The first spelling of the field that has a text is this token, and it has this text. -/
def Decides (r : Reading) (f : Field) (t : Builtin) (text : Text) : Prop :=
  ∃ before behind, Builtin.spellings f = before ++ t :: behind ∧
    (∀ u ∈ before, r.value? u.name = none) ∧ r.value? t.name = some text

theorem Decides.mem_spellings (h : r.Decides f t text) : t ∈ Builtin.spellings f := by
  obtain ⟨before, behind, hsplit, -⟩ := h
  exact hsplit ▸ List.mem_append_right _ (.head _)

theorem Decides.field_eq (h : r.Decides f t text) : t.field = f :=
  Builtin.field_of_mem_spellings h.mem_spellings

theorem Decides.value?_eq (h : r.Decides f t text) : r.value? t.name = some text := by
  obtain ⟨-, -, -, -, hvalue⟩ := h
  exact hvalue

theorem firstValue?_eq_some_iff {name : Text} :
    r.firstValue? (Builtin.spellings f) = some (name, text) ↔
      ∃ t, r.Decides f t text ∧ t.name = name := by
  simp only [firstValue?, List.findSome?_eq_some_iff, Option.map_eq_some_iff, Prod.mk.injEq,
    Option.map_eq_none_iff]
  constructor
  · rintro ⟨before, t, behind, hsplit, ⟨text, hvalue, hname, rfl⟩, hbefore⟩
    exact ⟨t, ⟨before, behind, hsplit, hbefore, hvalue⟩, hname⟩
  · rintro ⟨t, ⟨before, behind, hsplit, hbefore, hvalue⟩, hname⟩
    exact ⟨before, t, behind, hsplit, ⟨text, hvalue, hname, rfl⟩, hbefore⟩

theorem decides_iff :
    r.Decides f t text ↔ r.firstValue? (Builtin.spellings f) = some (t.name, text) := by
  rw [firstValue?_eq_some_iff]
  refine ⟨fun h => ⟨t, h, rfl⟩, ?_⟩
  rintro ⟨u, h, hname⟩
  exact Builtin.name_injective hname ▸ h

/-- Only one token decides a field. -/
theorem Decides.unique {u : Builtin} {text' : Text} (h : r.Decides f t text)
    (h' : r.Decides f u text') : t = u ∧ text = text' := by
  have heq := (decides_iff.1 h).symm.trans (decides_iff.1 h')
  obtain ⟨hname, htext⟩ := Prod.mk.inj (Option.some.inj heq)
  exact ⟨Builtin.name_injective hname, htext⟩

/-- A field is decided unless no spelling has a text. -/
theorem exists_decides_or (r : Reading) (f : Field) :
    (∃ t text, r.Decides f t text) ∨ ∀ t ∈ Builtin.spellings f, r.value? t.name = none := by
  cases hfirst : r.firstValue? (Builtin.spellings f) with
  | none => exact .inr (firstValue?_eq_none_iff.1 hfirst)
  | some p =>
    obtain ⟨t, ht, -⟩ := firstValue?_eq_some_iff.1 hfirst
    exact .inl ⟨t, p.2, ht⟩

theorem Decides.not_absent (h : r.Decides f t text) :
    ¬∀ t ∈ Builtin.spellings f, r.value? t.name = none := fun hnone =>
  nomatch (hnone t h.mem_spellings).symm.trans h.value?_eq

theorem decides_yyyy (h : r.value? Builtin.yyyy.name = some text) : r.Decides .year .yyyy text :=
  ⟨[], [.yy], rfl, nofun, h⟩

theorem Decides.yyyy_eq_none (h : r.Decides f .yy text) : r.value? Builtin.yyyy.name = none := by
  obtain rfl : Field.year = f := h.field_eq
  obtain ⟨before, behind, hsplit, hbefore, -⟩ := h
  cases before with
  | nil => exact nomatch hsplit
  | cons u before =>
    obtain rfl := (List.cons.inj hsplit).1
    exact hbefore _ (.head _)

/-- The number that a converter is asked for: that of a two-digit year which decides the year. -/
def AsksFor (r : Reading) (yy : Int64) : Prop :=
  ∃ text, r.Decides .year .yy text ∧ Decimal.Denotes text yy.toInt

/-! ## What becomes of the text -/

/-- What a reading gives for a field: no number when no spelling has a text, and otherwise the
64-bit integer that the deciding text denotes, where that is not a year of two digits. Such a year
goes to the converter; without one it is kept under `silent`, and an error under `throw`. -/
inductive Gives (r : Reading) (converter : Option YearConverter) (policy : ErrorPolicy)
    (f : Field) : Except ConversionError (Option Int64) → Prop
  | absent (h : ∀ t ∈ Builtin.spellings f, r.value? t.name = none) :
    Gives r converter policy f (.ok none)
  | notNumeric {t : Builtin} {text : Text} (h : r.Decides f t text)
    (hrange : ∀ k, Decimal.Denotes text k → k < -2 ^ 63 ∨ 2 ^ 63 ≤ k) :
    Gives r converter policy f (.error (.notNumeric t.name text))
  | number {t : Builtin} {text : Text} {v : Int64} (h : r.Decides f t text) (ht : t ≠ .yy)
    (hv : Decimal.Denotes text v.toInt) : Gives r converter policy f (.ok (some v))
  | converted {text : Text} {yy year : Int64} {convert : YearConverter} (h : r.Decides f .yy text)
    (hyy : Decimal.Denotes text yy.toInt) (hconverter : converter = some convert)
    (hyear : convert yy = .ok year) : Gives r converter policy f (.ok (some year))
  | refused {text : Text} {yy : Int64} {convert : YearConverter} {message : Text}
    (h : r.Decides f .yy text) (hyy : Decimal.Denotes text yy.toInt)
    (hconverter : converter = some convert) (hmessage : convert yy = .error message) :
    Gives r converter policy f (.error (.yearConverter message))
  | kept {text : Text} {yy : Int64} (h : r.Decides f .yy text)
    (hyy : Decimal.Denotes text yy.toInt) (hconverter : converter = none)
    (hpolicy : policy = .silent) : Gives r converter policy f (.ok (some yy))
  | unconverted {text : Text} {yy : Int64} (h : r.Decides f .yy text)
    (hyy : Decimal.Denotes text yy.toInt) (hconverter : converter = none)
    (hpolicy : policy = .throw) : Gives r converter policy f (.error .missingYearConverter)

/-- The number of any field: the year, or that of another field. -/
def fieldValue (r : Reading) (converter : Option YearConverter) (policy : ErrorPolicy) :
    Field → Except ConversionError (Option Int64)
  | .year => r.year converter policy
  | f => r.number f

theorem fieldValue_of_ne (hf : f ≠ .year) : r.fieldValue converter policy f = r.number f := by
  cases f with
  | year => exact absurd rfl hf
  | month | day | hour | minute | second => rfl

theorem fieldValue_of_absent (h : ∀ t ∈ Builtin.spellings f, r.value? t.name = none) :
    r.fieldValue converter policy f = .ok none := by
  by_cases hf : f = .year
  · subst hf
    exact year_of_none (h .yyyy (.head _)) (h .yy (.tail _ (.head _)))
  · rw [fieldValue_of_ne hf]
    refine (number_of_none ?_).2 rfl
    rw [Builtin.numeric_eq_spellings hf]
    exact firstValue?_eq_none_iff.2 h

theorem readNumber_of_denotes {name : Text} {v : Int64} (h : Decimal.Denotes text v.toInt) :
    readNumber name text = .ok v :=
  readNumber_eq_ok_iff.2 (Decimal.readInt64?_eq_some_iff_denotes.2 h)

theorem readNumber_of_outOfRange {name : Text}
    (h : ∀ k, Decimal.Denotes text k → k < -2 ^ 63 ∨ 2 ^ 63 ≤ k) :
    readNumber name text = .error (.notNumeric name text) := by
  rw [readNumber, Decimal.readInt64?_eq_none_iff.2 h]

theorem fieldValue_of_decides (h : r.Decides f t text) (ht : t ≠ .yy) :
    r.fieldValue converter policy f = some <$> readNumber t.name text := by
  by_cases hf : f = .year
  · subst hf
    obtain rfl : t = .yyyy := by simpa [Builtin.spellings, ht] using h.mem_spellings
    simp only [fieldValue, year, h.value?_eq]
  · rw [fieldValue_of_ne hf]
    simp only [number, Builtin.numeric_eq_spellings hf, decides_iff.1 h]

theorem fieldValue_of_decides_yy (h : r.Decides f .yy text) : r.fieldValue converter policy f =
    readNumber Builtin.yy.name text >>= fun yy => some <$> expandYear converter policy yy := by
  obtain rfl : Field.year = f := h.field_eq
  simp only [fieldValue, year, h.yyyy_eq_none, h.value?_eq]

theorem fieldValue_of_yy {yy : Int64} (h : r.Decides f .yy text)
    (hyy : Decimal.Denotes text yy.toInt) :
    r.fieldValue converter policy f = some <$> expandYear converter policy yy := by
  rw [fieldValue_of_decides_yy h, readNumber_of_denotes hyy]
  rfl

theorem Gives.fieldValue_eq (h : r.Gives converter policy f result) :
    r.fieldValue converter policy f = result := by
  cases h with
  | absent h => exact fieldValue_of_absent h
  | @notNumeric t text h hrange =>
    by_cases ht : t = .yy
    · -- such a year is refused before it is seen whether there is a converter
      subst ht
      rw [fieldValue_of_decides_yy h, readNumber_of_outOfRange hrange]
      rfl
    · rw [fieldValue_of_decides h ht, readNumber_of_outOfRange hrange]
      rfl
  | number h ht hv =>
    rw [fieldValue_of_decides h ht, readNumber_of_denotes hv]
    rfl
  | converted h hyy hconverter hyear =>
    rw [fieldValue_of_yy h hyy, hconverter, expandYear, hyear]
    rfl
  | refused h hyy hconverter hmessage =>
    rw [fieldValue_of_yy h hyy, hconverter, expandYear, hmessage]
    rfl
  | kept h hyy hconverter hpolicy =>
    rw [fieldValue_of_yy h hyy, hconverter, hpolicy]
    rfl
  | unconverted h hyy hconverter hpolicy =>
    rw [fieldValue_of_yy h hyy, hconverter, hpolicy]
    rfl

/-- Every field is given something. -/
theorem exists_gives (r : Reading) (converter : Option YearConverter) (policy : ErrorPolicy)
    (f : Field) : ∃ result, r.Gives converter policy f result := by
  rcases r.exists_decides_or f with ⟨t, text, h⟩ | h
  · cases hread : Decimal.readInt64? text with
    | none => exact ⟨_, .notNumeric h (Decimal.readInt64?_eq_none_iff.1 hread)⟩
    | some v =>
      have hv := Decimal.readInt64?_eq_some_iff_denotes.1 hread
      by_cases ht : t = .yy
      · subst ht
        cases converter with
        | some convert =>
          cases hconvert : convert v with
          | ok year => exact ⟨_, .converted h hv rfl hconvert⟩
          | error message => exact ⟨_, .refused h hv rfl hconvert⟩
        | none =>
          cases policy with
          | silent => exact ⟨_, .kept h hv rfl rfl⟩
          | throw => exact ⟨_, .unconverted h hv rfl rfl⟩
      · exact ⟨_, .number h ht hv⟩
  · exact ⟨_, .absent h⟩

theorem gives_iff :
    r.Gives converter policy f result ↔ r.fieldValue converter policy f = result := by
  refine ⟨Gives.fieldValue_eq, ?_⟩
  rintro rfl
  obtain ⟨result, h⟩ := r.exists_gives converter policy f
  exact h.fieldValue_eq.symm ▸ h

/-- A field is given one thing only. -/
theorem Gives.unique {result' : Except ConversionError (Option Int64)}
    (h : r.Gives converter policy f result) (h' : r.Gives converter policy f result') :
    result = result' :=
  (gives_iff.1 h).symm.trans (gives_iff.1 h')

theorem Gives.of_decides_iff (h : r.Gives converter policy f result)
    (hdecides : ∀ f t text, r'.Decides f t text ↔ r.Decides f t text) :
    r'.Gives converter policy f result := by
  cases h with
  | absent h =>
    refine .absent ((r'.exists_decides_or f).resolve_left ?_)
    rintro ⟨t, text, ht⟩
    exact ((hdecides f t text).1 ht).not_absent h
  | notNumeric h hrange => exact .notNumeric ((hdecides ..).2 h) hrange
  | number h ht hv => exact .number ((hdecides ..).2 h) ht hv
  | converted h hyy hconverter hyear =>
    exact .converted ((hdecides ..).2 h) hyy hconverter hyear
  | refused h hyy hconverter hmessage =>
    exact .refused ((hdecides ..).2 h) hyy hconverter hmessage
  | kept h hyy hconverter hpolicy => exact .kept ((hdecides ..).2 h) hyy hconverter hpolicy
  | unconverted h hyy hconverter hpolicy =>
    exact .unconverted ((hdecides ..).2 h) hyy hconverter hpolicy

/-- The converter and the policy matter for the numbers that the converter is asked for. -/
theorem fieldValue_congr (h : ∀ yy, r.AsksFor yy →
      expandYear converter' policy' yy = expandYear converter policy yy) :
    r.fieldValue converter' policy' f = r.fieldValue converter policy f := by
  rcases r.exists_decides_or f with ⟨t, text, ht⟩ | hnone
  · by_cases hyy : t = .yy
    · subst hyy
      obtain rfl : Field.year = f := ht.field_eq
      rw [fieldValue_of_decides_yy ht, fieldValue_of_decides_yy ht]
      cases hread : readNumber Builtin.yy.name text with
      | error e => rfl
      | ok yy =>
        have hasked : r.AsksFor yy :=
          ⟨text, ht, Decimal.readInt64?_eq_some_iff_denotes.1 (readNumber_eq_ok_iff.1 hread)⟩
        exact congrArg (some <$> ·) (h yy hasked)
    · rw [fieldValue_of_decides ht hyy, fieldValue_of_decides ht hyy]
  · rw [fieldValue_of_absent hnone, fieldValue_of_absent hnone]

end Reading

/-! ## All fields -/

namespace DateParts

/-- The fields are filled in one after the other. -/
theorem ofReading_eq_foldlM : ofReading r converter policy =
    Field.all.foldlM (fun parts f => parts.set f <$> r.fieldValue converter policy f)
      { tokens := r.tokens } := by
  simp only [ofReading, Field.all, List.foldlM_cons, List.foldlM_nil, Reading.fieldValue]
  cases r.year converter policy with
  | error e => rfl
  | ok year =>
  cases r.number .month with
  | error e => rfl
  | ok month =>
  cases r.number .day with
  | error e => rfl
  | ok day =>
  cases r.number .hour with
  | error e => rfl
  | ok hour =>
  cases r.number .minute with
  | error e => rfl
  | ok minute =>
  cases r.number .second with
  | error e => rfl
  | ok second => rfl

theorem ofReading_eq_ok_iff_gives : ofReading r converter policy = .ok parts ↔
    (∀ f, r.Gives converter policy f (.ok (parts.get f))) ∧ parts.tokens = r.tokens := by
  simp only [ofReading_eq_ok_iff, Reading.gives_iff, ← and_assoc]
  refine and_congr_left fun _ => ⟨fun h f => ?_, fun h => ⟨h .year, fun f hf => ?_⟩⟩
  · by_cases hf : f = .year
    · exact hf ▸ h.1
    · rw [Reading.fieldValue_of_ne hf]
      exact h.2 f hf
  · rw [← Reading.fieldValue_of_ne hf]
    exact h f

/-- The run over some fields goes well when each of them has a number or none. -/
theorem exists_foldlM_set_iff :
    (∃ parts', fs.foldlM (fun parts f => parts.set f <$> r.fieldValue converter policy f) parts =
      .ok parts') ↔ ∀ f ∈ fs, ∃ value, r.fieldValue converter policy f = .ok value := by
  induction fs generalizing parts with
  | nil => exact ⟨fun _ => nofun, fun _ => ⟨parts, rfl⟩⟩
  | cons f fs ih =>
    rw [List.foldlM_cons, List.forall_mem_cons]
    cases r.fieldValue converter policy f with
    | error e => exact ⟨nofun, fun h => nomatch h.1⟩
    | ok value => exact ih.trans (and_iff_right ⟨value, rfl⟩).symm

theorem ofReading_eq_error_iff : ofReading r converter policy = .error e ↔
    ∃ before f behind, Field.all = before ++ f :: behind ∧
      (∀ g ∈ before, ∃ value, r.Gives converter policy g (.ok value)) ∧
      r.Gives converter policy f (.error e) := by
  simp only [ofReading_eq_foldlM, foldlM_eq_error_iff, map_eq_error_iff, Reading.gives_iff]
  constructor
  · rintro ⟨before, f, behind, parts, hall, hrun, herror⟩
    exact ⟨before, f, behind, hall, exists_foldlM_set_iff.1 ⟨parts, hrun⟩, herror⟩
  · rintro ⟨before, f, behind, hall, hbefore, herror⟩
    obtain ⟨parts, hrun⟩ := exists_foldlM_set_iff.2 hbefore
    exact ⟨before, f, behind, parts, hall, hrun, herror⟩

theorem ofReading_congr (htokens : r'.tokens = r.tokens)
    (hvalue : ∀ f, r'.fieldValue converter' policy' f = r.fieldValue converter policy f) :
    ofReading r' converter' policy' = ofReading r converter policy := by
  simp only [ofReading_eq_foldlM, htokens, hvalue]

/-- Date parts of any reading. They have the tokens of the reading, and each field has what the
reading gives for it. If it gives an error for a field, the error of the first such field is that of
the whole. Texts that decide no field do not matter, and the converter and the policy do not matter
unless a number of a two-digit year decides the year. -/
theorem ofReading_gives (r : Reading) (converter : Option YearConverter) (policy : ErrorPolicy) :
    (∀ parts, ofReading r converter policy = .ok parts ↔
      (∀ f, r.Gives converter policy f (.ok (parts.get f))) ∧ parts.tokens = r.tokens) ∧
    (∀ e, ofReading r converter policy = .error e ↔
      ∃ before f behind, Field.all = before ++ f :: behind ∧
        (∀ g ∈ before, ∃ value, r.Gives converter policy g (.ok value)) ∧
        r.Gives converter policy f (.error e)) ∧
    (∀ r' : Reading, r'.tokens = r.tokens →
      (∀ f t text, r'.Decides f t text ↔ r.Decides f t text) →
        ofReading r' converter policy = ofReading r converter policy) ∧
    ((∀ yy, ¬r.AsksFor yy) → ∀ converter' policy',
      ofReading r converter' policy' = ofReading r converter policy) := by
  refine ⟨fun _ => ofReading_eq_ok_iff_gives, fun _ => ofReading_eq_error_iff, ?_, ?_⟩
  · intro r' htokens hdecides
    refine ofReading_congr htokens fun f => Reading.gives_iff.1 ?_
    exact (Reading.gives_iff.2 rfl).of_decides_iff hdecides
  · intro hyy converter' policy'
    exact ofReading_congr rfl fun _ => Reading.fieldValue_congr fun yy h => absurd h (hyy yy)

/-- A year with a sign decides against a text that is no year, and a day is out of range by one. -/
theorem ofReading_gives_signed :
    let r : Reading := {
      raw := NameMap.ofList [("yyyy".toList, some "+002025".toList), ("yy".toList, some "x".toList),
        ("MM".toList, none), ("M".toList, some "-9223372036854775808".toList),
        ("d".toList, some "9223372036854775808".toList), ("HH".toList, some "+-1".toList)],
      tokens := ["MM".toList] }
    let r' : Reading := {
      raw := NameMap.ofList [("yyyy".toList, some "+002025".toList),
        ("M".toList, some "-9223372036854775808".toList),
        ("d".toList, some "9223372036854775808".toList), ("HH".toList, some "+-1".toList)],
      tokens := ["MM".toList] }
    ofReading r none .throw = .error (.notNumeric "d".toList "9223372036854775808".toList) ∧
    ofReading r' none .throw = ofReading r none .throw ∧
    ofReading r (some (.refuse "no year".toList)) .silent = ofReading r none .throw := by
  intro r r'
  have hyear : r.Decides .year .yyyy "+002025".toList := Reading.decides_iff.2 (by decide +kernel)
  obtain ⟨-, -, hdecides, hconverter⟩ := ofReading_gives r none .throw
  refine ⟨by decide +kernel, hdecides r' rfl fun f t text => ?_, hconverter ?_ _ _⟩
  · rw [Reading.decides_iff, Reading.decides_iff]
    cases f <;> exact Iff.rfl
  · rintro yy ⟨text, hyy, -⟩
    exact absurd (hyear.unique hyy).1 (by decide)

end DateParts
end Relayout
