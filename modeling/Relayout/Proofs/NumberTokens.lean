import Relayout.Proofs.Builtin
import Relayout.Proofs.FieldValues

/-!
# Tokens that write a whole number

The text of such a token denotes the number that it is written for, whatever the padding, so the
handler writes different numbers differently, and a reading with this text gives the field the
number again (`Builtin.handlers_number`).
-/

namespace Relayout

variable {r : Reading} {converter : Option YearConverter} {policy : ErrorPolicy} {f : Field}
  {t : Builtin} {text : Text} {parts parts' : DateParts} {v : Int64} {value : Option Int64}
  {e : ConversionError}

/-! ## One field among the others -/

/-- The spellings of a field go from the longest to the shortest. -/
theorem Builtin.pairwise_spellings (f : Field) :
    (spellings f).Pairwise fun t u => u.name.length < t.name.length := by
  cases f <;> decide

namespace Reading

/-- A text decides its field when no longer token of the field has one. -/
theorem decides_of_longest (ht : t ∈ Builtin.spellings f) (h : r.value? t.name = some text)
    (hlong : ∀ u ∈ Builtin.spellings f, t.name.length < u.name.length → r.value? u.name = none) :
    r.Decides f t text := by
  obtain ⟨before, behind, hsplit⟩ := List.append_of_mem ht
  refine ⟨before, behind, hsplit, fun u hu => ?_, h⟩
  have hlengths := Builtin.pairwise_spellings f
  rw [hsplit] at hlengths hlong
  exact hlong u (List.mem_append_left _ hu) ((List.pairwise_append.1 hlengths).2.2 u hu t (.head _))

end Reading

namespace DateParts

theorem get_of_gives (h : ofReading r converter policy = .ok parts)
    (hgives : r.Gives converter policy f (.ok value)) : parts.get f = value :=
  Except.ok.inj (((ofReading_eq_ok_iff_gives.1 h).1 f).unique hgives)

/-- A field with a number or with none is not to blame for an error. -/
theorem exists_gives_error (h : ofReading r converter policy = .error e)
    (hgives : r.Gives converter policy f (.ok value)) :
    ∃ g ≠ f, r.Gives converter policy g (.error e) := by
  obtain ⟨-, g, -, -, -, herror⟩ := ofReading_eq_error_iff.1 h
  refine ⟨g, ?_, herror⟩
  rintro rfl
  exact nomatch herror.unique hgives

theorem get_of_tokens (tokens : List Text) (f : Field) :
    ({ tokens } : DateParts).get f = none := by
  cases f <;> rfl

/-- Only one field has a spelling with a text. -/
theorem ofReading_of_only (hgives : r.Gives converter policy f (.ok value))
    (hnone : ∀ g ≠ f, ∀ u ∈ Builtin.spellings g, r.value? u.name = none) :
    ofReading r converter policy = .ok (DateParts.set { tokens := r.tokens } f value) := by
  refine ofReading_eq_ok_iff_gives.2 ⟨fun g => ?_, tokens_set _ _ _⟩
  rw [get_set]
  split
  next heq => exact heq ▸ hgives
  next hne =>
    rw [get_of_tokens]
    exact .absent (hnone g hne)

end DateParts

/-! ## What a token writes -/

namespace Builtin

theorem ne_yy_of_isNumber (ht : t.form.isNumber) : t ≠ .yy := by
  rintro rfl
  exact nomatch ht

theorem mem_spellings_of_isNumber (ht : t.form.isNumber) : t ∈ spellings t.field := by
  cases t with
  | yyyy | MM | M | dd | d | HH | H | mm | m | ss | s => decide
  | yy | MMMM | MMM => exact nomatch ht

theorem write_eq_map (ht : t.form.isNumber) (parts : DateParts) : t.write parts =
    (parts.get t.field).map fun v => Decimal.writePadded t.name.length v.toInt := by
  unfold write
  cases parts.get t.field with
  | none => rfl
  | some v => exact form_write ht v

/-- Of date parts a number token tells just the number of its field. -/
theorem write_eq_write_iff (ht : t.form.isNumber) :
    t.write parts' = t.write parts ↔ parts'.get t.field = parts.get t.field := by
  rw [write_eq_map ht, write_eq_map ht]
  refine (Option.map_injective fun v v' h => ?_).eq_iff
  exact Int64.toInt_inj.1 (Decimal.writePadded_injective h)

/-- Whatever number a token writes, its field is given this number by the text. -/
theorem gives_of_writePadded (ht : t.form.isNumber) {w : Nat}
    (h : r.Decides f t (Decimal.writePadded w v.toInt)) :
    r.Gives converter policy f (.ok (some v)) :=
  .number h (ne_yy_of_isNumber ht) (Decimal.denotes_writePadded w v.toInt)

/-- The handler of a token that writes a whole number, over all 64-bit numbers. It writes two date
parts alike just when they have the same number in its field, or both have none. A number is written
in its shortest form, with zeros between the sign and the digits where the width of the token asks
for more characters. A reading that has this text for the token, and none for a longer token of the
field, has the number in that field again; another field is to blame if there are no date parts. -/
theorem handlers_number (ht : t.form.isNumber) :
    ∃ source, handlers.get? t.name = some source ∧
      (∀ parts parts', source.produce parts' = source.produce parts ↔
        parts'.get t.field = parts.get t.field) ∧
      ∀ v : Int64, ∃ plain digits text,
        Decimal.IsShortest plain v.toInt ∧ plain = Decimal.sign v.toInt ++ digits ∧
        Decimal.Numeral digits v.toInt.natAbs ∧
        text = Decimal.sign v.toInt ++ List.replicate (t.name.length - plain.length) '0' ++
          digits ∧
        text.length = max t.name.length plain.length ∧ (t.name.length = 1 → text = plain) ∧
        (∀ parts, parts.get t.field = some v → source.produce parts = some text) ∧
        ∀ r converter policy, r.value? t.name = some text →
          (∀ u ∈ spellings t.field, t.name.length < u.name.length → r.value? u.name = none) →
            (∀ parts, DateParts.ofReading r converter policy = .ok parts →
              parts.get t.field = some v) ∧
            (∀ e, DateParts.ofReading r converter policy = .error e →
              ∃ f ≠ t.field, r.Gives converter policy f (.error e)) ∧
            ((∀ f ≠ t.field, ∀ u ∈ spellings f, r.value? u.name = none) →
              DateParts.ofReading r converter policy =
                .ok (DateParts.set { tokens := r.tokens } t.field (some v))) := by
  obtain ⟨place, hsource⟩ := get?_handlers t
  refine ⟨_, hsource, fun parts parts' => write_eq_write_iff ht, fun v => ?_⟩
  refine ⟨Decimal.write v.toInt, Decimal.digits v.toInt.natAbs,
    Decimal.writePadded t.name.length v.toInt, Decimal.isShortest_iff.2 rfl, Decimal.write_eq _,
    Decimal.numeral_digits _, Decimal.writePadded_eq _ _, Decimal.length_writePadded _ _,
    fun hone => ?_, fun parts hparts => ?_, fun r converter policy hvalue hlong => ?_⟩
  · rw [hone, Decimal.write_eq_writePadded]
  · exact (write_eq_map ht parts).trans (by rw [hparts]; rfl)
  · have hdecides := Reading.decides_of_longest (mem_spellings_of_isNumber ht) hvalue hlong
    have hgives : r.Gives converter policy t.field (.ok (some v)) :=
      gives_of_writePadded ht hdecides
    exact ⟨fun parts h => DateParts.get_of_gives h hgives,
      fun e h => DateParts.exists_gives_error h hgives, DateParts.ofReading_of_only hgives⟩

/-- A negative year is as wide as its token with its sign, and a reading of the text does not care
for a year of two digits. -/
theorem handlers_number_negative_year :
    ∃ source, handlers.get? "yyyy".toList = some source ∧
      source.produce { year := some (-5) } = some "-005".toList ∧
      source.produce { year := some Int64.minValue } ≠
        source.produce { year := some Int64.maxValue } ∧
      DateParts.ofReading { raw := NameMap.ofList [("yyyy".toList, some "-005".toList),
        ("yy".toList, some "x".toList)] } none .throw = .ok { year := some (-5) } := by
  obtain ⟨source, hsource, hinjective, hnumber⟩ := handlers_number (t := .yyyy) rfl
  obtain ⟨plain, digits, text, hplain, hdigits, -, htext, -, -, hproduce, hreading⟩ := hnumber (-5)
  obtain rfl : plain = "-5".toList := Decimal.isShortest_iff.1 hplain
  obtain rfl : digits = "5".toList := (List.cons.inj hdigits).2.symm
  obtain rfl : text = "-005".toList := htext
  have hlimits := hinjective { year := some Int64.maxValue } { year := some Int64.minValue }
  refine ⟨source, hsource, hproduce _ rfl, fun h => absurd (hlimits.1 h) (by decide), ?_⟩
  refine (hreading _ none .throw (by decide +kernel) (by decide)).2.2 fun f hf => ?_
  cases f with
  | year => exact absurd rfl hf
  | month | day | hour | minute | second => decide

/-- The text alone does not settle the field: `M` tells the month only when nothing was read for
`MM`. -/
theorem not_forall_get_of_produce : ¬ ∀ (t : Builtin) (source : Source) (parts : DateParts)
    (v : Int64) (text : Text) (r : Reading) (converter : Option YearConverter)
    (policy : ErrorPolicy), t.form.isNumber → handlers.get? t.name = some source →
    parts.get t.field = some v → source.produce parts = some text →
    r.value? t.name = some text →
    ∃ parts', DateParts.ofReading r converter policy = .ok parts' ∧
      parts'.get t.field = some v := by
  intro h
  obtain ⟨place, hsource⟩ := get?_handlers .M
  let r : Reading := { raw := NameMap.ofList [("M".toList, some "7".toList),
    ("MM".toList, some "04".toList)], tokens := ["M".toList, "MM".toList] }
  obtain ⟨parts, hparts, hmonth⟩ := h .M _ { month := some 7 } 7 "7".toList r none .throw rfl
    hsource rfl rfl (by decide +kernel)
  have hread : DateParts.ofReading r none .throw =
      .ok { month := some 4, tokens := ["M".toList, "MM".toList] } := by decide +kernel
  obtain rfl := Except.ok.inj (hread.symm.trans hparts)
  exact absurd hmonth (by decide)

/-- Nor does it settle that there are date parts. -/
example : DateParts.ofReading { raw := NameMap.ofList [("M".toList, some "7".toList),
    ("d".toList, some "x".toList)] } none .throw =
      .error (.notNumeric "d".toList "x".toList) := by decide +kernel

end Builtin
end Relayout
