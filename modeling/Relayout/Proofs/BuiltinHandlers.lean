import Relayout.Proofs.FieldNumbers
import Relayout.Proofs.Numerals

/-!
# What the built-in handlers read

Each handler reads the field that the table of fields gives for its name, and no other part of the
date. It declines where that field is not known, and the name of a month also where there is no such
month (`Builtin.handlers_fieldTable`). The year of two digits is cut off the text of the year, which
makes it a remainder where the year has two digits (`Builtin.handlers_short_year`).
-/

namespace Relayout

variable {n : Text} {f : Field} {t : Builtin} {parts parts' : DateParts} {v : Int64}
  {lead e : Text}

namespace Builtin

/-! ## One field for each name -/

theorem map_fst_fieldTable : fieldTable.map (·.1) = names := by
  rw [fieldTable_eq, List.map_map]
  rfl

theorem isMonthName_iff : t.IsMonthName ↔ t.name = "MMMM".toList ∨ t.name = "MMM".toList := by
  have hall : ∀ t ∈ all, t.IsMonthName ↔ t.name = "MMMM".toList ∨ t.name = "MMM".toList := by
    decide
  exact hall t (mem_all t)

theorem write_congr (h : parts'.get t.field = parts.get t.field) :
    t.write parts' = t.write parts := by
  rw [write, write, h]

/-- The table of handlers and the table of fields have the same names, each of them once. The
handler of a name writes alike all date parts with the same number in its field, or with none there,
whatever else they hold. It declines just where the field has no number, or where a name is asked
for a month that is none of the twelve. -/
theorem handlers_fieldTable :
    (∀ n, n ∈ handlers.names ↔ n ∈ fieldTable.map (·.1)) ∧ (fieldTable.map (·.1)).Nodup ∧
    ∀ n f, (n, f) ∈ fieldTable → ∃ source, handlers.get? n = some source ∧
      (∀ parts parts', parts'.get f = parts.get f →
        source.produce parts' = source.produce parts) ∧
      ∀ parts, source.produce parts = none ↔ parts.get f = none ∨
        (n = "MMMM".toList ∨ n = "MMM".toList) ∧
          ∃ month, parts.get f = some month ∧ (month.toInt < 1 ∨ 12 < month.toInt) := by
  refine ⟨fun n => map_fst_fieldTable ▸ mem_names_handlers, map_fst_fieldTable ▸ by decide,
    fun n f hentry => ?_⟩
  obtain ⟨t, rfl, rfl⟩ := mem_fieldTable_iff.1 hentry
  obtain ⟨place, hsource⟩ := get?_handlers t
  refine ⟨_, hsource, fun parts parts' h => write_congr h, fun parts => ?_⟩
  have hmonth : ∀ v : Int64, ¬(1 ≤ v.toInt ∧ v.toInt ≤ 12) ↔ v.toInt < 1 ∨ 12 < v.toInt := by
    intro v
    omega
  exact write_eq_none_iff.trans (by simp only [AsksInVain, isMonthName_iff, hmonth])

/-! ## Years of two digits -/

theorem write_lastTwo (h : Decimal.write v.toInt = lead ++ e) (he : e.length = 2) :
    Form.lastTwo.write v = some e := by
  simp only [Form.write, h, List.length_append, he, Nat.add_sub_cancel, List.drop_left]

theorem write_lastTwo_of_length_le (h : (Decimal.write v.toInt).length ≤ 2) :
    Form.lastTwo.write v = some (Decimal.write v.toInt) := by
  simp only [Form.write, Nat.sub_eq_zero_of_le h, List.drop_zero]

/-- A digit is written by itself, with the sign that it may have. -/
theorem write_lastTwo_of_lt (hk : v.toInt.natAbs < 10) : ∃ c,
    Form.lastTwo.write v = some (Decimal.sign v.toInt ++ [c]) ∧
      Decimal.Numeral [c] v.toInt.natAbs := by
  have hnumeral := Decimal.numeral_digits v.toInt.natAbs
  have hlen : (Decimal.digits v.toInt.natAbs).length = 1 :=
    Nat.le_antisymm (Decimal.length_digits_le Nat.one_pos hk) hnumeral.length_pos
  obtain ⟨c, hc⟩ := List.length_eq_one_iff.1 hlen
  have hwrite : Decimal.write v.toInt = Decimal.sign v.toInt ++ [c] := hc ▸ Decimal.write_eq _
  have hsign : (Decimal.sign v.toInt).length ≤ 1 := by
    unfold Decimal.sign
    split <;> decide
  refine ⟨c, hwrite ▸ write_lastTwo_of_length_le ?_, hc ▸ hnumeral⟩
  rw [hwrite, List.length_append]
  exact Nat.succ_le_succ hsign

/-- The handlers of `yy` and `yyyy`, over all 64-bit years. A year with two digits or more is
written by `yy` as the two digits of its remainder by a hundred, without its sign, and a year with
one digit as this digit behind its sign. For the years from ten on, the text of `yyyy` ends with
that of `yy`. -/
theorem handlers_short_year : ∃ short full,
    handlers.get? "yy".toList = some short ∧ handlers.get? "yyyy".toList = some full ∧
    ∀ (parts : DateParts) (y : Int64), parts.year = some y → ∃ text,
      short.produce parts = some text ∧
      (10 ≤ y.toInt.natAbs → text.length = 2 ∧ Decimal.Numeral text (y.toInt.natAbs % 100)) ∧
      (0 ≤ y.toInt → y.toInt ≤ 9 → ∃ c, text = [c] ∧ Decimal.Numeral [c] y.toInt.natAbs) ∧
      (-9 ≤ y.toInt → y.toInt ≤ -1 → ∃ c, text = ['-', c] ∧ Decimal.Numeral [c] y.toInt.natAbs) ∧
      (10 ≤ y.toInt → ∃ lead, full.produce parts = some (lead ++ text)) := by
  obtain ⟨place, hshort⟩ := get?_handlers yy
  obtain ⟨place', hfull⟩ := get?_handlers yyyy
  refine ⟨_, _, hshort, hfull, fun parts y hyear => ?_⟩
  have hwrite : ∀ t : Builtin, t.field = .year → t.write parts = t.form.write y := by
    intro t ht
    rw [write, ht, DateParts.get, hyear, Option.bind_some]
  simp only [Source.produce, hwrite yy rfl, hwrite yyyy rfl]
  by_cases hy : 10 ≤ y.toInt.natAbs
  case pos =>
    -- both texts end with the last two of the same digits
    obtain ⟨a, e, hdigits, hlen, hd, hmod⟩ := Decimal.exists_digits_eq_append hy
    have hvalue : Decimal.Numeral e (y.toInt.natAbs % 100) :=
      Decimal.numeral_iff.2 ⟨List.length_pos_iff.1 (hlen ▸ Nat.two_pos), hd, hmod⟩
    have hlast : ∀ lead, lead ++ Decimal.digits y.toInt.natAbs = lead ++ a ++ e := by
      intro lead
      rw [hdigits, List.append_assoc]
    refine ⟨e, write_lastTwo ((Decimal.write_eq _).trans (hlast _)) hlen, fun _ => ⟨hlen, hvalue⟩,
      fun _ _ => by omega, fun _ _ => by omega, fun _ => ?_⟩
    exact ⟨_, congrArg some ((Decimal.writePadded_eq 4 _).trans (hlast _))⟩
  case neg =>
    obtain ⟨c, htext, hvalue⟩ := write_lastTwo_of_lt (v := y) (by omega)
    refine ⟨_, htext, fun h => absurd h hy, fun hpos _ => ⟨c, ?_, hvalue⟩,
      fun _ hneg => ⟨c, ?_, hvalue⟩, fun _ => by omega⟩
    · rw [Decimal.sign, if_neg (by omega), List.nil_append]
    · rw [Decimal.sign, if_pos (by omega), List.singleton_append]

/-- The earliest year has no sign left. -/
example : yy.write { year := some Int64.minValue } = some "08".toList := by decide +kernel

end Builtin
end Relayout
