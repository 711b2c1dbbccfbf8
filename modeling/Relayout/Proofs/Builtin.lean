import Relayout.Proofs.Decimal
import Relayout.Proofs.NameMap
import Relayout.Token.Source

/-!
# Built-in tokens

Each built-in token is in the table of handlers under its name, and nothing else is. A token whose
form is a number writes just those numbers in its own width that have room in it
(`Builtin.exists_write`), and reads off what it writes (`Builtin.write_of_read`).
-/

namespace Relayout.Builtin

variable {n d : Text} {t u : Builtin} {v : Int64}

/-! ## Names -/

theorem name_mem_names (t : Builtin) : t.name ∈ names := List.mem_map_of_mem (mem_all t)

theorem name_injective (h : t.name = u.name) : t = u := by
  have hall : ∀ t ∈ all, ∀ u ∈ all, t.name = u.name → t = u := by decide
  exact hall t (mem_all t) u (mem_all u) h

/-- The built-in token of a name. -/
def ofName? (name : Text) : Option Builtin := all.find? fun t => t.name = name

theorem ofName?_eq_some_iff : ofName? n = some t ↔ t.name = n :=
  (NameMap.find?_name_eq_some_iff mem_all fun _ _ => name_injective).trans eq_comm

theorem name_of_ofName? (h : ofName? n = some t) : t.name = n := ofName?_eq_some_iff.1 h

theorem ofName?_eq_none_iff : ofName? n = none ↔ n ∉ names := by
  rw [Option.eq_none_iff_forall_not_mem]
  simp only [Option.mem_def, ofName?_eq_some_iff, names, List.mem_map, mem_all, true_and,
    not_exists]

theorem isAlpha_of_mem_names : ∀ n ∈ names, ∀ c ∈ n, c.isAlpha := by
  have h : names.all (·.all Char.isAlpha) = true := rfl
  simpa only [List.all_eq_true] using h

/-! ## The tables of fields -/

theorem fieldTable_eq : fieldTable = all.map fun t => (t.name, t.field) := rfl

theorem mem_fieldTable_iff {f : Field} :
    (n, f) ∈ fieldTable ↔ ∃ t : Builtin, t.name = n ∧ t.field = f := by
  simp only [fieldTable_eq, List.mem_map, mem_all, true_and, Prod.mk.injEq]

theorem mem_fieldNames_iff {f : Field} :
    n ∈ fieldNames f ↔ ∃ t : Builtin, t.field = f ∧ t.name = n := by
  simp only [fieldNames, List.mem_map, List.mem_filter, decide_eq_true_eq, Prod.exists,
    mem_fieldTable_iff]
  constructor
  · rintro ⟨_, _, ⟨⟨t, rfl, rfl⟩, rfl⟩, rfl⟩
    exact ⟨t, rfl, rfl⟩
  · rintro ⟨t, rfl, rfl⟩
    exact ⟨_, _, ⟨⟨t, rfl, rfl⟩, rfl⟩, rfl⟩

theorem name_mem_fieldNames {f : Field} : t.name ∈ fieldNames f ↔ t.field = f := by
  rw [mem_fieldNames_iff]
  constructor
  · rintro ⟨u, rfl, heq⟩
    exact congrArg _ (name_injective heq).symm
  · rintro rfl
    exact ⟨t, rfl, rfl⟩

/-- No token belongs to two fields. -/
theorem eq_of_mem_fieldNames {f g : Field} (hf : n ∈ fieldNames f) (hg : n ∈ fieldNames g) :
    f = g := by
  obtain ⟨t, rfl, rfl⟩ := mem_fieldNames_iff.1 hf
  exact name_mem_fieldNames.1 hg

theorem mem_numeric {f : Field} (hf : f ≠ .year) :
    t ∈ numeric f ↔ t.field = f ∧ t.form.isNumber := by
  have hall : ∀ f ∈ Field.all, f ≠ .year → ∀ t ∈ all,
      t ∈ numeric f ↔ t.field = f ∧ t.form.isNumber := by decide
  exact hall f (Field.mem_all f) hf t (mem_all t)

/-! ## The table of handlers -/

private theorem names_entries :
    (all.zipIdx.map fun (t, place) => (t.name, Source.handler ⟨place, t.write⟩)).map (·.1) =
      names := rfl

private theorem get?_handlers_eq_lookup : handlers.get? n =
    (all.zipIdx.map fun (t, place) => (t.name, Source.handler ⟨place, t.write⟩)).lookup n :=
  NameMap.get?_ofList (names_entries ▸ by decide)

theorem get?_handlers (t : Builtin) :
    ∃ place, handlers.get? t.name = some (.handler ⟨place, t.write⟩) := by
  rw [get?_handlers_eq_lookup]
  cases t <;> exact ⟨_, rfl⟩

theorem mem_names_handlers : n ∈ handlers.names ↔ n ∈ names := by
  constructor
  · intro h
    rw [NameMap.mem_names_iff_isSome, get?_handlers_eq_lookup] at h
    apply Classical.byContradiction
    intro hn
    rw [NameMap.lookup_eq_none_of_notMem (names_entries ▸ hn)] at h
    exact nomatch h
  · intro h
    obtain ⟨t, -, rfl⟩ := List.mem_map.1 h
    obtain ⟨place, hplace⟩ := get?_handlers t
    rw [NameMap.mem_names_iff_isSome, hplace]
    rfl

/-- There are no other handlers in the table. -/
theorem exists_of_get?_handlers {source : Source} (h : handlers.get? n = some source) :
    ∃ t place, name t = n ∧ source = .handler ⟨place, t.write⟩ := by
  have hn : n ∈ names := by
    rw [← mem_names_handlers, NameMap.mem_names_iff_isSome, h]
    rfl
  obtain ⟨t, -, rfl⟩ := List.mem_map.1 hn
  obtain ⟨place, hplace⟩ := get?_handlers t
  exact ⟨t, place, rfl, Option.some.inj (h.symm.trans hplace)⟩

/-! ## Numbers -/

theorem length_name_pos (t : Builtin) : 0 < t.name.length := by cases t <;> decide

theorem length_name_le (t : Builtin) : t.name.length ≤ 18 := by cases t <;> decide

/-- A number is padded up to the width of its token. -/
theorem form_write (ht : t.form.isNumber) (v : Int64) :
    t.form.write v = some (Decimal.writePadded t.name.length v.toInt) := by
  cases t with
  | yyyy | MM | dd | HH | mm | ss => rfl
  | M | d | H | m | s => exact congrArg some (Decimal.write_eq_writePadded _)
  | yy | MMMM | MMM => exact nomatch ht

theorem ne_nil_of_length_eq (hlen : d.length = t.name.length) : d ≠ [] :=
  List.length_pos_iff.1 (hlen ▸ length_name_pos t)

/-- The digits of a token are a number that has room in its width. -/
theorem exists_read (hlen : d.length = t.name.length) (hd : d.all Char.isDigit) :
    ∃ v, Decimal.readInt64? d = some v ∧ v.toInt = Nat.ofDigitChars 10 d 0 ∧
      Nat.ofDigitChars 10 d 0 < 10 ^ t.name.length := by
  obtain ⟨v, hread, hv⟩ :=
    Decimal.exists_readInt64?_eq (ne_nil_of_length_eq hlen) hd (hlen ▸ length_name_le t)
  exact ⟨v, hread, hv, hlen ▸ Decimal.ofDigitChars_lt hd⟩

theorem toInt_of_read (hlen : d.length = t.name.length) (hd : d.all Char.isDigit)
    (hread : Decimal.readInt64? d = some v) : v.toInt = Nat.ofDigitChars 10 d 0 :=
  (Decimal.readInt64?_eq_some_iff (ne_nil_of_length_eq hlen) hd).1 hread

/-- A number is written with the digits from which it was read in the same width. -/
theorem write_of_read (ht : t.form.isNumber) (hlen : d.length = t.name.length)
    (hd : d.all Char.isDigit) (hread : Decimal.readInt64? d = some v) :
    t.form.write v = some d := by
  rw [form_write ht, toInt_of_read hlen hd hread, ← hlen,
    Decimal.writePadded_ofDigitChars (ne_nil_of_length_eq hlen) hd]

/-- A number that has room in the width of a token is written in that width, and is read back. -/
theorem exists_write (ht : t.form.isNumber) {k : Nat} (hv : v.toInt = k)
    (hroom : k < 10 ^ t.name.length) :
    ∃ d, t.form.write v = some d ∧ d.length = t.name.length ∧ d.all Char.isDigit ∧
      Decimal.readInt64? d = some v := by
  obtain ⟨hlen, hd, hvalue⟩ := Decimal.writePadded_natCast (length_name_pos t) hroom
  refine ⟨_, form_write ht v, ?_⟩
  rw [hv]
  refine ⟨hlen, hd, ?_⟩
  rw [Decimal.readInt64?_eq_some_iff (ne_nil_of_length_eq hlen) hd, hvalue, hv]

end Relayout.Builtin
