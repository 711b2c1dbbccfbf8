import Relayout.Date.Json
import Relayout.Proofs.Json.Content

/-!
# Date parts in JSON

A value holds date parts (`DateParts.HeldBy`) when it is an object with one member at most for each
of the seven names, or an array of the six fields with or without the tokens behind them. The texts
that are read are those written for such values (`DateParts.json_heldBy`).
-/

namespace Relayout

open Json (Given IsDigits IsNumber IsWhole Members Value)
open Json.Value (IsOptionalInt IsTexts Written)

/-! ## Integers as numbers -/

theorem Decimal.isWhole_digits (n : Nat) : IsWhole (digits n) := by
  have hnumeral := numeral_digits n
  obtain ⟨hne, hdigits, hvalue⟩ := numeral_iff.1 hnumeral
  cases h : digits n with
  | nil => exact absurd h hne
  | cons c d =>
    rw [h] at hdigits hvalue
    by_cases hc : c = '0'
    case neg => exact .digits ⟨List.cons_ne_nil _ _, List.all_eq_true.1 hdigits⟩ hc
    subst hc
    cases d with
    | nil => exact .zero
    | cons c' d' =>
      -- a shorter text would do without the zero
      have hshort : Numeral (c' :: d') n := by
        rw [ofDigitChars_cons_zero, Nat.sub_self, Nat.mul_zero, Nat.zero_add] at hvalue
        exact numeral_iff.2 ⟨List.cons_ne_nil _ _, (Bool.and_eq_true_iff.1 hdigits).2, hvalue⟩
      have hlen := hshort.length_digits_le
      rw [h] at hlen
      exact absurd hlen (Nat.not_succ_le_self _)

theorem Decimal.isNumber_write (k : Int) : IsNumber (write k) := by
  have hsign : sign k = [] ∨ sign k = ['-'] := by
    unfold sign
    split
    · exact .inr rfl
    · exact .inl rfl
  have hparts := IsNumber.parts hsign (isWhole_digits k.natAbs) .absent .absent
  rwa [List.append_nil, List.append_nil, ← write_eq] at hparts

/-- Zero is written without a minus sign. -/
theorem Decimal.write_ne (k : Int) : write k ≠ "-0".toList := by
  intro h
  have hzero : Denotes "-0".toList 0 := .minus (.digit rfl)
  obtain rfl : k = 0 := (denotes_write k).unique (h ▸ hzero)
  exact absurd h (by decide)

namespace DateParts

variable {p : DateParts} {v : Value} {text : Text} {value : Field → Option Value}
  {tokens : Option Value}

/-! ## Reading -/

def memberNames : List Text := tokensName :: Field.all.map Field.name

/-- An object with some of the members, among others, or an array of all fields in order, perhaps
with the tokens behind them, holds the date parts. A field that is missing in an object is not
known, and where the tokens are missing there are none. -/
inductive HeldBy (p : DateParts) : Value → Prop
  | object {members : Members} {value : Text → Option Value}
    (hmembers : members.Gives memberNames value)
    (hfields : ∀ f, Given none IsOptionalInt (p.get f) (value f.name))
    (htokens : Given [] IsTexts p.tokens (value "tokens".toList)) : HeldBy p (.object members)
  | array {items : List Value} (hlen : items.length ≤ 7)
    (hfields : ∀ f, ∃ v, items[Field.all.idxOf f]? = some v ∧ IsOptionalInt (p.get f) v)
    (htokens : Given [] IsTexts p.tokens items[6]?) : HeldBy p (.array items)

theorem ofValues?_eq_some_iff : ofValues? value tokens = some p ↔
    (∀ f, Given none IsOptionalInt (p.get f) (value f)) ∧ Given [] IsTexts p.tokens tokens := by
  have hfield : ∀ x o, Json.orElse none Value.optionalInt64? o = some x ↔
      Given none IsOptionalInt x o := fun x =>
    Json.orElse_eq_some_iff fun v => Value.optionalInt64?_eq_some_iff
  have htexts : ∀ ts o, Json.orElse [] Value.texts? o = some ts ↔ Given [] IsTexts ts o := fun ts =>
    Json.orElse_eq_some_iff fun v => Value.texts?_eq_some_iff
  simp only [ofValues?, Option.bind_eq_bind, Option.bind_eq_some_iff, Option.pure_def,
    Option.some.injEq, hfield, htexts]
  constructor
  · rintro ⟨y, hy, mo, hmo, d, hd, h, hh, mi, hmi, s, hs, ts, hts, rfl⟩
    refine ⟨?_, hts⟩
    rintro (_ | _ | _ | _ | _ | _) <;> assumption
  · rintro ⟨h, hts⟩
    exact ⟨_, h .year, _, h .month, _, h .day, _, h .hour, _, h .minute, _, h .second, _, hts, rfl⟩

theorem ofJson?_eq_some_iff : ofJson? v = some p ↔ p.HeldBy v := by
  unfold ofJson?
  split
  next members =>
    rw [Option.bind_eq_bind, Option.bind_eq_some_iff]
    simp only [ofValues?_eq_some_iff]
    constructor
    · rintro ⟨known, hknown, hfields, htokens⟩
      exact .object (Members.gives_iff.2 ⟨known, hknown, fun _ _ => rfl⟩) hfields htokens
    · rintro ⟨hmembers, hfields, htokens⟩
      obtain ⟨known, hknown, hget⟩ := Members.gives_iff.1 hmembers
      have hname : ∀ f : Field, f.name ∈ memberNames := fun f =>
        .tail _ (List.mem_map_of_mem (Field.mem_all f))
      refine ⟨known, hknown, fun f => hget f.name (hname f) ▸ hfields f, ?_⟩
      exact hget tokensName (.head _) ▸ htokens
  next items =>
    have hlen : Field.all.length = 6 := rfl
    rw [hlen]
    have hidx : ∀ f, Field.all.idxOf f < 6 := fun f => List.idxOf_lt_length_of_mem (Field.mem_all f)
    split
    next hle =>
      rw [ofValues?_eq_some_iff]
      constructor
      · rintro ⟨hfields, htokens⟩
        refine .array hle.2 (fun f => ?_) htokens
        have hitem := List.getElem?_eq_getElem (Nat.lt_of_lt_of_le (hidx f) hle.1)
        have hfield := hfields f
        rw [hitem] at hfield
        exact ⟨_, hitem, hfield⟩
      · rintro (_ | ⟨_, hfields, htokens⟩)
        refine ⟨fun f => ?_, htokens⟩
        obtain ⟨v, hv, hfield⟩ := hfields f
        exact hv ▸ hfield
    next hlt =>
      refine ⟨nofun, ?_⟩
      rintro (_ | ⟨hle, hfields, _⟩)
      obtain ⟨v, hv, -⟩ := hfields .second
      exact absurd ⟨(List.getElem?_eq_some_iff.1 hv).1, hle⟩ hlt
  next hobject harray =>
    refine ⟨nofun, ?_⟩
    rintro (_ | _)
    · exact absurd rfl (hobject _)
    · exact absurd rfl (harray _)

/-- The earliest year is read, but zero with a minus sign is not. -/
example : ofJson? (.object [(some "year".toList, .number "-9223372036854775808".toList)]) =
      some { year := some Int64.minValue } ∧
    ofJson? (.object [(some "day".toList, .number "-0".toList)]) = none :=
  ⟨rfl, rfl⟩

/-- Date parts are read from the texts of the values that hold them, and from no others. -/
theorem readJson?_eq_some_iff : readJson? text = some p ↔ ∃ v, Written text v ∧ p.HeldBy v := by
  simp only [readJson?, Option.bind_eq_some_iff, Value.read?_eq_some_iff, ofJson?_eq_some_iff]

theorem readJson?_eq_none_of_repeated {members : Members} {name : Text}
    (hw : Written text (.object members)) (hname : name ∈ memberNames)
    (hrepeated : 2 ≤ (members.values name).length) : readJson? text = none := by
  have hknown : members.known? memberNames = none :=
    Members.known?_eq_none_iff.2 (.inr ⟨name, hname, hrepeated⟩)
  rw [readJson?, Value.read?_eq_some_iff.2 hw, Option.bind_some, ofJson?, Option.bind_eq_bind]
  exact congrArg (Option.bind · _) hknown

/-! ## Date parts written down -/

def valueOfField : Option Int64 → Value
  | none => .null
  | some x => .number (Decimal.write x.toInt)

/-- The names of the fields and of the tokens with their values. -/
def entries (p : DateParts) : List (Text × Value) :=
  (Field.all.map fun f => (f.name, valueOfField (p.get f))) ++
    [("tokens".toList, .array (p.tokens.map fun t => .string (some t)))]

theorem nodup_entries (p : DateParts) : (p.entries.map (·.1)).Nodup := by
  have hnames : p.entries.map (·.1) = Field.all.map Field.name ++ [tokensName] := rfl
  exact hnames ▸ by decide

theorem field_mem_entries (p : DateParts) (f : Field) :
    (f.name, valueOfField (p.get f)) ∈ p.entries :=
  List.mem_append_left _ (List.mem_map_of_mem (Field.mem_all f))

theorem tokens_mem_entries (p : DateParts) :
    ("tokens".toList, .array (p.tokens.map fun t => .string (some t))) ∈ p.entries :=
  List.mem_append_right _ (.head _)

theorem isOptionalInt_valueOfField (x : Option Int64) : IsOptionalInt x (valueOfField x) := by
  cases x with
  | none => exact .absent
  | some x => exact .number (Decimal.denotes_write _) (Decimal.write_ne _)

/-- An object that lists the entries of the date parts holds them. What is null or empty may be left
out. -/
theorem heldBy_object {members : Members}
    (h : members.Lists memberNames p.entries ({} : DateParts).entries) :
    p.HeldBy (.object members) := by
  obtain ⟨value, hgives, hvalue⟩ := h.exists_gives p.nodup_entries ({} : DateParts).nodup_entries
  refine .object hgives (fun f => ?_) ?_
  · refine .of_eq_or (hvalue (p.field_mem_entries f) (({} : DateParts).field_mem_entries f))
      (isOptionalInt_valueOfField _) fun heq => ?_
    have hdefault : ({} : DateParts).get f = none := by cases f <;> rfl
    rw [hdefault] at heq
    cases hx : p.get f with
    | none => rfl
    | some x => exact nomatch hx ▸ heq
  · refine .of_eq_or (hvalue p.tokens_mem_entries ({} : DateParts).tokens_mem_entries) rfl
      fun heq => ?_
    exact List.map_eq_nil_iff.1 (Value.array.inj heq)

theorem heldBy_array (p : DateParts) : p.HeldBy (.array (p.entries.map (·.2))) := by
  refine .array (Nat.le_refl _) (fun f => ⟨_, ?_, isOptionalInt_valueOfField _⟩) rfl
  cases f <;> rfl

theorem writable_valueOfField (x : Option Int64) : (valueOfField x).Writable := by
  cases x with
  | none => exact Value.writable_null
  | some x => exact Value.writable_number.2 (Decimal.isNumber_write _)

theorem writable_entries (p : DateParts) : ∀ e ∈ p.entries, e.2.Writable := by
  intro e he
  rcases List.mem_append.1 he with he | he
  · obtain ⟨f, -, rfl⟩ := List.mem_map.1 he
    exact writable_valueOfField (p.get f)
  · obtain rfl := List.mem_singleton.1 he
    exact Value.writable_array.2 (List.forall_mem_map.2 fun _ _ => Value.writable_string _)

/-- Date parts are read from the texts of the values that hold them, and from no others. Among these
values are the objects that list the fields and the tokens, in any order and with any other members,
and the array of their values; both can be written for any date parts. An object that repeats one
of the seven names is not read. -/
theorem json_heldBy :
    (∀ text p, readJson? text = some p ↔ ∃ v, Written text v ∧ p.HeldBy v) ∧
    (∀ (p : DateParts) (members : Members),
      members.Lists memberNames p.entries ({} : DateParts).entries →
        ∀ text, Written text (.object members) → readJson? text = some p) ∧
    (∀ (p : DateParts) text,
      Written text (.array (p.entries.map (·.2))) → readJson? text = some p) ∧
    (∀ p : DateParts, (∃ text, Written text (.object (p.entries.map fun e => (some e.1, e.2)))) ∧
      ∃ text, Written text (.array (p.entries.map (·.2)))) ∧
    ∀ (text : Text) (members : Members), Written text (.object members) →
      (∃ name ∈ memberNames, 2 ≤ (members.values name).length) → readJson? text = none := by
  refine ⟨fun _ _ => readJson?_eq_some_iff, fun p members h text hw => ?_, fun p text hw => ?_,
    fun p => ?_, fun text members hw ⟨name, hname, hrepeated⟩ => ?_⟩
  · exact readJson?_eq_some_iff.2 ⟨_, hw, heldBy_object h⟩
  · exact readJson?_eq_some_iff.2 ⟨_, hw, heldBy_array p⟩
  · exact Value.exists_written_entries p.writable_entries
  · exact readJson?_eq_none_of_repeated hw hname hrepeated

end DateParts
end Relayout
