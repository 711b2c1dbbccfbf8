import Relayout.Proofs.Writing

/-!
# Dates that are read back

A layout of numbers that have room in their tokens reads what it has written: each segment has
written the piece that it takes, and tokens of one field have written the same number
(`exists_reading_of_hasRoom`). Hence the text of a template gives back the number of each field that
the layout names, and no other (`Template.ofInput_render`).
-/

namespace Relayout

open Layout

variable {mode : ParseMode} {policy : ErrorPolicy} {converter : Option YearConverter}
  {r : Reading} {parts parts' : DateParts} {t : Builtin} {layout : Text} {f : Field}

/-- The token writes its field as a number, and the number has room in the width of the token. -/
structure Builtin.HasRoom (t : Builtin) (parts : DateParts) : Prop where
  isNumber : t.form.isNumber
  exists_get : ∃ (v : Int64) (k : Nat), parts.get t.field = some v ∧ v.toInt = k ∧
    k < 10 ^ t.name.length

namespace Builtin.HasRoom

/-- What the token writes has its width, and is read as the number of its field. -/
theorem exists_write (h : t.HasRoom parts) :
    ∃ v d, parts.get t.field = some v ∧ Segment.written parts (.token t.name) = d ∧
      d.length = t.name.length ∧ d.all Char.isDigit ∧ Decimal.readInt64? d = some v := by
  obtain ⟨v, k, hget, hv, hk⟩ := h.exists_get
  obtain ⟨d, hwrite, hd⟩ := Builtin.exists_write h.isNumber hv hk
  refine ⟨v, d, hget, ?_, hd⟩
  rw [Segment.written_token, Builtin.write, hget, Option.bind_some, hwrite, Option.getD_some]

theorem ne_yy (h : t.HasRoom parts) : t ≠ .yy := by
  rintro rfl
  exact nomatch h.isNumber

end Builtin.HasRoom

/-! ## Pieces -/

theorem fits_written (hroom : ∀ t ∈ Builtin.tokens layout, t.HasRoom parts) :
    List.Forall₂ Segment.Fits (segments Builtin.names layout)
      ((segments Builtin.names layout).map (Segment.written parts)) := by
  refine List.forall₂_map_right_iff.2 (List.forall₂_same.2 fun s hs => ?_)
  cases htoken : s.token? with
  | none =>
    exact (Segment.fits_of_token?_eq_none htoken).2 (Segment.written_of_token?_eq_none hs htoken)
  | some n =>
    obtain rfl := Segment.token?_eq_some_iff.1 htoken
    obtain ⟨t, ht, rfl⟩ := Builtin.exists_of_token_mem hs
    obtain ⟨_, _, _, rfl, hlen, hd, _⟩ := (hroom t ht).exists_write
    exact ⟨hlen, hd⟩

/-- What the layout has written is read, and each token has the digits that it has written. -/
theorem exists_ofInput_written (hroom : ∀ t ∈ Builtin.tokens layout, t.HasRoom parts)
    (hyear : mode = .strict → .yyyy ∈ Builtin.tokens layout) :
    ∃ r, (∀ policy, Reading.ofInput Builtin.names mode policy layout
        ((segments Builtin.names layout).flatMap (Segment.written parts)) = .ok r) ∧
      ∀ t ∈ Builtin.tokens layout,
        r.value? t.name = some (Segment.written parts (.token t.name)) := by
  obtain ⟨r, hr⟩ : ∃ r, r = Reading.recordAll {} (Cursor.taken (segments Builtin.names layout)
    ((segments Builtin.names layout).map (Segment.written parts))) := ⟨_, rfl⟩
  refine ⟨r, fun policy => ?_, fun t ht => ?_⟩
  · rw [List.flatMap_def]
    refine Reading.ofInput_of_fits (fits_written hroom) hr fun hstrict => .inl ?_
    exact Builtin.mem_tokens.1 (hyear hstrict)
  · rw [hr]
    exact Reading.value?_recordAll (Cursor.mem_taken_map.2 ⟨Builtin.mem_tokens.1 ht, rfl⟩)
      fun d hd => (Cursor.mem_taken_map.1 hd).2

/-! ## Numbers -/

theorem get_of_written (hroom : ∀ t ∈ Builtin.tokens layout, t.HasRoom parts)
    (hc : r.Complete) (htokens : r.tokens = (Builtin.tokens layout).map Builtin.name)
    (hvalue : ∀ t ∈ Builtin.tokens layout,
      r.value? t.name = some (Segment.written parts (.token t.name)))
    (hparts : DateParts.ofReading r converter policy = .ok parts') (f : Field) :
    parts'.get f = if f ∈ (Builtin.tokens layout).map Builtin.field then parts.get f else none := by
  split
  next hf =>
    obtain ⟨t, ht, rfl⟩ := List.mem_map.1 hf
    -- whichever token has given the number, it had written the number of the field
    obtain ⟨u, hfield, -, e, v, hu, hread, hget⟩ :=
      DateParts.exists_get_of_value hparts (hroom t ht).isNumber (hvalue t ht)
    have hmem : u ∈ Builtin.tokens layout := by
      by_contra hnot
      exact nomatch (hc.value?_eq_none htokens hnot).symm.trans hu
    obtain ⟨v', d, hget', hwritten, -, -, hread'⟩ := (hroom u hmem).exists_write
    rw [hvalue u hmem, hwritten, Option.some.injEq] at hu
    rw [hget, ← hfield, hget', ← hread, ← hu, hread']
  next hf =>
    apply DateParts.get_of_none hparts
    intro u hu
    apply hc.value?_eq_none htokens
    intro hmem
    exact hf (hu ▸ List.mem_map_of_mem hmem)

/-- Numbers that have room in their tokens are read back, whatever the policies and the converter
are. -/
theorem exists_reading_of_hasRoom (hroom : ∀ t ∈ Builtin.tokens layout, t.HasRoom parts)
    (hyear : mode = .strict → .yyyy ∈ Builtin.tokens layout) :
    ∃ r, (∀ policy, Reading.ofInput Builtin.names mode policy layout
        ((segments Builtin.names layout).flatMap (Segment.written parts)) = .ok r) ∧
      ∀ converter policy, ∃ parts', DateParts.ofReading r converter policy = .ok parts' ∧
        ∀ f, parts'.get f =
          if f ∈ (Builtin.tokens layout).map Builtin.field then parts.get f else none := by
  obtain ⟨r, hreading, hvalue⟩ := exists_ofInput_written hroom hyear
  have hc := Reading.complete_of_ofInput (hreading .throw)
  have htokens : r.tokens = (Builtin.tokens layout).map Builtin.name :=
    (Reading.tokens_of_ofInput (hreading .throw)).trans Builtin.map_name_tokens.symm
  have hyy : r.value? Builtin.yy.name = none :=
    hc.value?_eq_none htokens fun h => (hroom _ h).ne_yy rfl
  refine ⟨r, hreading, fun converter policy => ?_⟩
  obtain ⟨parts', hparts'⟩ : ∃ parts', DateParts.ofReading r converter policy = .ok parts' :=
    DateParts.exists_ofReading (hc.exists_year fun h => absurd hyy h) hc.exists_number
  exact ⟨parts', hparts', get_of_written hroom hc htokens hvalue hparts'⟩

/-- The numbers are in the range of written fields: four digits for the year, and two otherwise. -/
def DateParts.InRange (parts : DateParts) : Prop :=
  ∀ f v, parts.get f = some v → 0 ≤ v.toInt ∧ v.toInt ≤ if f = .year then 9999 else 99

/-- A number in range has room in its token, if it is below ten where the token has one letter. -/
theorem DateParts.InRange.hasRoom (hrange : parts.InRange)
    (ht : t ∈ [.yyyy, .MM, .M, .dd, .d, .HH, .H, .mm, .m, .ss, .s])
    (hnamed : (parts.get t.field).isSome)
    (hshort : t.name.length = 1 → ∀ v, parts.get t.field = some v → v.toInt ≤ 9) :
    t.HasRoom parts := by
  obtain ⟨v, hget⟩ := Option.isSome_iff_exists.1 hnamed
  obtain ⟨hpos, hle⟩ := hrange _ _ hget
  obtain ⟨k, hk⟩ := Int.eq_ofNat_of_zero_le hpos
  suffices t.form.isNumber ∧ k < 10 ^ t.name.length from ⟨this.1, v, k, hget, hk, this.2⟩
  cases t with
  | yyyy =>
    have hfour : v.toInt ≤ 9999 := hle
    exact ⟨rfl, by change k < 10000; omega⟩
  | MM | dd | HH | mm | ss =>
    have htwo : v.toInt ≤ 99 := hle
    exact ⟨rfl, by change k < 100; omega⟩
  | M | d | H | m | s =>
    have hone : v.toInt ≤ 9 := hshort rfl v hget
    exact ⟨rfl, by change k < 10; omega⟩
  | yy | MMMM | MMM => exact absurd ht (by decide)

namespace Template

/-- What the template of a layout has written is read back in the layout: the fields that the layout
names have their numbers, and the others are not known. The tokens are numbers and leave out no
letter of the layout, each number is there and in range, and those of a token with one letter are
below ten. -/
theorem ofInput_render (parts : DateParts) (layout : Text) (hrange : parts.InRange)
    (hnumbers : ∀ t ∈ Builtin.tokens layout,
      t ∈ [.yyyy, .MM, .M, .dd, .d, .HH, .H, .mm, .m, .ss, .s])
    (hcovered : LettersCovered Builtin.names layout)
    (hnamed : ∀ t ∈ Builtin.tokens layout, (parts.get t.field).isSome)
    (hshort : ∀ t ∈ Builtin.tokens layout, t.name.length = 1 →
      ∀ v, parts.get t.field = some v → v.toInt ≤ 9) :
    ∀ mode policy, (mode = .strict → .yyyy ∈ Builtin.tokens layout) →
      ∃ r, Reading.ofInput Builtin.handlers.names mode policy layout
          ((compile Builtin.handlers ∅ ∅ layout).render parts) = .ok r ∧
        ∀ converter policy', ∃ parts', DateParts.ofReading r converter policy' = .ok parts' ∧
          ∀ f, parts'.get f =
            if f ∈ (Builtin.tokens layout).map Builtin.field then parts.get f else none := by
  intro mode policy hyear
  have hroom : ∀ t ∈ Builtin.tokens layout, t.HasRoom parts := fun t ht =>
    hrange.hasRoom (hnumbers t ht) (hnamed t ht) (hshort t ht)
  obtain ⟨r, hreading, hparts⟩ := exists_reading_of_hasRoom hroom hyear
  refine ⟨r, ?_, hparts⟩
  rw [Builtin.ofInput_handlers, render_compile, hcovered.outputSegments_eq]
  exact hreading policy

/-- A layout that names a field twice and no hour, with text in brackets. -/
theorem ofInput_render_repeated :
    let parts : DateParts := { year := some 987, month := some 11, day := some 5, hour := some 99 }
    (compile Builtin.handlers ∅ ∅ "d.MM.yyyy [dd] dd".toList).render parts =
      "5.11.0987 dd 05".toList ∧
    ∀ policy, ∃ r, Reading.ofInput Builtin.handlers.names .strict policy
        "d.MM.yyyy [dd] dd".toList "5.11.0987 dd 05".toList = .ok r ∧
      ∀ converter policy', ∃ parts', DateParts.ofReading r converter policy' = .ok parts' ∧
        ∀ f, parts'.get f =
          if f ∈ [Field.day, .month, .year, .day] then parts.get f else none := by
  intro parts
  have htokens : Builtin.tokens "d.MM.yyyy [dd] dd".toList = [.d, .MM, .yyyy, .dd] := by
    decide +kernel
  have hwords : outputSegments Builtin.names "d.MM.yyyy [dd] dd".toList =
      [.token "d".toList, .literal ".".toList, .token "MM".toList, .literal ".".toList,
        .token "yyyy".toList, .literal " ".toList, .escaped "dd".toList, .literal " ".toList,
        .token "dd".toList] := by
    rw [outputSegments_eq_insertionSort]
    decide +kernel
  have hcovered : LettersCovered Builtin.names "d.MM.yyyy [dd] dd".toList :=
    lettersCovered_of_word_notMem fun t ht => by
      rw [hwords] at ht
      simp at ht
  have htext : (compile Builtin.handlers ∅ ∅ "d.MM.yyyy [dd] dd".toList).render parts =
      "5.11.0987 dd 05".toList := by
    rw [compile, outputSegments_eq_insertionSort]
    decide +kernel
  have hrange : parts.InRange := by
    intro f v hget
    cases f with
    | year | month | day | hour =>
      obtain rfl := Option.some.inj hget
      decide
    | minute | second => cases hget
  have hshort : ∀ t ∈ [Builtin.d, .MM, .yyyy, .dd], t.name.length = 1 →
      ∀ v, parts.get t.field = some v → v.toInt ≤ 9 := by
    have honly : ∀ t ∈ [Builtin.d, .MM, .yyyy, .dd], t.name.length = 1 → t = .d := by decide
    intro t ht hlen v hget
    obtain rfl := honly t ht hlen
    obtain rfl := Option.some.inj hget
    decide
  refine ⟨htext, fun policy => ?_⟩
  have hread := ofInput_render parts "d.MM.yyyy [dd] dd".toList hrange (htokens ▸ by decide)
    hcovered (htokens ▸ by decide) (htokens ▸ hshort) .strict policy fun _ => htokens ▸ by decide
  rwa [htext, htokens] at hread

end Template

end Relayout
