import Relayout.Proofs.FieldNumbers
import Relayout.Proofs.Interpretation

/-!
# Names that nothing writes

The check of an output layout asks whether a token of the same field is at hand, and not whether the
field has a number that the name can write. So a name may be written as it is even under `throw`.
With the built-in handlers and fixed texts only, this is so for built-in tokens without a text of
their own: for those of a field that is not known, where the caller has set another token of the
field or the name of a month was parsed; and for the names of months that do not exist
(`Options.fallsBack_iff`).
-/

namespace Relayout

open Layout

variable {o : Options} {s : Sources} {parsed : List Text} {layout input n : Text} {t u : Builtin}
  {table : TokenTable} {reading : Reading} {parts : DateParts} {resolved : TokenTable}
  {policy : ErrorPolicy} {source : Source}

/-- All sources of the table are fixed texts. -/
def TokenTable.IsFixed (table : TokenTable) : Prop :=
  ∀ n source, table.get? n = some source → ∃ text, source = .literal text

theorem TokenTable.isFixed_empty : IsFixed ∅ := fun _ _ h => nomatch h

theorem TokenTable.IsFixed.exists_get? (h : table.IsFixed) (hn : n ∈ table.names) :
    ∃ text, table.get? n = some (.literal text) := by
  rw [NameMap.mem_names_iff_isSome, Option.isSome_iff_exists] at hn
  obtain ⟨source, hsource⟩ := hn
  obtain ⟨text, rfl⟩ := h n source hsource
  exact ⟨text, hsource⟩

/-! ## Fields that are not known -/

/-- Of a field that is not known only the name of a month was parsed. -/
theorem DateParts.isMonthName_of_get_eq_none {converter : Option YearConverter}
    (hreading : reading.Complete) (hparts : ofReading reading converter policy = .ok parts)
    (hget : parts.get t.field = none) (hfield : u.field = t.field) (hu : u.name ∈ parts.tokens) :
    u.IsMonthName := by
  rw [(ofReading_eq_ok_iff.1 hparts).2.2] at hu
  obtain ⟨d, hvalue⟩ := hreading.exists_value _ hu
  by_contra hnot
  have hknown : (parts.get t.field).isSome :=
    (isSome_get_iff hparts t.field).2 ⟨u, hfield, hnot, by rw [hvalue]; rfl⟩
  rw [hget] at hknown
  exact nomatch hknown

/-- A token that passes the check has a token of its field at hand. -/
theorem Sources.exists_atHand_of_not_fails (h : ¬s.Fails parsed t.name) :
    ∃ u : Builtin, u.field = t.field ∧ s.AtHand parsed u.name := by
  by_cases hderived : Derived parsed t.name
  · obtain rfl := Builtin.name_injective hderived.1
    exact ⟨.yy, rfl, .inl hderived.2⟩
  · have hproducible : s.Producible parsed t.name := by
      by_contra hnot
      exact h ⟨hderived, .inr hnot⟩
    rcases hproducible with hat | ⟨t', u, hname, hfield, hat⟩
    · exact ⟨t, rfl, hat⟩
    · obtain rfl := Builtin.name_injective hname
      exact ⟨u, hfield, hat⟩

namespace Options

/-! ## The sources of one name -/

/-- A name that the caller has given a text is written. -/
theorem exists_literal_mem_sourcesOf (hoverrides : o.overrides.IsFixed)
    (hdefaults : o.defaults.IsFixed) (hn : n ∈ o.overrides.names ∨ n ∈ o.defaults.names) :
    ∃ text, .literal text ∈ o.sourcesOf parsed n := by
  by_cases hdefault : n ∈ o.defaults.names
  · obtain ⟨text, hget⟩ := hdefaults.exists_get? hdefault
    refine ⟨text, List.mem_append_right _ ?_⟩
    rw [hget]
    exact .head _
  · obtain ⟨text, hget⟩ := hoverrides.exists_get? (hn.resolve_right hdefault)
    refine ⟨text, List.mem_append_left _ (List.mem_append_left _ ?_)⟩
    rw [priorSource?_eq, if_neg fun h => hdefault h.1, hget]
    exact .head _

theorem sourcesOf_builtin (hcustom : o.custom = ∅) (hoverride : n ∉ o.overrides.names)
    (hdefault : n ∉ o.defaults.names) : o.sourcesOf parsed n = (Builtin.handlers.get? n).toList :=
  sourcesOf_of_not_set (hcustom ▸ NameMap.get?_empty n) (NameMap.get?_eq_none_iff.2 hoverride)
    (NameMap.get?_eq_none_iff.2 hdefault)

theorem known_of_not_fails (h : ¬o.sources.Fails parsed n) : o.sources.Known n := by
  by_contra hunknown
  refine h ⟨fun hderived => hunknown ?_, .inl hunknown⟩
  exact Sources.mem_names.1 (mem_names_of_isDerived (Sources.isDerived_iff.2 hderived))

/-- A name falls back when it is a built-in token without a text of the caller that declines. -/
theorem forall_produce_eq_none_iff (hcustom : o.custom = ∅) (hoverrides : o.overrides.IsFixed)
    (hdefaults : o.defaults.IsFixed) (hknown : o.sources.Known n) :
    (∀ source ∈ o.sourcesOf parsed n, source.produce parts = none) ↔
      n ∉ o.overrides.names ∧ n ∉ o.defaults.names ∧
        ∃ t : Builtin, t.name = n ∧ t.write parts = none := by
  by_cases hset : n ∈ o.overrides.names ∨ n ∈ o.defaults.names
  · obtain ⟨text, htext⟩ : ∃ text, .literal text ∈ o.sourcesOf parsed n :=
      exists_literal_mem_sourcesOf hoverrides hdefaults hset
    refine ⟨fun h => ?_, fun h => absurd hset (not_or.2 ⟨h.1, h.2.1⟩)⟩
    exact nomatch h _ htext
  · obtain ⟨hoverride, hdefault⟩ := not_or.1 hset
    have hname : n ∈ Builtin.names := by
      have hnone : n ∉ o.custom.names := hcustom ▸ List.not_mem_nil
      rcases hknown with hhandler | hcustom | hdefault' | hoverride'
      · exact (mem_names_handlers.1 hhandler).resolve_right hnone
      · exact absurd hcustom hnone
      · exact absurd hdefault' hdefault
      · exact absurd hoverride' hoverride
    obtain ⟨t, -, rfl⟩ := List.mem_map.1 hname
    obtain ⟨place, hsource⟩ := Builtin.get?_handlers t
    simp only [sourcesOf_builtin hcustom hoverride hdefault, hsource, Option.toList_some,
      List.mem_singleton, forall_eq, Source.produce]
    constructor
    · exact fun hwrite => ⟨hoverride, hdefault, t, rfl, hwrite⟩
    · rintro ⟨-, -, u, hu, hwrite⟩
      exact Builtin.name_injective hu ▸ hwrite

/-- The token lets all tokens of its field pass the check, and gives the field no number: the caller
has set a text for it, or it is the name of a month that was parsed. -/
def LetsPass (o : Options) (parsed : List Text) (u : Builtin) : Prop :=
  u.name ∈ o.overrides.names ∨ u.name ∈ o.defaults.names ∨ u.IsMonthName ∧ u.name ∈ parsed

/-- What has let a token pass whose field is not known. -/
theorem exists_letsPass (hcustom : o.custom = ∅) (hreading : reading.Complete)
    (hparts : DateParts.ofReading reading o.converter policy = .ok parts)
    (hpasses : ¬o.sources.Fails parts.tokens t.name) (hget : parts.get t.field = none) :
    ∃ u : Builtin, u.field = t.field ∧ o.LetsPass parts.tokens u := by
  obtain ⟨u, hfield, hat⟩ := Sources.exists_atHand_of_not_fails hpasses
  refine ⟨u, hfield, ?_⟩
  rcases hat with hparsed | hoverride | hnone | hdefault
  · have hmonth : u.IsMonthName :=
      DateParts.isMonthName_of_get_eq_none hreading hparts hget hfield hparsed
    exact .inr (.inr ⟨hmonth, hparsed⟩)
  · exact .inl hoverride
  · have hnone : u.name ∈ o.custom.names := hnone
    rw [hcustom] at hnone
    exact absurd hnone List.not_mem_nil
  · exact .inr (.inl hdefault)

/-! ## Conversions -/

/-- The names that a conversion writes as they are, under `throw` and with no handlers but the
built-in ones. Each is a built-in token that the caller has not set. Either its field is not known,
and a token of the field has let it pass; or it is the name of a month and the month is none. -/
theorem fallsBack_iff (o : Options) (inputLayout outputLayout input output : Text)
    (hthrow : o.policy = .throw) (hcustom : o.custom = ∅) (hoverrides : o.overrides.IsFixed)
    (hdefaults : o.defaults.IsFixed)
    (h : o.convert inputLayout outputLayout input = .ok output) :
    ∃ reading parts resolved,
      Reading.ofInput o.handlers.names o.mode .throw inputLayout input = .ok reading ∧
      DateParts.ofReading reading o.converter .throw = .ok parts ∧
      o.sources.resolve .throw parts.tokens outputLayout = .ok resolved ∧
      output = (Template.compile o.handlers resolved o.defaults outputLayout).render parts ∧
      ∀ s ∈ outputSegments (Template.names o.handlers resolved o.defaults) outputLayout,
        ∀ n, s.name? = some n →
          ((Template.resolver o.handlers resolved o.defaults n).FallsBack parts ↔
            n ∉ o.overrides.names ∧ n ∉ o.defaults.names ∧ ∃ t : Builtin, t.name = n ∧
              (parts.get t.field = none ∧
                  (∃ u : Builtin, u.field = t.field ∧ o.LetsPass parts.tokens u) ∨
                t.AsksInVain parts)) := by
  obtain ⟨reading, parts, hreading, hparts, hwrite⟩ := (convert_throw_eq_ok_iff hthrow).1 h
  obtain ⟨resolved, hresolved, houtput⟩ := bind_eq_ok_iff.1 hwrite
  have hresolved' : o.sources.resolve .throw parts.tokens outputLayout = .ok resolved :=
    hthrow ▸ hresolved
  refine ⟨reading, parts, resolved, hreading, hparts, hresolved',
    (Except.ok.inj houtput).symm, fun s hs n hn => ?_⟩
  rw [segments_template hresolved (.inl hthrow)] at hs
  have hpasses : ¬o.sources.Fails parts.tokens n :=
    (Sources.resolve_throw_eq_ok_iff_get?.1 hresolved').1 n (mem_asked hs hn)
  rw [TokenResolver.FallsBack, sources_resolver hresolved fun hfails => hpasses hfails.2,
    forall_produce_eq_none_iff hcustom hoverrides hdefaults (known_of_not_fails hpasses)]
  refine and_congr_right fun _ => and_congr_right fun _ => exists_congr fun t =>
    and_congr_right fun ht => ?_
  rw [Builtin.write_eq_none_iff]
  refine or_congr_left ⟨fun hget => ⟨hget, ?_⟩, fun hget => hget.1⟩
  exact exists_letsPass hcustom (Reading.complete_of_ofInput hreading) hparts (ht ▸ hpasses) hget

/-- The thirteenth month has no name. -/
theorem fallsBack_iff_thirteenth :
    convert {} "yyyyMM".toList "MMMM yyyy".toList "202513".toList = .ok "MMMM 2025".toList ∧
    ∃ reading parts resolved,
      Reading.ofInput (handlers {}).names .positional .throw "yyyyMM".toList "202513".toList =
        .ok reading ∧
      DateParts.ofReading reading none .throw = .ok parts ∧
      (sources {}).resolve .throw parts.tokens "MMMM yyyy".toList = .ok resolved ∧
      "MMMM 2025".toList =
        (Template.compile (handlers {}) resolved ∅ "MMMM yyyy".toList).render parts ∧
      ∀ s ∈ outputSegments (Template.names (handlers {}) resolved ∅) "MMMM yyyy".toList,
        ∀ n, s.name? = some n →
          ((Template.resolver (handlers {}) resolved ∅ n).FallsBack parts ↔
            n ∉ (∅ : TokenTable).names ∧ n ∉ (∅ : TokenTable).names ∧
              ∃ t : Builtin, t.name = n ∧
                (parts.get t.field = none ∧
                    (∃ u : Builtin, u.field = t.field ∧ LetsPass {} parts.tokens u) ∨
                  t.AsksInVain parts)) := by
  have h : convert {} "yyyyMM".toList "MMMM yyyy".toList "202513".toList =
      .ok "MMMM 2025".toList := by
    simp only [convert, write_eq_insertionSort]
    decide +kernel
  exact ⟨h, fallsBack_iff {} _ _ _ _ rfl rfl TokenTable.isFixed_empty TokenTable.isFixed_empty h⟩

/-- A text for a number of the month lets its name pass. -/
example : convert (ofChanges [.overrideToken "MM".toList (.literal "06".toList)]) "yyyy".toList
    "MMMM yyyy".toList "2025".toList = .ok "MMMM 2025".toList := by
  simp only [convert, write_eq_insertionSort]
  decide +kernel

/-- A conversion that succeeds under `throw` does not give each name a text, although no handlers
but the built-in ones are there. -/
theorem not_forall_exists_produce : ¬∀ (o : Options) (inputLayout outputLayout input output : Text)
    (reading : Reading) (parts : DateParts) (resolved : TokenTable),
    o.policy = .throw → o.custom = ∅ → o.overrides.IsFixed → o.defaults.IsFixed →
    o.convert inputLayout outputLayout input = .ok output →
    Reading.ofInput o.handlers.names o.mode .throw inputLayout input = .ok reading →
    DateParts.ofReading reading o.converter .throw = .ok parts →
    o.sources.resolve .throw parts.tokens outputLayout = .ok resolved →
    ∀ s ∈ outputSegments (Template.names o.handlers resolved o.defaults) outputLayout,
      ∀ n, s.name? = some n →
        ∃ source ∈ (Template.resolver o.handlers resolved o.defaults n).sources,
          (source.produce parts).isSome := by
  intro h
  let reading : Reading :=
    { raw := NameMap.ofList [("yyyy".toList, some "2025".toList), ("MM".toList, some "13".toList)]
      tokens := ["yyyy".toList, "MM".toList] }
  let parts : DateParts :=
    { year := some 2025, month := some 13, tokens := ["yyyy".toList, "MM".toList] }
  have hreading : Reading.ofInput (handlers {}).names .positional .throw "yyyyMM".toList
      "202513".toList = .ok reading := by decide +kernel
  have hparts : DateParts.ofReading reading none .throw = .ok parts := by decide +kernel
  have hsegments : outputSegments (sources {}).names "MMMM yyyy".toList =
      [.token "MMMM".toList, .literal " ".toList, .token "yyyy".toList] := by
    rw [outputSegments_eq_insertionSort]
    decide +kernel
  have hresolve : (sources {}).resolve .throw parts.tokens "MMMM yyyy".toList = .ok ∅ := by
    refine Sources.resolve_throw_eq_ok_iff.2 ⟨rfl, ?_⟩
    rw [Sources.needed, hsegments]
    decide +kernel
  have hwrite : write {} "MMMM yyyy".toList parts = .ok "MMMM 2025".toList := by
    rw [write_eq_insertionSort]
    decide +kernel
  have hconvert : convert {} "yyyyMM".toList "MMMM yyyy".toList "202513".toList =
      .ok "MMMM 2025".toList :=
    (convert_throw_eq_ok_iff rfl).2 ⟨reading, parts, hreading, hparts, hwrite⟩
  have htemplate : outputSegments (Template.names (handlers {}) ∅ ∅) "MMMM yyyy".toList =
      [.token "MMMM".toList, .literal " ".toList, .token "yyyy".toList] := by
    rw [outputSegments_eq_insertionSort]
    decide +kernel
  obtain ⟨source, hsource, hwrites⟩ := h {} _ _ _ _ reading parts ∅ rfl rfl
    TokenTable.isFixed_empty TokenTable.isFixed_empty hconvert hreading hparts hresolve
    (.token "MMMM".toList) (htemplate ▸ .head _) "MMMM".toList rfl
  have hnone : ((Template.resolver (handlers {}) ∅ ∅ "MMMM".toList).sources.any fun source =>
      (source.produce parts).isSome) = false := by decide +kernel
  rw [List.any_eq_false] at hnone
  exact hnone source hsource hwrites

end Options

end Relayout
