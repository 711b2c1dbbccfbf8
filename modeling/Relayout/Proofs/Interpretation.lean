import Relayout.Proofs.Agreement
import Relayout.Proofs.Conversion
import Relayout.Proofs.Producibility
import Relayout.Proofs.Rendering
import Relayout.Proofs.SilentConversion
import Relayout.Token.Writer

/-!
# The meaning of an output layout

What a conversion writes, said without its stages: text stands for itself, and a name for the first
text that its sources give (`Options.textOf`). A conversion that reads its input writes the output
layout in this sense, under `throw` and wherever all names of the layout are known
(`Options.convert_interprets`).
-/

namespace Relayout

open Layout

variable {o : Options} {s s' : Sources} {parsed : List Text}
  {inputLayout outputLayout layout input output n t : Text} {reading : Reading} {parts : DateParts}
  {resolved : TokenTable} {policy : ErrorPolicy} {source : Source} {f : Field}

namespace Options

/-! ## The text of a name -/

/-- The names that are tokens of an output layout. -/
def tokenNames (o : Options) : List Text :=
  (Builtin.names ++ o.custom.names ++ o.overrides.names ++ o.defaults.names).filter (· ≠ [])

/-- What goes before the handler of a name: its default if it has one and was not parsed, and else
its override. -/
def priorSource? (o : Options) (parsed : List Text) (n : Text) : Option Source :=
  if o.defaults.contains n && !parsed.contains n then o.defaults.get? n else o.overrides.get? n

/-- The caller's handler of a name, or else the built-in one. -/
def handlerSource? (o : Options) (n : Text) : Option Source :=
  (o.custom.get? n).or (Builtin.handlers.get? n)

/-- The sources of a name in the order in which they are asked. -/
def sourcesOf (o : Options) (parsed : List Text) (n : Text) : List Source :=
  (o.priorSource? parsed n).toList ++ (o.handlerSource? n).toList ++ (o.defaults.get? n).toList

/-- The first text that a source of the name gives, or the name itself if none does. -/
def textOf (o : Options) (parts : DateParts) (n : Text) : Text :=
  ((o.sourcesOf parts.tokens n).findSome? fun source => source.produce parts).getD n

/-- What a segment of an output layout stands for. -/
def meaning (o : Options) (parts : DateParts) : Segment → Text
  | .literal text | .escaped text => text
  | .token n | .word n => o.textOf parts n

theorem mem_tokenNames : n ∈ o.tokenNames ↔ n ≠ [] ∧ o.sources.Known n := by
  have hhandlers : n ∈ o.sources.handlers.names ↔ n ∈ Builtin.names ∨ n ∈ o.custom.names :=
    mem_names_handlers
  simp only [tokenNames, List.mem_filter, List.mem_append, decide_eq_true_eq, Sources.Known,
    hhandlers]
  change (((_ ∨ _) ∨ _) ∨ _) ∧ _ ↔ _ ∧ ((_ ∨ _) ∨ n ∈ o.custom.names ∨ n ∈ o.defaults.names ∨
    n ∈ o.overrides.names)
  tauto

theorem asked_sources : o.sources.asked layout =
    (outputSegments o.tokenNames layout).filterMap Segment.name? := by
  rw [← Sources.needed_eq_asked, Sources.needed]
  refine congrArg _ (outputSegments_congr_of_ne_nil fun n hn => ?_)
  rw [mem_tokenNames, and_iff_right hn, Sources.mem_names]
  rfl

theorem priorSource?_eq : o.priorSource? parsed n =
    if n ∈ o.defaults.names ∧ n ∉ parsed then o.defaults.get? n else o.overrides.get? n := by
  simp only [priorSource?, Bool.and_eq_true, NameMap.contains_eq_true_iff, Bool.not_eq_true',
    List.contains_eq_mem, decide_eq_false_iff_not]

theorem settledSource?_sources :
    o.sources.settledSource? parsed n = o.priorSource? parsed n := by
  have hdefault : o.sources.defaults.get? n = o.defaults.get? n := rfl
  have hoverride : o.sources.overrides.get? n = o.overrides.get? n := rfl
  simp only [Sources.settledSource?, priorSource?_eq, hdefault, hoverride, List.contains_eq_mem,
    decide_eq_true_eq, NameMap.mem_names_iff_isSome]
  by_cases hparsed : n ∈ parsed
  · simp only [hparsed, if_true, not_true, and_false, if_false]
  · cases hget : o.defaults.get? n with
    | none => simp only [hparsed, if_false, Option.isSome_none, Bool.false_eq_true, false_and,
        Option.none_or]
    | some source => simp only [hparsed, if_false, Option.isSome_some, not_false_eq_true,
        and_self, if_true, Option.some_or]

theorem get?_handlers : o.handlers.get? n = o.handlerSource? n := NameMap.get?_merge ..

theorem sourcesOf_of_not_set (hcustom : o.custom.get? n = none)
    (hoverride : o.overrides.get? n = none) (hdefault : o.defaults.get? n = none) :
    o.sourcesOf parsed n = (Builtin.handlers.get? n).toList := by
  have hprior : o.priorSource? parsed n = none := by
    rw [priorSource?, hdefault, hoverride, ite_self]
  simp only [sourcesOf, handlerSource?, hprior, hcustom, hdefault, Option.toList_none,
    List.nil_append, List.append_nil, Option.none_or]

end Options

/-! ## Names that fail -/

/-- A field of which no token was parsed is unknown. -/
def DateParts.FromTokens (parts : DateParts) : Prop :=
  ∀ f, (∀ u : Builtin, u.field = f → u.name ∉ parts.tokens) → parts.get f = none

theorem DateParts.fromTokens_of_ofReading {names : List Text} {mode : ParseMode}
    {converter : Option YearConverter}
    (hreading : Reading.ofInput names mode policy layout input = .ok reading)
    (hparts : ofReading reading converter policy = .ok parts) : parts.FromTokens := by
  intro f hnone
  apply get_of_none hparts
  intro u hu
  rw [(ofReading_eq_ok_iff.1 hparts).2.2] at hnone
  apply Option.eq_none_iff_forall_not_mem.2
  intro d hd
  exact hnone u hu ((Reading.sound_of_ofInput hreading).of_value _ _ hd).1

namespace Options

/-- A name that fails has no source but a built-in handler that declines. -/
theorem textOf_of_fails (hfails : o.sources.Fails parts.tokens n)
    (hparts : parts.FromTokens) : o.textOf parts n = n := by
  have hcustom : o.custom.get? n = none := by
    apply NameMap.get?_eq_none_iff.2
    exact fun hn => hfails.not_atHand (.inr (.inl hn)) (.inr (.inr (.inl hn)))
  obtain ⟨hoverride, hdefault⟩ :
      o.overrides.get? n = none ∧ o.defaults.get? n = none := Sources.get?_eq_none_of_fails hfails
  have hdeclines : ∀ source ∈ o.sourcesOf parts.tokens n, source.produce parts = none := by
    rw [sourcesOf_of_not_set hcustom hoverride hdefault]
    intro source hsource
    obtain ⟨t, place, rfl, rfl⟩ := Builtin.exists_of_get?_handlers (Option.mem_toList.1 hsource)
    have hknown : o.sources.Known t.name := .inl (mem_names_handlers.2 (.inl t.name_mem_names))
    have hfield : parts.get t.field = none := hparts t.field fun u hu hparsed =>
      hfails.not_producible hknown (.inr ⟨t, u, rfl, hu, .inl hparsed⟩)
    simp only [Source.produce, Builtin.write, hfield, Option.bind_none]
  rw [textOf, List.findSome?_eq_none_iff.2 hdeclines, Option.getD_none]

/-! ## Templates -/

/-- After the check the sources of a name that passes are those that the template asks. -/
theorem sources_resolver (hresolved : o.sources.resolve o.policy parsed layout = .ok resolved)
    (hpasses : ¬(n ∈ o.sources.asked layout ∧ o.sources.Fails parsed n)) :
    (Template.resolver o.handlers resolved o.defaults n).sources = o.sourcesOf parsed n := by
  have hprior : resolved.get? n = o.priorSource? parsed n := by
    rw [Sources.get?_of_resolve hresolved, if_neg, Sources.get?_settled, settledSource?_sources]
    rwa [Sources.needed_eq_asked, Sources.isSome_failure?_iff]
  simp only [Template.resolver, TokenResolver.sources, hprior, get?_handlers, sourcesOf]

theorem render_ofName (hresolved : o.sources.resolve o.policy parts.tokens layout = .ok resolved)
    (hn : n ∈ o.sources.asked layout)
    (hparts : parts.FromTokens) :
    (Template.Item.ofName o.handlers resolved o.defaults n).render parts = o.textOf parts n := by
  by_cases hfails : o.sources.Fails parts.tokens n
  · rw [ofName_of_isSome_failure? hresolved (Sources.needed_eq_asked ▸ hn)
      (Sources.isSome_failure?_iff.2 hfails), textOf_of_fails hfails hparts]
    rfl
  · rw [Template.render_ofName_eq_resolve, TokenResolver.resolve,
      sources_resolver hresolved fun h => hfails h.2]
    rfl

/-- Where no name is unknown, a template is read with the names that the options know. -/
theorem segments_template
    (hresolved : o.sources.resolve o.policy parsed layout = .ok resolved)
    (hknown : o.policy = .throw ∨ o.sources.strangers layout = []) :
    outputSegments (Template.names o.handlers resolved o.defaults) layout =
      outputSegments o.tokenNames layout := by
  have hstrangers : o.sources.strangers layout = [] :=
    hknown.elim (fun hthrow => strangers_eq_nil_of_throw hthrow hresolved) id
  refine outputSegments_congr_of_ne_nil fun n hn => ?_
  rw [mem_template_names hresolved, hstrangers, List.append_nil, mem_tokenNames,
    and_iff_right hn, Sources.mem_names]
  rfl

theorem mem_asked {segment : Segment} (hs : segment ∈ outputSegments o.tokenNames layout)
    (hn : segment.name? = some n) : n ∈ o.sources.asked layout := by
  rw [asked_sources]
  exact List.mem_filterMap.2 ⟨segment, hs, hn⟩

/-- Where no name is unknown, the template of a layout is written in the sense of the layout. -/
theorem render_compile
    (hresolved : o.sources.resolve o.policy parts.tokens layout = .ok resolved)
    (hknown : o.policy = .throw ∨ o.sources.strangers layout = [])
    (hparts : parts.FromTokens) :
    (Template.compile o.handlers resolved o.defaults layout).render parts =
      (outputSegments o.tokenNames layout).flatMap (o.meaning parts) := by
  rw [Template.compile, Template.render, List.flatMap_map, segments_template hresolved hknown]
  refine List.flatMap_congr fun s hs => ?_
  cases s with
  | literal _ | escaped _ => rfl
  | token n | word n => exact render_ofName hresolved (mem_asked hs rfl) hparts

/-! ## Conversions -/

/-- An input that is not handed back goes through all stages. -/
theorem exists_stages (h : o.convert inputLayout outputLayout input = .ok output)
    (hread : o.policy = .throw ∨ o.policy = .silent ∧ ¬o.HandsBack inputLayout input) :
    ∃ reading parts,
      Reading.ofInput o.handlers.names o.mode o.policy inputLayout input = .ok reading ∧
      reading.allFailed = false ∧
      DateParts.ofReading reading o.converter o.policy = .ok parts ∧
      o.write outputLayout parts = .ok output := by
  rcases hread with hthrow | ⟨hsilent, hback⟩
  · obtain ⟨reading, parts, hreading, hparts, hwrite⟩ := (convert_throw_eq_ok_iff hthrow).1 h
    rw [hthrow]
    exact ⟨reading, parts, hreading, (Reading.complete_of_ofInput hreading).allFailed_eq_false,
      hparts, hwrite⟩
  · obtain ⟨reading, hreading, hfailed⟩ := exists_reading_of_not_handsBack hback
    rw [convert_silent_of_reading hsilent hreading hfailed] at h
    obtain ⟨parts, hparts, hwrite⟩ := bind_eq_ok_iff.1 h
    rw [hsilent]
    exact ⟨reading, parts, hreading, hfailed, hparts, hwrite⟩

/-- An override of a name that has a default and was not parsed is never asked. -/
theorem write_insert_override (hdefault : t ∈ o.defaults.names) (ht : t ∉ parts.tokens)
    (source : Source) : write { o with overrides := o.overrides.insert t source } layout parts =
      o.write layout parts := by
  have hresolve : (sources { o with overrides := o.overrides.insert t source }).resolve o.policy
      parts.tokens layout = o.sources.resolve o.policy parts.tokens layout := by
    have hset : ∀ n, n ∈ (o.overrides.insert t source).names ∨ n ∈ o.defaults.names ↔
        n ∈ o.overrides.names ∨ n ∈ o.defaults.names := by
      intro n
      rw [NameMap.mem_names_insert, or_assoc, or_iff_right_iff_imp]
      rintro rfl
      exact .inr hdefault
    apply Sources.resolve_congr
    · exact fun n => or_congr_right (or_congr_right (or_comm.trans ((hset n).trans or_comm)))
    · exact fun n => or_congr_right
        (or_left_comm.trans ((or_congr_right (hset n)).trans or_left_comm))
    · intro n
      simp only [settledSource?_sources, priorSource?_eq, NameMap.get?_insert]
      -- the only name with another override has a default in its place
      by_cases hn : n = t
      · rw [hn, if_pos ⟨hdefault, ht⟩, if_pos ⟨hdefault, ht⟩]
      · rw [if_neg hn]
  exact congrArg (· >>= fun resolved =>
    pure ((Template.compile o.handlers resolved o.defaults layout).render parts)) hresolve

/-- What a conversion writes that reads its input and whose output layout has no unknown names, or
that is made under `throw`: each segment of the output layout in the sense of the date parts. The
override of a name that has a default and was not parsed is of no account. -/
theorem convert_interprets (o : Options) (inputLayout outputLayout input output : Text)
    (h : o.convert inputLayout outputLayout input = .ok output)
    (hread : o.policy = .throw ∨ o.policy = .silent ∧ ¬o.HandsBack inputLayout input ∧
      ∀ s ∈ outputSegments o.tokenNames outputLayout, ∀ n, s.name? = some n → n ∈ o.tokenNames) :
    ∃ reading parts,
      Reading.ofInput o.handlers.names o.mode o.policy inputLayout input = .ok reading ∧
      DateParts.ofReading reading o.converter o.policy = .ok parts ∧
      output = (outputSegments o.tokenNames outputLayout).flatMap (o.meaning parts) ∧
      ∀ t source, t ∈ o.defaults.names → t ∉ parts.tokens →
        convert { o with overrides := o.overrides.insert t source } inputLayout outputLayout input =
          .ok output := by
  obtain ⟨reading, parts, hreading, hfailed, hparts, hwrite⟩ :=
    exists_stages h (hread.imp_right fun hsilent => ⟨hsilent.1, hsilent.2.1⟩)
  obtain ⟨resolved, hresolved, houtput⟩ := bind_eq_ok_iff.1 hwrite
  have hknown : o.policy = .throw ∨ o.sources.strangers outputLayout = [] := by
    refine hread.imp_right fun ⟨_, _, hnames⟩ => List.eq_nil_iff_forall_not_mem.2 fun n hn => ?_
    obtain ⟨hneeded, hunknown⟩ := Sources.mem_strangers.1 hn
    rw [Sources.needed_eq_asked, asked_sources] at hneeded
    obtain ⟨s, hs, hname⟩ := List.mem_filterMap.1 hneeded
    exact hunknown (Sources.mem_names.2 (mem_tokenNames.1 (hnames s hs n hname)).2)
  have hfrom := DateParts.fromTokens_of_ofReading hreading hparts
  refine ⟨reading, parts, hreading, hparts, ?_, fun t source hdefault ht => ?_⟩
  · rw [← render_compile hresolved hknown hfrom]
    exact (Except.ok.inj houtput).symm
  · rw [convert_of_parts (o := { o with overrides := o.overrides.insert t source }) hreading
      hfailed hparts, write_insert_override hdefault ht, hwrite]

/-- The default of a token that was not parsed goes before its override and its handler. -/
theorem convert_interprets_default :
    let o : Options := Options.ofChanges [.custom "Q".toList ⟨14, Writer.quarter⟩,
      .overrideToken "Q".toList (.literal "never".toList),
      .defaultToken "Q".toList (.literal "Q?".toList)]
    o.convert "yyyyMM".toList "yyyy-Q".toList "202504".toList = .ok "2025-Q?".toList ∧
    ∃ reading parts,
      Reading.ofInput o.handlers.names o.mode o.policy "yyyyMM".toList "202504".toList =
        .ok reading ∧
      DateParts.ofReading reading o.converter o.policy = .ok parts ∧
      "2025-Q?".toList =
        (outputSegments o.tokenNames "yyyy-Q".toList).flatMap (o.meaning parts) ∧
      ∀ t source, t ∈ o.defaults.names → t ∉ parts.tokens →
        convert { o with overrides := o.overrides.insert t source } "yyyyMM".toList
          "yyyy-Q".toList "202504".toList = .ok "2025-Q?".toList := by
  intro o
  have h : o.convert "yyyyMM".toList "yyyy-Q".toList "202504".toList = .ok "2025-Q?".toList := by
    simp only [convert, write_eq_insertionSort]
    decide +kernel
  exact ⟨h, convert_interprets o _ _ _ _ h (.inl rfl)⟩

end Options

end Relayout
