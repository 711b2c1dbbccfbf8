import Relayout.Proofs.Conversion
import Relayout.Proofs.Producibility
import Relayout.Proofs.Rendering
import Relayout.Proofs.Tokens

/-!
# Writing with the built-in tokens only

Under `throw` and without tokens of the caller, date parts are written in a layout exactly when the
built-in tokens of the layout cover all its letters and their fields are at hand
(`Options.write_builtin_eq_ok_iff`).
-/

namespace Relayout

open Layout

variable {mode : ParseMode} {converter : Option YearConverter} {layout n output : Text}
  {ts us : List Builtin} {t : Builtin} {f : Field} {parts parts' : DateParts} {s : Segment}
  {input outputLayout : Text} {r : Reading}

/-- Options under `throw` that know the built-in tokens only. -/
abbrev Options.builtin (mode : ParseMode) (converter : Option YearConverter) : Options :=
  { policy := .throw, mode, converter }

/-- The built-in tokens as the only source. -/
def Sources.builtin : Sources := { handlers := Builtin.handlers }

/-! ## What can be written -/

namespace Sources

theorem mem_names_builtin : n ∈ builtin.names ↔ n ∈ Builtin.names := by
  rw [mem_names, ← Builtin.mem_names_handlers]
  exact ⟨fun h => h.resolve_right nofun, .inl⟩

theorem name_mem_map : t.name ∈ ts.map Builtin.name ↔ t ∈ ts := by
  simp only [List.mem_map]
  constructor
  · rintro ⟨u, hu, heq⟩
    exact Builtin.name_injective heq ▸ hu
  · intro ht
    exact ⟨t, ht, rfl⟩

/-- Nothing but what was parsed is at hand. -/
theorem atHand_builtin {parsed : List Text} : builtin.AtHand parsed n ↔ n ∈ parsed :=
  ⟨fun h => h.elim id fun h => h.elim nofun fun h => h.elim nofun nofun, .inl⟩

/-- A field is at hand with each of its tokens. -/
theorem name_mem_producible :
    t.name ∈ builtin.producible (ts.map Builtin.name) ↔ t.field ∈ ts.map Builtin.field := by
  simp only [mem_producible_iff, Producible, atHand_builtin, name_mem_map]
  constructor
  · rintro (ht | ⟨u, v, heq, hfield, hv⟩)
    · exact List.mem_map_of_mem ht
    · exact Builtin.name_injective heq ▸ hfield ▸ List.mem_map_of_mem hv
  · intro h
    obtain ⟨v, hv, hfield⟩ := List.mem_map.1 h
    exact .inr ⟨t, v, rfl, hfield, hv⟩

theorem field_mem_of_isDerived (h : isDerived (ts.map Builtin.name) t.name = true) :
    t.field ∈ ts.map Builtin.field := by
  simp only [isDerived, Bool.and_eq_true, decide_eq_true_eq, List.contains_iff_mem,
    name_mem_map] at h
  obtain rfl := Builtin.name_injective h.1
  exact List.mem_map.2 ⟨.yy, h.2, rfl⟩

theorem failure?_builtin : builtin.failure? (ts.map Builtin.name) t.name =
    if t.field ∈ ts.map Builtin.field then none else some (.cannotProduce t.name) := by
  have hknown : builtin.knows t.name = true :=
    knows_iff.2 (mem_names_builtin.2 (Builtin.name_mem_names t))
  unfold failure?
  split
  next hderived => rw [if_pos (field_mem_of_isDerived hderived)]
  next =>
    simp only [hknown, Bool.not_true, Bool.false_eq_true, if_false, List.contains_iff_mem,
      name_mem_producible]

theorem failure?_builtin_of_notMem (h : n ∉ Builtin.names) (parsed : List Text) :
    builtin.failure? parsed n = some (.unknownToken n) := by
  have hknown : ¬builtin.knows n = true := fun hn => h (mem_names_builtin.1 (knows_iff.1 hn))
  have hderived : ¬isDerived parsed n = true := by
    simp only [isDerived, Bool.and_eq_true, decide_eq_true_eq]
    rintro ⟨rfl, -⟩
    exact h (Builtin.name_mem_names _)
  simp only [failure?, hderived, hknown, Bool.not_false, if_false, if_true, Bool.false_eq_true]

/-- Of the parsed tokens only the fields matter. -/
theorem failure?_builtin_congr (h : ∀ f, f ∈ ts.map Builtin.field ↔ f ∈ us.map Builtin.field) :
    builtin.failure? (ts.map Builtin.name) n = builtin.failure? (us.map Builtin.name) n := by
  cases htoken : Builtin.ofName? n with
  | none =>
    have hn := Builtin.ofName?_eq_none_iff.1 htoken
    rw [failure?_builtin_of_notMem hn, failure?_builtin_of_notMem hn]
  | some t =>
    obtain rfl := Builtin.name_of_ofName? htoken
    simp only [failure?_builtin, h]

theorem resolve_builtin_congr (h : ∀ f, f ∈ ts.map Builtin.field ↔ f ∈ us.map Builtin.field) :
    builtin.resolve .throw (ts.map Builtin.name) layout =
      builtin.resolve .throw (us.map Builtin.name) layout := by
  have hsettle : builtin.settle (ts.map Builtin.name) .throw =
      builtin.settle (us.map Builtin.name) .throw := by
    funext m n
    simp only [settle, failure?_builtin_congr h]
  rw [resolve, resolve, hsettle]
  rfl

theorem mem_needed_builtin : n ∈ builtin.needed layout ↔
    ∃ s ∈ outputSegments Builtin.names layout, s.name? = some n := by
  rw [needed, outputSegments_congr fun _ => mem_names_builtin, List.mem_filterMap]

/-- A layout passes its check when its tokens leave out no letter and ask for fields at hand. -/
theorem resolve_builtin_eq_ok_iff {m : TokenTable} :
    builtin.resolve .throw (ts.map Builtin.name) layout = .ok m ↔
      m = ∅ ∧ LettersCovered Builtin.names layout ∧
        ∀ t ∈ Builtin.tokens layout, t.field ∈ ts.map Builtin.field := by
  have hiff : builtin.resolve .throw (ts.map Builtin.name) layout = .ok m ↔ m = ∅ ∧
      ∀ n ∈ builtin.needed layout, builtin.failure? (ts.map Builtin.name) n = none :=
    resolve_throw_eq_ok_iff
  rw [hiff]
  refine and_congr_right fun _ => ⟨fun hnone => ?_, fun ⟨hcovered, hfields⟩ n hn => ?_⟩
  · have hcovered : LettersCovered Builtin.names layout := by
      apply lettersCovered_of_word_notMem
      intro n hword
      have hn := notMem_of_word_mem_outputSegments Builtin.isAlpha_of_mem_names hword
      have hfail := hnone n (mem_needed_builtin.2 ⟨_, hword, rfl⟩)
      rw [failure?_builtin_of_notMem hn] at hfail
      exact nomatch hfail
    refine ⟨hcovered, fun t ht => Classical.byContradiction fun hfield => ?_⟩
    have hmem : Segment.token t.name ∈ outputSegments Builtin.names layout :=
      hcovered.outputSegments_eq ▸ Builtin.mem_tokens.1 ht
    have hfail := hnone t.name (mem_needed_builtin.2 ⟨_, hmem, rfl⟩)
    rw [failure?_builtin, if_neg hfield] at hfail
    exact nomatch hfail
  · obtain ⟨s, hs, hname⟩ := mem_needed_builtin.1 hn
    rw [hcovered.outputSegments_eq] at hs
    cases s with
    | literal _ | escaped _ => exact nomatch hname
    | word _ => exact absurd hs word_notMem_segments
    | token n' =>
      obtain rfl : n' = n := Option.some.inj hname
      obtain ⟨t, ht, rfl⟩ := Builtin.exists_of_token_mem hs
      rw [failure?_builtin, if_pos (hfields t ht)]

end Sources

/-! ## The text that is written -/

namespace Template

theorem render_ofName :
    (Item.ofName Builtin.handlers ∅ ∅ n).render parts =
      ((Builtin.ofName? n).bind fun t => t.write parts).getD n := by
  have hsources : (resolver Builtin.handlers ∅ ∅ n).sources = (Builtin.handlers.get? n).toList := by
    simp only [resolver, TokenResolver.sources, NameMap.get?_empty, Option.toList_none,
      List.nil_append, List.append_nil]
  rw [render_ofName_eq_resolve, TokenResolver.resolve, hsources]
  cases htoken : Builtin.ofName? n with
  | none =>
    have hnone : Builtin.handlers.get? n = none := by
      rw [NameMap.get?_eq_none_iff, Builtin.mem_names_handlers]
      exact Builtin.ofName?_eq_none_iff.1 htoken
    rw [hnone]
    rfl
  | some t =>
    obtain rfl := Builtin.name_of_ofName? htoken
    obtain ⟨place, hplace⟩ := Builtin.get?_handlers t
    simp only [hplace, Option.toList_some, List.findSome?_cons, List.findSome?_nil, Source.produce,
      Option.bind_some]
    cases t.write parts <;> rfl

theorem render_ofSegment :
    (Item.ofSegment Builtin.handlers ∅ ∅ s).render parts = s.written parts := by
  cases s with
  | literal _ | escaped _ => rfl
  | token _ | word _ => exact render_ofName

theorem render_compile : (compile Builtin.handlers ∅ ∅ layout).render parts =
    (outputSegments Builtin.names layout).flatMap (Segment.written parts) := by
  have hnames : outputSegments (names Builtin.handlers ∅ ∅) layout =
      outputSegments Builtin.names layout := by
    apply outputSegments_congr
    intro n
    rw [← Builtin.mem_names_handlers]
    simp only [names, NameMap.names, EmptyCollection.emptyCollection, List.map_nil,
      List.append_nil]
  rw [compile, render, hnames, List.flatMap_map]
  exact List.flatMap_congr fun s _ => render_ofSegment

end Template

namespace Options

theorem write_builtin_eq_ok_iff (htokens : parts.tokens = ts.map Builtin.name) :
    (builtin mode converter).write layout parts = .ok output ↔
      LettersCovered Builtin.names layout ∧
        (∀ t ∈ Builtin.tokens layout, t.field ∈ ts.map Builtin.field) ∧
        (segments Builtin.names layout).flatMap (Segment.written parts) = output := by
  have hwrite : (builtin mode converter).write layout parts = .ok output ↔ ∃ resolved,
      Sources.builtin.resolve .throw parts.tokens layout = .ok resolved ∧
      pure ((Template.compile Builtin.handlers resolved ∅ layout).render parts) =
        (.ok output : Except ConversionError Text) := bind_eq_ok_iff
  rw [hwrite, htokens]
  constructor
  · rintro ⟨resolved, hresolved, houtput⟩
    obtain ⟨rfl, hcovered, hfields⟩ := Sources.resolve_builtin_eq_ok_iff.1 hresolved
    refine ⟨hcovered, hfields, ?_⟩
    rw [← hcovered.outputSegments_eq, ← Template.render_compile]
    exact Except.ok.inj houtput
  · rintro ⟨hcovered, hfields, houtput⟩
    refine ⟨∅, Sources.resolve_builtin_eq_ok_iff.2 ⟨rfl, hcovered, hfields⟩, ?_⟩
    rw [Template.render_compile, hcovered.outputSegments_eq, houtput]
    rfl

/-- Of the tokens from which date parts were read only the fields matter. -/
theorem write_builtin_congr (hget : ∀ f, parts.get f = parts'.get f)
    (htokens : parts.tokens = ts.map Builtin.name) (htokens' : parts'.tokens = us.map Builtin.name)
    (hfields : ∀ f, f ∈ ts.map Builtin.field ↔ f ∈ us.map Builtin.field) :
    (builtin mode converter).write layout parts = (builtin mode converter).write layout parts' := by
  have hwrite : ∀ parts : DateParts, (builtin mode converter).write layout parts =
      Sources.builtin.resolve .throw parts.tokens layout >>= fun resolved =>
        pure ((Template.compile Builtin.handlers resolved ∅ layout).render parts) := fun _ => rfl
  rw [hwrite, hwrite, htokens, htokens', Sources.resolve_builtin_congr hfields]
  cases hresolved : Sources.builtin.resolve .throw (us.map Builtin.name) layout with
  | error e => rfl
  | ok resolved =>
    obtain ⟨rfl, -⟩ := Sources.resolve_builtin_eq_ok_iff.1 hresolved
    have hwritten : Segment.written parts = Segment.written parts' :=
      funext fun _ => Segment.written_congr hget
    apply congrArg Except.ok
    rw [Template.render_compile, Template.render_compile, hwritten]

/-! ## Conversions -/

theorem tokens_of_parts (hreading : Reading.ofInput Builtin.names mode .throw layout input = .ok r)
    (hparts : DateParts.ofReading r converter .throw = .ok parts) :
    parts.tokens = (Builtin.tokens layout).map Builtin.name := by
  rw [(DateParts.ofReading_eq_ok_iff.1 hparts).2.2, Reading.tokens_of_ofInput hreading,
    Builtin.map_name_tokens]

theorem convert_builtin_of_parts
    (hreading : Reading.ofInput Builtin.names mode .throw layout input = .ok r)
    (hparts : DateParts.ofReading r converter .throw = .ok parts) :
    (builtin mode converter).convert layout outputLayout input =
      (builtin mode converter).write outputLayout parts := by
  have hfailed := (Reading.complete_of_ofInput hreading).allFailed_eq_false
  rw [← Builtin.ofInput_handlers] at hreading
  exact convert_of_parts hreading hfailed hparts

theorem convert_builtin_eq_ok_iff :
    (builtin mode converter).convert layout outputLayout input = .ok output ↔ ∃ r parts,
      Reading.ofInput Builtin.names mode .throw layout input = .ok r ∧
      DateParts.ofReading r converter .throw = .ok parts ∧
      (builtin mode converter).write outputLayout parts = .ok output := by
  simp only [← Builtin.ofInput_handlers]
  exact convert_throw_eq_ok_iff rfl

end Options

end Relayout
