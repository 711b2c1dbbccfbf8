import Relayout.Proofs.Conversion
import Relayout.Proofs.Layout.Growth
import Relayout.Proofs.Resolution

/-!
# What is checked and what is written

An output layout is read twice: once when it is checked and once when it is made into a template.
The second reading knows the names that the check has let stand for themselves. The template has the
items of the check where both readings ask for the same names at the same places
(`Options.segments_of_resolve`), but an unknown name can take the place of tokens
(`Options.not_forall_segments_eq`).
-/

namespace Relayout

open Layout

variable {o : Options} {parsed : List Text} {layout t : Text} {resolved : TokenTable}

/-- The names that an output layout asks for and that no source knows. -/
def Sources.strangers (s : Sources) (layout : Text) : List Text :=
  (s.needed layout).filter fun t => !s.knows t

theorem Sources.mem_strangers {s : Sources} :
    t ∈ s.strangers layout ↔ t ∈ s.needed layout ∧ t ∉ s.names := by
  simp only [strangers, List.mem_filter, ← Sources.knows_iff, Bool.not_eq_true', Bool.not_eq_true]

namespace Options

theorem mem_names_handlers : t ∈ o.handlers.names ↔ t ∈ Builtin.names ∨ t ∈ o.custom.names := by
  rw [handlers, NameMap.mem_names_merge, Builtin.mem_names_handlers]

/-- A year at hand has a known name. -/
theorem mem_names_of_isDerived (h : Sources.isDerived parsed t = true) : t ∈ o.sources.names := by
  simp only [Sources.isDerived, Bool.and_eq_true, decide_eq_true_eq] at h
  exact Sources.mem_names.2 (.inl (mem_names_handlers.2 (.inl (h.1 ▸ Builtin.name_mem_names _))))

theorem isSome_failure?_of_notMem (parsed : List Text) (h : t ∉ o.sources.names) :
    (o.sources.failure? parsed t).isSome := by
  rw [Option.isSome_iff_ne_none, ne_eq, Sources.failure?_eq_none_iff]
  rintro (hderived | ⟨hknown, -⟩)
  · exact h (mem_names_of_isDerived hderived)
  · exact h hknown

/-- A template is made with the names of the check and the unknown names that the layout asks
for. -/
theorem mem_template_names (h : o.sources.resolve o.policy parsed layout = .ok resolved) :
    t ∈ Template.names o.handlers resolved o.defaults ↔
      t ∈ o.sources.names ++ o.sources.strangers layout := by
  have hnames : t ∈ o.sources.names ↔
      t ∈ o.handlers.names ∨ t ∈ o.custom.names ∨ t ∈ o.defaults.names ∨ t ∈ o.overrides.names :=
    Sources.mem_names
  have hcustom : t ∈ o.custom.names → t ∈ o.handlers.names := fun h => mem_names_handlers.2 (.inr h)
  have hfailure : t ∉ o.sources.names → (o.sources.failure? parsed t).isSome :=
    isSome_failure?_of_notMem parsed
  have hsettled : t ∈ (o.sources.settled parsed).names ↔
      t ∈ o.overrides.names ∨ t ∈ o.defaults.names ∧ t ∉ parsed := Sources.mem_names_settled
  simp only [Template.names, List.mem_append, Sources.mem_strangers,
    Sources.mem_names_of_resolve h, hsettled]
  grind

/-- A name that fails is written as it is. -/
theorem ofName_of_isSome_failure? (h : o.sources.resolve o.policy parsed layout = .ok resolved)
    (ht : t ∈ o.sources.needed layout) (hfail : (o.sources.failure? parsed t).isSome) :
    Template.Item.ofName o.handlers resolved o.defaults t = .fixed t := by
  have hget : resolved.get? t = some (.literal t) := by
    rw [Sources.get?_of_resolve h, if_pos ⟨ht, hfail⟩]
  simp only [Template.Item.ofName, hget, Option.bind_some, Source.literal?]

theorem strangers_eq_nil_of_throw (hthrow : o.policy = .throw)
    (h : o.sources.resolve o.policy parsed layout = .ok resolved) :
    o.sources.strangers layout = [] := by
  apply List.eq_nil_iff_forall_not_mem.2
  intro t ht
  obtain ⟨hneeded, hunknown⟩ := Sources.mem_strangers.1 ht
  have hfail := isSome_failure?_of_notMem parsed hunknown
  rw [hthrow] at h
  rw [(Sources.resolve_throw_eq_ok_iff.1 h).2 t hneeded] at hfail
  exact nomatch hfail

/-- An unknown name is a word, and so made of letters. -/
theorem isAlpha_of_mem_strangers (ht : t ∈ o.sources.strangers layout) : ∀ c ∈ t, c.isAlpha := by
  obtain ⟨hneeded, hunknown⟩ := Sources.mem_strangers.1 ht
  obtain ⟨s, hs, hname⟩ := List.mem_filterMap.1 hneeded
  rcases mem_segmentsBy.1 hs with ⟨text, -, hs⟩ | ⟨_, _, _, rfl⟩
  · cases s with
    | literal _ | escaped _ => exact nomatch hname
    | token n =>
      obtain rfl : n = t := Option.some.inj hname
      exact absurd ((tiles_lexWords _).named text n hs) hunknown
    | word n =>
      obtain rfl : n = t := Option.some.inj hname
      obtain ⟨w, hw, rfl⟩ := exists_of_word_mem_lexWords hs
      exact ((isRuns_letterRuns text).letters w (mem_uncovered.1 hw).1).2
  · exact nomatch hname

/-- A word that no token reaches into is an unknown name. -/
theorem text_mem_strangers {text : Text} {w : Occurrence} (htext : .plain text ∈ stretches layout)
    (hclear : NoOverhang o.sources.names text)
    (hw : w ∈ uncovered (occurrences o.sources.names text) text) :
    w.text ∈ o.sources.strangers layout := by
  refine Sources.mem_strangers.2 ⟨?_, notMem_of_mem_uncovered hclear hw⟩
  exact List.mem_filterMap.2
    ⟨_, mem_segmentsBy.2 (.inl ⟨text, htext, word_mem_lexWords hw⟩), rfl⟩

/-! ## The template -/

/-- The item of a name that is checked: it stands for itself if it has failed, and else it is
written from the settled sources. -/
def checkedName (o : Options) (parsed : List Text) (t : Text) : Template.Item :=
  if (o.sources.failure? parsed t).isSome then .fixed t
  else .ofName o.handlers (o.sources.settled parsed) o.defaults t

/-- The item of a segment that is checked. -/
def checkedItem (o : Options) (parsed : List Text) : Segment → Template.Item
  | .literal text | .escaped text => .fixed text
  | .token t | .word t => o.checkedName parsed t

theorem ofName_eq_checkedName (h : o.sources.resolve o.policy parsed layout = .ok resolved)
    (ht : t ∈ o.sources.needed layout) :
    Template.Item.ofName o.handlers resolved o.defaults t = o.checkedName parsed t := by
  unfold checkedName
  split
  next hfail => exact ofName_of_isSome_failure? h ht hfail
  next hpass =>
    have hget : resolved.get? t = (o.sources.settled parsed).get? t := by
      rw [Sources.get?_of_resolve h, if_neg fun hfail => hpass hfail.2]
    simp only [Template.Item.ofName, hget]

theorem ofSegment_asToken {handlers overrides defaults : TokenTable} (s : Segment) :
    Template.Item.ofSegment handlers overrides defaults s.asToken =
      Template.Item.ofSegment handlers overrides defaults s := by
  cases s <;> rfl

/-- Where the template reads the layout as the check does, it has the items of the check. -/
theorem items_of_readAlike (h : o.sources.resolve o.policy parsed layout = .ok resolved)
    (halike : ReadAlike (Template.names o.handlers resolved o.defaults) o.sources.names layout) :
    (Template.compile o.handlers resolved o.defaults layout).items =
      (outputSegments o.sources.names layout).map (o.checkedItem parsed) := by
  let item := Template.Item.ofSegment o.handlers resolved o.defaults
  have hforget : ∀ segs : List Segment, segs.map item = (segs.map Segment.asToken).map item := by
    intro segs
    rw [List.map_map]
    exact List.map_congr_left fun s _ => (ofSegment_asToken s).symm
  rw [Template.compile, hforget, halike, ← hforget]
  refine List.map_congr_left fun s hs => ?_
  cases s with
  | literal _ | escaped _ => rfl
  | token t | word t =>
    exact ofName_eq_checkedName h (List.mem_filterMap.2 ⟨_, hs, rfl⟩)

/-- How an output layout that has passed its check is read for the template. The names are those of
the check and the unknown names that the layout asks for; under `throw`, and where no name is
unknown, the segments are those of the check. The layout is read alike where each stretch of it asks
for the same names at the same places. No token is then the beginning of a longer unknown name, and
where no token reaches over an end of a word, this is enough. A layout that is read alike has the
items of the check: what has passed is written from its sources, and what has failed is written as
it is. -/
theorem segments_of_resolve (o : Options) (parsed : List Text) (layout : Text)
    (resolved : TokenTable) (h : o.sources.resolve o.policy parsed layout = .ok resolved) :
    let checked := o.sources.names
    let written := Template.names o.handlers resolved o.defaults
    let strangers := o.sources.strangers layout
    outputSegments written layout = outputSegments (checked ++ strangers) layout ∧
      (o.policy = .throw ∨ strangers = [] →
        outputSegments written layout = outputSegments checked layout) ∧
      (ReadAlike written checked layout ↔ ∀ text, .plain text ∈ stretches layout →
        ∀ place, AsksAt written text place ↔ AsksAt checked text place) ∧
      (ReadAlike written checked layout →
        ∀ text, .plain text ∈ stretches layout → ¬Outgrown checked strangers text) ∧
      ((∀ text, .plain text ∈ stretches layout →
          NoOverhang checked text ∧ ¬Outgrown checked strangers text) →
        ReadAlike written checked layout) ∧
      (ReadAlike written checked layout →
        (Template.compile o.handlers resolved o.defaults layout).items =
          (outputSegments checked layout).map (o.checkedItem parsed)) := by
  intro checked written strangers
  have hread : outputSegments written layout = outputSegments (checked ++ strangers) layout :=
    outputSegments_congr fun _ => mem_template_names h
  have halike : ReadAlike written checked layout ↔
      ReadAlike (checked ++ strangers) checked layout := by
    rw [ReadAlike, hread, ReadAlike]
  have hletters : ∀ n ∈ strangers, ∀ c ∈ n, c.isAlpha := fun _ => isAlpha_of_mem_strangers
  refine ⟨hread, fun hnone => ?_, readAlike_iff, fun hsame text htext => ?_, fun hclear => ?_,
    items_of_readAlike h⟩
  · have hnil : strangers = [] := hnone.elim (fun hthrow => strangers_eq_nil_of_throw hthrow h) id
    rw [hread, hnil, List.append_nil]
  · exact not_outgrown hletters (readAlike_iff.1 (halike.1 hsame) text htext)
  · exact halike.2 ((readAlike_append_iff hletters (fun text htext => (hclear text htext).1)
      fun text htext _ => text_mem_strangers htext (hclear text htext).1).2
        fun text htext => (hclear text htext).2)

/-- Two unknown words, of which one is the beginning of the other. -/
theorem segments_of_resolve_unknown_words :
    let o : Options := { policy := .silent }
    ∃ resolved, o.sources.resolve o.policy ["dd".toList, "MM".toList] "dd de MMMM desde".toList =
        .ok resolved ∧
      (∀ text, .plain text ∈ stretches "dd de MMMM desde".toList →
        NoOverhang o.sources.names text ∧
          ¬Outgrown o.sources.names (o.sources.strangers "dd de MMMM desde".toList) text) ∧
      (Template.compile o.handlers resolved o.defaults "dd de MMMM desde".toList).items =
        [.token "dd".toList, .literal " ".toList, .word "de".toList, .literal " ".toList,
          .token "MMMM".toList, .literal " ".toList, .word "desde".toList].map
            (o.checkedItem ["dd".toList, "MM".toList]) := by
  intro o
  obtain ⟨resolved, h⟩ := o.sources.exists_resolve_silent ["dd".toList, "MM".toList]
    "dd de MMMM desde".toList
  have hfound : occurrences o.sources.names "dd de MMMM desde".toList =
      [⟨0, "dd".toList⟩, ⟨3, "d".toList⟩, ⟨6, "MMMM".toList⟩, ⟨11, "d".toList⟩,
        ⟨13, "s".toList⟩, ⟨14, "d".toList⟩] := by decide +kernel
  have hwords : uncovered (occurrences o.sources.names "dd de MMMM desde".toList)
      "dd de MMMM desde".toList = [⟨3, "de".toList⟩, ⟨11, "desde".toList⟩] := by decide +kernel
  have hsegments : outputSegments o.sources.names "dd de MMMM desde".toList =
      [.token "dd".toList, .literal " ".toList, .word "de".toList, .literal " ".toList,
        .token "MMMM".toList, .literal " ".toList, .word "desde".toList] := by
    rw [outputSegments_eq_insertionSort]
    decide +kernel
  have hstrangers : o.sources.strangers "dd de MMMM desde".toList =
      ["de".toList, "desde".toList] := by
    rw [Sources.strangers, Sources.needed, hsegments]
    decide +kernel
  have hlonger : ∀ p ∈ ([⟨0, "dd".toList⟩, ⟨3, "d".toList⟩, ⟨6, "MMMM".toList⟩,
      ⟨11, "d".toList⟩, ⟨13, "s".toList⟩, ⟨14, "d".toList⟩] : List Occurrence),
      (∀ w ∈ ([⟨3, "de".toList⟩, ⟨11, "desde".toList⟩] : List Occurrence), ¬p.Overlaps w) →
      ∀ n ∈ ["de".toList, "desde".toList], n <+: "dd de MMMM desde".toList.drop p.start →
        ¬p.text.length < n.length := by decide
  have hplain : stretches "dd de MMMM desde".toList = [.plain "dd de MMMM desde".toList] := by
    decide +kernel
  have hclear : ∀ text, .plain text ∈ stretches "dd de MMMM desde".toList →
      NoOverhang o.sources.names text ∧
        ¬Outgrown o.sources.names (o.sources.strangers "dd de MMMM desde".toList) text := by
    intro text htext
    rw [hplain, List.mem_singleton, Stretch.plain.injEq] at htext
    subst htext
    constructor
    · rw [NoOverhang, hwords, hfound]
      decide
    · rintro ⟨p, ⟨hp, hfree⟩, n, hn, hbegins, hlt⟩
      rw [hfound] at hp
      rw [hwords] at hfree
      rw [hstrangers] at hn
      exact hlonger p hp hfree n hn hbegins hlt
  obtain ⟨-, -, -, -, halike, hitems⟩ := segments_of_resolve o _ _ resolved h
  exact ⟨resolved, h, hclear, hsegments ▸ hitems (halike hclear)⟩

/-- The readings differ where the name of a failed word begins another run: `Myy` is the tokens `M`
and `yy` in the check, and a word once `My` is a name. -/
theorem not_forall_segments_eq : ¬ ∀ (o : Options) (input inputLayout outputLayout : Text)
    (reading : Reading) (parts : DateParts) (resolved : TokenTable),
    Reading.ofInput o.handlers.names o.mode o.policy inputLayout input = .ok reading →
    DateParts.ofReading reading o.converter o.policy = .ok parts →
    o.sources.resolve o.policy parts.tokens outputLayout = .ok resolved →
    outputSegments (Template.names o.handlers resolved o.defaults) outputLayout =
      outputSegments o.sources.names outputLayout := by
  intro h
  let o : Options := { policy := .silent }
  obtain ⟨resolved, hresolved⟩ :=
    o.sources.exists_resolve_silent ["yyyy".toList, "MM".toList] "My Myy".toList
  have heq := h o "202504".toList "yyyyMM".toList "My Myy".toList
    { raw := NameMap.ofList [("yyyy".toList, some "2025".toList), ("MM".toList, some "04".toList)]
      tokens := ["yyyy".toList, "MM".toList] }
    { year := some 2025, month := some 4, tokens := ["yyyy".toList, "MM".toList] }
    resolved (by decide +kernel) (by decide +kernel) hresolved
  have hchecked : outputSegments o.sources.names "My Myy".toList =
      [.word "My".toList, .literal " ".toList, .token "M".toList, .token "yy".toList] := by
    rw [outputSegments_eq_insertionSort]
    decide +kernel
  have hstrangers : o.sources.strangers "My Myy".toList = ["My".toList] := by
    rw [Sources.strangers, Sources.needed, hchecked]
    decide +kernel
  have hwritten : outputSegments (o.sources.names ++ ["My".toList]) "My Myy".toList =
      [.token "My".toList, .literal " ".toList, .word "Myy".toList] := by
    rw [outputSegments_eq_insertionSort]
    decide +kernel
  rw [outputSegments_congr fun _ => mem_template_names hresolved, hstrangers, hwritten,
    hchecked] at heq
  exact absurd heq (by decide)

/-- Under `silent` the tokens of such a run are written as they are, though nothing fails in it. -/
example : convert { policy := .silent } "yyyyMM".toList "My Myy".toList "202504".toList =
    .ok "My Myy".toList := by
  simp only [convert, write_eq_insertionSort]
  decide +kernel

/-- A token that reaches into a failed word is dropped for it, and read once the rest of the word is
a name: the word is not written as it is. -/
example :
    let overrides := (∅ : TokenTable).insert "-Q".toList (.literal "3".toList)
    convert { overrides, policy := .silent } "yyyy".toList "-QQ Q".toList "2025".toList =
      .ok "3Q Q".toList := by
  simp only [convert, write_eq_insertionSort]
  decide +kernel

end Options

end Relayout
