import Relayout.Proofs.Builtin
import Relayout.Proofs.Layout.Segments
import Relayout.Proofs.Resolution
import Relayout.Proofs.Results

/-!
# What an output layout may ask for

A name passes the check of an output layout when some source knows it and it is producible, or when
it is the four-digit year of a two-digit one. Adding the tokens of one field after the other reaches
just the tokens that share a field with a name at hand (`Sources.mem_producible_iff`), for no token
belongs to two fields. Under `throw` the first name that fails is the error, and under `silent` each
name that fails stands for itself (`Sources.resolve_decides`).
-/

namespace Relayout

open Layout
open Builtin (fieldNames mem_fieldNames_iff name_mem_fieldNames eq_of_mem_fieldNames)

variable {s s' : Sources} {parsed names : List Text} {fields : List Field} {layout n : Text}
  {t : Builtin} {f g : Field} {m m' : TokenTable} {e : ConversionError} {policy : ErrorPolicy}

namespace Sources

/-- Some source has the name. -/
def Known (s : Sources) (n : Text) : Prop :=
  n ∈ s.handlers.names ∨ n ∈ s.custom.names ∨ n ∈ s.defaults.names ∨ n ∈ s.overrides.names

/-- The name was parsed, or the caller has given a source for it. -/
def AtHand (s : Sources) (parsed : List Text) (n : Text) : Prop :=
  n ∈ parsed ∨ n ∈ s.overrides.names ∨ n ∈ s.custom.names ∨ n ∈ s.defaults.names

/-- The name is at hand, or it is a token whose field has a token at hand. -/
def Producible (s : Sources) (parsed : List Text) (n : Text) : Prop :=
  s.AtHand parsed n ∨
    ∃ t u : Builtin, t.name = n ∧ u.field = t.field ∧ s.AtHand parsed u.name

/-- The four-digit year where a two-digit year was parsed. -/
def Derived (parsed : List Text) (n : Text) : Prop :=
  n = Builtin.yyyy.name ∧ Builtin.yy.name ∈ parsed

/-- The name does not pass the check of a layout that asks for it. -/
def Fails (s : Sources) (parsed : List Text) (n : Text) : Prop :=
  ¬Derived parsed n ∧ (¬s.Known n ∨ ¬s.Producible parsed n)

/-- The names that the tokens and words of a layout ask for, in order, where the names of all
sources but the empty one are tokens. -/
def asked (s : Sources) (layout : Text) : List Text :=
  (outputSegments (s.names.filter (· ≠ [])) layout).filterMap Segment.name?

/-- The override of a name, or its default in place of it if the name was not parsed. -/
def settledSource? (s : Sources) (parsed : List Text) (n : Text) : Option Source :=
  if parsed.contains n then s.overrides.get? n else (s.defaults.get? n).or (s.overrides.get? n)

/-! ## Field after field -/

theorem mem_expandField :
    n ∈ expandField names f ↔ n ∈ names ∨ n ∈ fieldNames f ∧ ∃ u ∈ fieldNames f, u ∈ names := by
  have hany : (fieldNames f).any names.contains = true ↔ ∃ u ∈ fieldNames f, u ∈ names := by
    simp only [List.any_eq_true, List.contains_iff_mem]
  unfold expandField
  cases h : (fieldNames f).any names.contains with
  | true => rw [cond_true, List.mem_append, and_iff_left (hany.1 h)]
  | false =>
    rw [cond_false]
    refine ⟨.inl, fun h' => h'.resolve_right fun h' => ?_⟩
    rw [hany.2 h'.2] at h
    exact nomatch h

/-- What one field adds leaves the other fields as they are. -/
theorem exists_mem_expandField : (∃ u ∈ fieldNames g, u ∈ expandField names f) ↔
    ∃ u ∈ fieldNames g, u ∈ names := by
  constructor
  · rintro ⟨u, hu, hadded⟩
    rcases mem_expandField.1 hadded with h | ⟨hf, hthere⟩
    · exact ⟨u, hu, h⟩
    · exact eq_of_mem_fieldNames hf hu ▸ hthere
  · rintro ⟨u, hu, h⟩
    exact ⟨u, hu, mem_expandField.2 (.inl h)⟩

/-- One pass over the fields adds the tokens of just those that had a token before the pass. -/
theorem mem_foldl_expandField : n ∈ fields.foldl expandField names ↔
    n ∈ names ∨ ∃ f ∈ fields, n ∈ fieldNames f ∧ ∃ u ∈ fieldNames f, u ∈ names := by
  induction fields generalizing names with
  | nil => simp only [List.foldl_nil, List.not_mem_nil, false_and, exists_false, or_false]
  | cons f fs ih =>
    rw [List.foldl_cons, ih, mem_expandField]
    simp only [exists_mem_expandField, List.mem_cons, exists_eq_or_imp, or_assoc]

theorem mem_expandFields : n ∈ expandFields names ↔
    n ∈ names ∨ ∃ t u : Builtin, t.name = n ∧ u.field = t.field ∧ u.name ∈ names := by
  rw [expandFields, mem_foldl_expandField]
  refine or_congr_right ⟨?_, ?_⟩
  · rintro ⟨f, -, hn, u, hu, hmem⟩
    obtain ⟨t, rfl, rfl⟩ := mem_fieldNames_iff.1 hn
    obtain ⟨u, hfield, rfl⟩ := mem_fieldNames_iff.1 hu
    exact ⟨t, u, rfl, hfield, hmem⟩
  · rintro ⟨t, u, rfl, hfield, hmem⟩
    exact ⟨t.field, Field.mem_all _, name_mem_fieldNames.2 rfl, u.name,
      name_mem_fieldNames.2 hfield, hmem⟩

theorem mem_producible_iff : n ∈ s.producible parsed ↔ s.Producible parsed n := by
  have hseed : ∀ u, u ∈ parsed ++ s.overrides.names ++ s.custom.names ++ s.defaults.names ↔
      s.AtHand parsed u := by
    intro u
    simp only [List.mem_append, or_assoc]
    rfl
  simp only [producible, mem_expandFields, hseed]
  rfl

/-! ## One name -/

theorem isDerived_iff : isDerived parsed n = true ↔ Derived parsed n := by
  simp only [isDerived, Bool.and_eq_true, decide_eq_true_eq, List.contains_iff_mem]
  rfl

theorem knows_iff_known : s.knows n = true ↔ s.Known n := knows_iff.trans mem_names

theorem failure?_eq_some_iff : s.failure? parsed n = some e ↔ s.Fails parsed n ∧
    (¬s.Known n ∧ .unknownToken n = e ∨ s.Known n ∧ .cannotProduce n = e) := by
  unfold failure? Fails
  split
  next h => exact ⟨nofun, fun h' => absurd (isDerived_iff.1 h) h'.1.1⟩
  next h =>
    have hderived : ¬Derived parsed n := fun h' => h (isDerived_iff.2 h')
    split
    next hknown =>
      have hknown : ¬s.Known n := by
        rwa [Bool.not_eq_true', ← Bool.not_eq_true, knows_iff_known] at hknown
      simp only [Option.some.injEq, hderived, hknown, not_false_eq_true, true_or, and_self,
        true_and, false_and, or_false]
    next hknown =>
      have hknown : s.Known n := by
        rwa [Bool.not_eq_true', Bool.not_eq_false, knows_iff_known] at hknown
      split
      next hat =>
        rw [List.contains_iff_mem, mem_producible_iff] at hat
        simp only [reduceCtorEq, hknown, hat, not_true, or_self, and_false, false_and]
      next hat =>
        rw [List.contains_iff_mem, mem_producible_iff] at hat
        simp only [Option.some.injEq, hderived, hknown, hat, not_false_eq_true, not_true,
          or_true, and_self, true_and, false_and, false_or]

theorem isSome_failure?_iff : (s.failure? parsed n).isSome ↔ s.Fails parsed n := by
  simp only [Option.isSome_iff_exists, failure?_eq_some_iff, exists_and_left]
  refine and_iff_left ?_
  by_cases hknown : s.Known n
  · exact ⟨_, .inr ⟨hknown, rfl⟩⟩
  · exact ⟨_, .inl ⟨hknown, rfl⟩⟩

theorem failure?_eq_none_iff_not_fails : s.failure? parsed n = none ↔ ¬s.Fails parsed n := by
  rw [← isSome_failure?_iff, Option.not_isSome_iff_eq_none]

theorem Fails.not_producible (h : s.Fails parsed n) (hknown : s.Known n) :
    ¬s.Producible parsed n := h.2.resolve_left (not_not_intro hknown)

theorem Fails.not_atHand (h : s.Fails parsed n) (hknown : s.Known n) : ¬s.AtHand parsed n :=
  fun hat => h.not_producible hknown (.inl hat)

/-- A name that fails has no source of the caller. -/
theorem get?_eq_none_of_fails (h : s.Fails parsed n) :
    s.overrides.get? n = none ∧ s.defaults.get? n = none := by
  refine ⟨NameMap.get?_eq_none_iff.2 fun hn => ?_, NameMap.get?_eq_none_iff.2 fun hn => ?_⟩
  · exact h.not_atHand (.inr (.inr (.inr hn))) (.inr (.inl hn))
  · exact h.not_atHand (.inr (.inr (.inl hn))) (.inr (.inr (.inr hn)))

/-! ## All names -/

theorem get?_settled (n : Text) : (s.settled parsed).get? n = s.settledSource? parsed n := by
  rw [settled, NameMap.get?_merge, NameMap.get?_filterNames, settledSource?]
  by_cases h : n ∈ parsed
  · simp [h]
  · simp [h]

theorem needed_eq_asked : s.needed layout = s.asked layout := by
  have hnames : ∀ n ≠ [], n ∈ s.names ↔ n ∈ s.names.filter (· ≠ []) := by
    intro n hn
    simp only [List.mem_filter, hn, ne_eq, not_false_eq_true, decide_true, and_true]
  rw [needed, asked, outputSegments_congr_of_ne_nil hnames]

theorem settle_throw_eq_error_iff :
    s.settle parsed .throw m n = .error e ↔ s.failure? parsed n = some e := by
  cases hfail : s.failure? parsed n with
  | none => simp only [settle_of_eq_none hfail, reduceCtorEq]
  | some e' => simp only [settle_throw_of_eq_some hfail, Except.error.injEq, Option.some.injEq]

theorem foldlM_settle_throw_eq_ok_iff : names.foldlM (s.settle parsed .throw) m = .ok m' ↔
    m' = m ∧ ∀ u ∈ names, ¬s.Fails parsed u := by
  simp only [← failure?_eq_none_iff_not_fails]
  exact ⟨foldlM_settle_throw, fun h => h.1 ▸ foldlM_settle_eq_ok h.2⟩

/-- Under `throw` the first name that fails is the error. -/
theorem resolve_throw_eq_error_iff : s.resolve .throw parsed layout = .error e ↔
    ∃ before n behind, s.asked layout = before ++ n :: behind ∧
      (∀ u ∈ before, ¬s.Fails parsed u) ∧ s.Fails parsed n ∧
        (¬s.Known n ∧ .unknownToken n = e ∨ s.Known n ∧ .cannotProduce n = e) := by
  simp only [resolve, needed_eq_asked, foldlM_eq_error_iff, foldlM_settle_throw_eq_ok_iff,
    settle_throw_eq_error_iff, failure?_eq_some_iff]
  constructor
  · rintro ⟨before, n, behind, _, hsplit, ⟨-, hbefore⟩, hn⟩
    exact ⟨before, n, behind, hsplit, hbefore, hn⟩
  · rintro ⟨before, n, behind, hsplit, hbefore, hn⟩
    exact ⟨before, n, behind, _, hsplit, ⟨rfl, hbefore⟩, hn⟩

theorem resolve_throw_eq_ok_iff_get? : s.resolve .throw parsed layout = .ok m ↔
    (∀ n ∈ s.asked layout, ¬s.Fails parsed n) ∧ ∀ n, m.get? n = s.settledSource? parsed n := by
  rw [resolve, foldlM_settle_throw_eq_ok_iff, needed_eq_asked, and_comm]
  refine and_congr_right fun _ => ?_
  simp only [← get?_settled]
  exact ⟨fun h _ => h ▸ rfl, NameMap.ext_get?⟩

/-- Of the sources only those that are known, at hand and settled matter. -/
theorem resolve_congr (hknown : ∀ n, s.Known n ↔ s'.Known n)
    (hat : ∀ n, s.AtHand parsed n ↔ s'.AtHand parsed n)
    (hsettled : ∀ n, s.settledSource? parsed n = s'.settledSource? parsed n) :
    s.resolve policy parsed layout = s'.resolve policy parsed layout := by
  have hfails : ∀ n, s.failure? parsed n = s'.failure? parsed n := by
    intro n
    ext e
    simp only [failure?_eq_some_iff, Fails, Producible, hknown, hat]
  have hsettle : s.settle parsed policy = s'.settle parsed policy := by
    funext m n
    simp only [settle, hfails]
  have hneeded : s.needed layout = s'.needed layout := by
    rw [needed, needed, outputSegments_congr fun n => ?_]
    rw [mem_names, mem_names]
    exact hknown n
  have hsame : s.settled parsed = s'.settled parsed :=
    NameMap.ext_get? fun n => by rw [get?_settled, get?_settled, hsettled]
  rw [resolve, resolve, hsettle, hneeded, hsame]

/-- The check of an output layout. Under `throw` it fails when a name that the layout asks for
fails, with the error of the first such name, and otherwise gives the settled sources. Under
`silent` it gives the settled sources with each name that fails standing for itself, and such a name
had no source among them. -/
theorem resolve_decides (s : Sources) (parsed : List Text) (layout : Text) :
    ((∃ e, s.resolve .throw parsed layout = .error e) ↔ ∃ n ∈ s.asked layout, s.Fails parsed n) ∧
    (∀ e, s.resolve .throw parsed layout = .error e ↔
      ∃ before n behind, s.asked layout = before ++ n :: behind ∧
        (∀ u ∈ before, ¬s.Fails parsed u) ∧ s.Fails parsed n ∧
          (¬s.Known n ∧ .unknownToken n = e ∨ s.Known n ∧ .cannotProduce n = e)) ∧
    (∀ m, s.resolve .throw parsed layout = .ok m ↔
      (∀ n ∈ s.asked layout, ¬s.Fails parsed n) ∧
        ∀ n, m.get? n = s.settledSource? parsed n) ∧
    ∃ m, s.resolve .silent parsed layout = .ok m ∧
      (∀ n ∈ s.asked layout, s.Fails parsed n → m.get? n = some (.literal n) ∧
        s.overrides.get? n = none ∧ s.defaults.get? n = none) ∧
      ∀ n, ¬(n ∈ s.asked layout ∧ s.Fails parsed n) → m.get? n = s.settledSource? parsed n := by
  refine ⟨?_, fun _ => resolve_throw_eq_error_iff, fun _ => resolve_throw_eq_ok_iff_get?, ?_⟩
  · cases hresolve : s.resolve .throw parsed layout with
    | error e =>
      obtain ⟨before, n, behind, hsplit, -, hn, -⟩ := resolve_throw_eq_error_iff.1 hresolve
      exact ⟨fun _ => ⟨n, hsplit ▸ List.mem_append_right _ (.head _), hn⟩, fun _ => ⟨e, rfl⟩⟩
    | ok m =>
      refine ⟨nofun, fun ⟨n, hn, hfails⟩ => ?_⟩
      exact absurd hfails ((resolve_throw_eq_ok_iff_get?.1 hresolve).1 n hn)
  · obtain ⟨m, hm, hget⟩ := foldlM_settle_silent (s.needed layout) (s.settled parsed)
    refine ⟨m, hm, fun n hn hfails => ⟨?_, get?_eq_none_of_fails hfails⟩, fun n hn => ?_⟩
    · rw [hget, if_pos ⟨needed_eq_asked ▸ hn, isSome_failure?_iff.2 hfails⟩]
    · rw [hget, if_neg, get?_settled]
      rwa [needed_eq_asked, isSome_failure?_iff]

end Sources

end Relayout
