import Relayout.Proofs.NameMap
import Relayout.Resolution

/-!
# What the check of an output layout gives

Under `throw` the check passes exactly when nothing that the layout asks for fails, and it adds
nothing to the settled sources. Under `silent` it always passes, and the names that fail stand for
themselves.
-/

namespace Relayout.Sources

variable {s : Sources} {parsed tokens : List Text} {layout t : Text} {m m' : TokenTable}
  {policy : ErrorPolicy}

/-! ## The names of the sources -/

theorem mem_names : t ∈ s.names ↔
    t ∈ s.handlers.names ∨ t ∈ s.custom.names ∨ t ∈ s.defaults.names ∨ t ∈ s.overrides.names := by
  simp only [names, List.mem_append, or_assoc]

theorem knows_iff : s.knows t = true ↔ t ∈ s.names := List.contains_iff_mem

theorem mem_names_settled : t ∈ (s.settled parsed).names ↔
    t ∈ s.overrides.names ∨ t ∈ s.defaults.names ∧ t ∉ parsed := by
  simp only [settled, NameMap.mem_names_merge, NameMap.mem_names_filterNames, Bool.not_eq_true',
    List.contains_eq_mem, decide_eq_false_iff_not]

/-- What fails is either not known or not at hand, and never a derived year. -/
theorem failure?_eq_none_iff : s.failure? parsed t = none ↔
    isDerived parsed t ∨ t ∈ s.names ∧ t ∈ s.producible parsed := by
  unfold failure?
  split
  next h => simp only [h, true_or]
  next h =>
    split
    next hknown =>
      have : t ∉ s.names := by
        simpa only [Bool.not_eq_true', ← Bool.not_eq_true, knows_iff] using hknown
      simp only [reduceCtorEq, h, this, false_and, or_self, Bool.false_eq_true]
    next hknown =>
      have : t ∈ s.names := by
        simpa only [Bool.not_eq_true', Bool.not_eq_false, knows_iff] using hknown
      split
      next hat => simp_all only [List.contains_iff_mem, true_and, or_true]
      next hat => simp_all only [List.contains_iff_mem, reduceCtorEq, true_and, or_self]

/-! ## One name -/

theorem settle_of_eq_none (h : s.failure? parsed t = none) :
    s.settle parsed policy m t = .ok m := by
  simp only [settle, h]

theorem settle_throw_of_eq_some {e : ConversionError} (h : s.failure? parsed t = some e) :
    s.settle parsed .throw m t = .error e := by
  simp only [settle, h]

theorem settle_silent_of_eq_some {e : ConversionError} (h : s.failure? parsed t = some e) :
    s.settle parsed .silent m t = .ok (m.insert t (.literal t)) := by
  simp only [settle, h]

/-! ## All names that are asked for -/

theorem foldlM_settle_eq_ok (h : ∀ t ∈ tokens, s.failure? parsed t = none) :
    tokens.foldlM (s.settle parsed policy) m = .ok m := by
  induction tokens with
  | nil => rfl
  | cons t ts ih =>
    rw [List.foldlM_cons, settle_of_eq_none (h t (.head _))]
    exact ih fun u hu => h u (.tail _ hu)

theorem foldlM_settle_throw (h : tokens.foldlM (s.settle parsed .throw) m = .ok m') :
    m' = m ∧ ∀ t ∈ tokens, s.failure? parsed t = none := by
  induction tokens with
  | nil => exact ⟨(Except.ok.inj h).symm, nofun⟩
  | cons t ts ih =>
    rw [List.foldlM_cons] at h
    cases hfail : s.failure? parsed t with
    | some e =>
      rw [settle_throw_of_eq_some hfail] at h
      exact nomatch h
    | none =>
      rw [settle_of_eq_none hfail] at h
      obtain ⟨heq, hrest⟩ := ih h
      exact ⟨heq, List.forall_mem_cons.2 ⟨hfail, hrest⟩⟩

theorem foldlM_settle_silent (tokens : List Text) (m : TokenTable) :
    ∃ m', tokens.foldlM (s.settle parsed .silent) m = .ok m' ∧
      ∀ t, m'.get? t = if t ∈ tokens ∧ (s.failure? parsed t).isSome then some (.literal t)
        else m.get? t := by
  induction tokens generalizing m with
  | nil => exact ⟨m, rfl, fun t => by simp only [List.not_mem_nil, false_and, if_false]⟩
  | cons u us ih =>
    rw [List.foldlM_cons]
    cases hfail : s.failure? parsed u with
    | none =>
      rw [settle_of_eq_none hfail]
      obtain ⟨m', hm', hget⟩ := ih m
      refine ⟨m', hm', fun t => ?_⟩
      grind
    | some e =>
      rw [settle_silent_of_eq_some hfail]
      obtain ⟨m', hm', hget⟩ := ih (m.insert u (.literal u))
      refine ⟨m', hm', fun t => ?_⟩
      rw [hget, NameMap.get?_insert]
      grind

theorem resolve_throw_eq_ok_iff : s.resolve .throw parsed layout = .ok m ↔
    m = s.settled parsed ∧ ∀ t ∈ s.needed layout, s.failure? parsed t = none := by
  refine ⟨foldlM_settle_throw, ?_⟩
  rintro ⟨rfl, h⟩
  exact foldlM_settle_eq_ok h

/-- A check that passes under `throw` gives the same under any policy. -/
theorem resolve_of_throw (h : s.resolve .throw parsed layout = .ok m) :
    s.resolve policy parsed layout = .ok m := by
  obtain ⟨rfl, hnone⟩ := resolve_throw_eq_ok_iff.1 h
  exact foldlM_settle_eq_ok hnone

theorem exists_resolve_silent (s : Sources) (parsed : List Text) (layout : Text) :
    ∃ m, s.resolve .silent parsed layout = .ok m :=
  (foldlM_settle_silent (s.needed layout) (s.settled parsed)).imp fun _ h => h.1

/-- After a check that passes, each name has its settled source, or stands for itself if it is
asked for and fails. -/
theorem get?_of_resolve (h : s.resolve policy parsed layout = .ok m) (t : Text) :
    m.get? t = if t ∈ s.needed layout ∧ (s.failure? parsed t).isSome then some (.literal t)
      else (s.settled parsed).get? t := by
  cases policy with
  | throw =>
    obtain ⟨rfl, hnone⟩ := resolve_throw_eq_ok_iff.1 h
    rw [if_neg]
    rintro ⟨ht, hsome⟩
    rw [hnone t ht] at hsome
    exact nomatch hsome
  | silent =>
    obtain ⟨m', hm', hget⟩ := foldlM_settle_silent (s.needed layout) (s.settled parsed)
    rw [Except.ok.inj (h.symm.trans hm')]
    exact hget t

theorem mem_names_of_resolve (h : s.resolve policy parsed layout = .ok m) :
    t ∈ m.names ↔ t ∈ s.needed layout ∧ (s.failure? parsed t).isSome ∨
      t ∈ (s.settled parsed).names := by
  rw [NameMap.mem_names_iff_isSome, NameMap.mem_names_iff_isSome, get?_of_resolve h]
  split
  next hfail => exact ⟨fun _ => .inl hfail, fun _ => rfl⟩
  next hfail => exact ⟨.inr, fun h => h.resolve_left hfail⟩

end Relayout.Sources
