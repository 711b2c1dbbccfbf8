/-!
# Results of runs

When a computation that may fail gives a value, and when it gives an error. A run over a list has
the error of its first step that fails (`foldlM_eq_error_iff`).
-/

namespace Relayout

theorem bind_eq_ok_iff {ε : Type u} {α β : Type v} {x : Except ε α} {f : α → Except ε β} {b : β} :
    x >>= f = .ok b ↔ ∃ a, x = .ok a ∧ f a = .ok b := by
  cases x with
  | error e => exact ⟨nofun, nofun⟩
  | ok a => exact ⟨fun h => ⟨a, rfl, h⟩, fun ⟨_, ha, h⟩ => Except.ok.inj ha ▸ h⟩

theorem bind_eq_error_iff {ε : Type u} {α β : Type v} {x : Except ε α} {f : α → Except ε β}
    {e : ε} : x >>= f = .error e ↔ x = .error e ∨ ∃ a, x = .ok a ∧ f a = .error e := by
  cases x with
  | error e' => exact ⟨fun h => .inl (congrArg _ (Except.error.inj h)), fun h =>
      h.elim (fun h => congrArg _ (Except.error.inj h)) nofun⟩
  | ok a => exact ⟨fun h => .inr ⟨a, rfl, h⟩, fun h =>
      h.elim nofun fun ⟨_, ha, h⟩ => Except.ok.inj ha ▸ h⟩

/-- The error of a run is that of the first step that fails. -/
theorem foldlM_eq_error_iff {ε : Type u} {α β : Type v} {f : β → α → Except ε β} {l : List α}
    {b : β} {e : ε} : l.foldlM f b = .error e ↔
      ∃ before a after b', l = before ++ a :: after ∧ before.foldlM f b = .ok b' ∧
        f b' a = .error e := by
  constructor
  · intro h
    induction l generalizing b with
    | nil => exact nomatch h
    | cons a l ih =>
      rw [List.foldlM_cons] at h
      rcases bind_eq_error_iff.1 h with hstep | ⟨b₁, hstep, hrest⟩
      · exact ⟨[], a, l, b, rfl, rfl, hstep⟩
      · obtain ⟨before, a', after, b', rfl, hbefore, herror⟩ := ih hrest
        refine ⟨a :: before, a', after, b', rfl, ?_, herror⟩
        rw [List.foldlM_cons]
        exact bind_eq_ok_iff.2 ⟨b₁, hstep, hbefore⟩
  · rintro ⟨before, a, after, b', rfl, hbefore, herror⟩
    rw [List.foldlM_append]
    refine bind_eq_error_iff.2 (.inr ⟨b', hbefore, ?_⟩)
    rw [List.foldlM_cons]
    exact bind_eq_error_iff.2 (.inl herror)

theorem map_some_eq_ok_iff {ε α : Type} {x : Except ε α} {value : Option α} :
    some <$> x = .ok value ↔ ∃ a, x = .ok a ∧ value = some a := by
  cases x with
  | error e => exact ⟨nofun, nofun⟩
  | ok a => exact ⟨fun h => ⟨a, rfl, (Except.ok.inj h).symm⟩, fun ⟨_, ha, h⟩ =>
      h ▸ Except.ok.inj ha ▸ rfl⟩

theorem map_eq_error_iff {ε : Type u} {α β : Type v} {x : Except ε α} {f : α → β} {e : ε} :
    f <$> x = .error e ↔ x = .error e := by
  cases x with
  | error e' => exact ⟨fun h => congrArg _ (Except.error.inj h), fun h =>
      congrArg _ (Except.error.inj h)⟩
  | ok a => exact ⟨nofun, nofun⟩

end Relayout
