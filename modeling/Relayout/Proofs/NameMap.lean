import Relayout.NameMap

/-!
# Values of merged maps

The names of a map made by `insert`, `merge` or `filterNames`, and the value of a name in a map made
by `insertAll`, `ofList`, `merge`, `filterNames` or `map`. A list of choices with different names is
searched like a map (`NameMap.find?_name_eq_some_iff`).
-/

namespace Relayout.NameMap

variable {α : Type u} {m n : NameMap α} {es : List (Text × α)} {name : Text}

theorem mem_names_iff_isSome : name ∈ m.names ↔ (m.get? name).isSome :=
  contains_eq_true_iff.symm

theorem get?_eq_none_iff : m.get? name = none ↔ name ∉ m.names := by
  rw [mem_names_iff_isSome, Option.not_isSome_iff_eq_none]

theorem nodup_names (m : NameMap α) : m.names.Nodup := by
  refine List.pairwise_map.2 (m.sorted.imp fun h heq => ?_)
  exact List.lt_irrefl _ (heq ▸ h)

theorem lookup_eq_none_of_notMem (h : name ∉ es.map (·.1)) : es.lookup name = none := by
  induction es with
  | nil => rfl
  | cons e es ih =>
    rw [List.map_cons, List.mem_cons, not_or] at h
    rw [lookup_cons, if_neg h.1, ih h.2]

theorem lookup_eq_some_iff_mem (h : (es.map (·.1)).Nodup) {value : α} :
    es.lookup name = some value ↔ (name, value) ∈ es := by
  induction es with
  | nil => simp only [List.lookup_nil, List.not_mem_nil, reduceCtorEq]
  | cons e es ih =>
    obtain ⟨hnew, hes⟩ := List.nodup_cons.1 h
    rw [lookup_cons, List.mem_cons]
    split
    next heq =>
      refine ⟨fun h => .inl (Prod.ext heq (Option.some.inj h).symm), fun h => ?_⟩
      rcases h with rfl | h
      · rfl
      · subst heq
        exact absurd (List.mem_map_of_mem h) hnew
    next hne => rw [ih hes, or_iff_right fun h => hne (congrArg (·.1) h)]

theorem mem_entries_iff {e : Text × α} : e ∈ m.entries ↔ m.get? e.1 = some e.2 :=
  (lookup_eq_some_iff_mem m.nodup_names).symm

/-- Where the names differ, the order of the entries is of no account. -/
theorem lookup_reverse (h : (es.map (·.1)).Nodup) : es.reverse.lookup name = es.lookup name := by
  have hreverse : (es.reverse.map (·.1)).Nodup :=
    List.map_reverse ▸ List.pairwise_reverse.2 (h.imp Ne.symm)
  ext value
  rw [lookup_eq_some_iff_mem hreverse, lookup_eq_some_iff_mem h, List.mem_reverse]

/-- Of several entries for a name the last one stays. -/
theorem get?_insertAll_reverse (m : NameMap α) (es : List (Text × α)) (name : Text) :
    (m.insertAll es).get? name = (es.reverse.lookup name).or (m.get? name) := by
  induction es generalizing m with
  | nil => rfl
  | cons e es ih =>
    have hstep : m.insertAll (e :: es) = (m.insert e.1 e.2).insertAll es := rfl
    rw [hstep, ih, get?_insert, List.reverse_cons, List.lookup_append, Option.or_assoc, lookup_cons]
    split <;> rfl

theorem get?_insertAll (h : (es.map (·.1)).Nodup) :
    (m.insertAll es).get? name = (es.lookup name).or (m.get? name) := by
  rw [get?_insertAll_reverse, lookup_reverse h]

theorem get?_ofList (h : (es.map (·.1)).Nodup) : (ofList es).get? name = es.lookup name := by
  rw [ofList, get?_insertAll h, get?_empty, Option.or_none]

theorem get?_merge (m n : NameMap α) (name : Text) :
    (m.merge n).get? name = (n.get? name).or (m.get? name) :=
  get?_insertAll n.nodup_names

theorem mem_names_insert {other : Text} {value : α} :
    name ∈ (m.insert other value).names ↔ name = other ∨ name ∈ m.names := by
  rw [mem_names_iff_isSome, mem_names_iff_isSome, get?_insert]
  split
  next h => exact ⟨fun _ => .inl h, fun _ => rfl⟩
  next h => exact (or_iff_right h).symm

theorem mem_names_merge : name ∈ (m.merge n).names ↔ name ∈ m.names ∨ name ∈ n.names := by
  simp only [mem_names_iff_isSome, get?_merge, Option.isSome_or, Bool.or_eq_true]
  exact or_comm

theorem mem_names_filterNames {wanted : Text → Bool} :
    name ∈ (m.filterNames wanted).names ↔ name ∈ m.names ∧ wanted name := by
  simp only [names, filterNames, List.mem_map, List.mem_filter]
  constructor
  · rintro ⟨e, ⟨he, hwanted⟩, rfl⟩
    exact ⟨⟨e, he, rfl⟩, hwanted⟩
  · rintro ⟨⟨e, he, rfl⟩, hwanted⟩
    exact ⟨e, ⟨he, hwanted⟩, rfl⟩

theorem get?_filterNames {wanted : Text → Bool} :
    (m.filterNames wanted).get? name = if wanted name then m.get? name else none := by
  have hentry : ∀ (m : NameMap α) v, m.get? name = some v ↔ (name, v) ∈ m.entries :=
    fun _ v => (mem_entries_iff (e := (name, v))).symm
  ext v
  rw [hentry, filterNames, List.mem_filter, ← hentry]
  split
  next h => exact and_iff_left h
  next h => exact ⟨fun h' => absurd h'.2 h, nofun⟩

theorem get?_map {β : Type v} (f : α → β) (m : NameMap α) (name : Text) :
    (m.map f).get? name = (m.get? name).map f := by
  simp only [get?, map]
  induction m.entries with
  | nil => rfl
  | cons e es ih =>
    rw [List.map_cons, lookup_cons, lookup_cons, ih]
    split <;> rfl

/-! ## Choices by name -/

/-- Of choices with different names the one of a name is found. -/
theorem find?_name_eq_some_iff {α : Type} {choices : List α} {nameOf : α → Text} {name : Text}
    {x : α} (hall : ∀ x, x ∈ choices) (hname : Function.Injective nameOf) :
    choices.find? (nameOf · = name) = some x ↔ name = nameOf x := by
  constructor
  · intro h
    exact (of_decide_eq_true (List.find?_some h :)).symm
  · rintro rfl
    cases h : choices.find? (nameOf · = nameOf x) with
    | none => exact absurd (decide_eq_true rfl) (List.find?_eq_none.1 h x (hall x))
    | some y => rw [hname (of_decide_eq_true (List.find?_some h :))]

end Relayout.NameMap
