import Relayout.Text.Basic

/-!
# Maps from names

A `NameMap` keeps one value for each of finitely many names, in the order of the names by code
point. Two maps with the same values are equal (`NameMap.ext_get?`).
-/

namespace Relayout

structure NameMap (α : Type u) where
  entries : List (Text × α) := []
  sorted : entries.Pairwise fun a b => a.1 < b.1 := by simp
  deriving DecidableEq

namespace NameMap

variable {α : Type u} {β : Type v}

instance : EmptyCollection (NameMap α) := ⟨⟨[], .nil⟩⟩
instance : Inhabited (NameMap α) := ⟨∅⟩

/-! ## Look-up -/

def get? (m : NameMap α) (name : Text) : Option α := m.entries.lookup name

def contains (m : NameMap α) (name : Text) : Bool := (m.get? name).isSome

def names (m : NameMap α) : List Text := m.entries.map (·.1)

@[simp] theorem get?_empty (name : Text) : (∅ : NameMap α).get? name = none := rfl

theorem lookup_cons (e : Text × α) (es : List (Text × α)) (name : Text) :
    (e :: es).lookup name = if name = e.1 then some e.2 else es.lookup name := by
  rw [List.lookup_cons]
  split
  next h => rw [if_pos (eq_of_beq h)]
  next h => rw [if_neg (beq_eq_false_iff_ne.1 h)]

theorem contains_eq_true_iff {m : NameMap α} {name : Text} :
    m.contains name = true ↔ name ∈ m.names := by
  simp only [contains, get?, names]
  induction m.entries with
  | nil => simp
  | cons e es ih => by_cases h : name = e.1 <;> simp [lookup_cons, h, ih]

private theorem ne_of_lt {a b : Text} (h : a < b) : a ≠ b := fun heq =>
  List.lt_irrefl b (heq ▸ h)

/-- A name below all names of a list has no value in it. -/
private theorem lookup_eq_none {es : List (Text × α)} {name : Text} (h : ∀ e ∈ es, name < e.1) :
    es.lookup name = none := by
  induction es with
  | nil => rfl
  | cons e es ih =>
    rw [lookup_cons, if_neg (ne_of_lt (h e (.head _)))]
    exact ih fun e' he' => h e' (.tail _ he')

/-- A list that has a value for a name does not begin above that name. -/
private theorem not_lt_of_lookup_eq {e f : Text × α} {es fs : List (Text × α)}
    (hf : ∀ g ∈ fs, f.1 < g.1) (h : (e :: es).lookup e.1 = (f :: fs).lookup e.1) :
    ¬e.1 < f.1 := by
  intro hlt
  rw [lookup_cons, if_pos rfl, lookup_eq_none fun g hg => ?_] at h
  · exact nomatch h
  · rcases List.mem_cons.1 hg with rfl | hg
    · exact hlt
    · exact List.lt_trans hlt (hf g hg)

/-- Two maps that give every name the same value are equal. -/
theorem ext_get? {m n : NameMap α} (h : ∀ name, m.get? name = n.get? name) : m = n := by
  obtain ⟨es, hes⟩ := m
  obtain ⟨fs, hfs⟩ := n
  suffices es = fs by subst this; rfl
  simp only [get?] at h
  induction es generalizing fs with
  | nil =>
    cases fs with
    | nil => rfl
    | cons f fs => simpa [lookup_cons] using h f.1
  | cons e es ih =>
    cases fs with
    | nil => simpa [lookup_cons] using h e.1
    | cons f fs =>
      obtain ⟨he, hes⟩ := List.pairwise_cons.1 hes
      obtain ⟨hf, hfs⟩ := List.pairwise_cons.1 hfs
      have key : e.1 = f.1 := by
        rcases Std.lt_trichotomy e.1 f.1 with hlt | heq | hgt
        · exact absurd hlt (not_lt_of_lookup_eq hf (h e.1))
        · exact heq
        · exact absurd hgt (not_lt_of_lookup_eq he (h f.1).symm)
      have value : e.2 = f.2 := by simpa [lookup_cons, key] using h f.1
      rw [Prod.ext key value, ih hes fs hfs fun name => ?_]
      by_cases hname : name = e.1
      · rw [hname, lookup_eq_none he, lookup_eq_none (key ▸ hf)]
      · simpa [lookup_cons, hname, key ▸ hname] using h name

/-! ## Insertion -/

/-- Puts an entry at its place in a sorted list; it replaces the one of the same name. -/
def insertEntry (name : Text) (value : α) : List (Text × α) → List (Text × α)
  | [] => [(name, value)]
  | e :: es =>
    if name < e.1 then (name, value) :: e :: es
    else if name = e.1 then (name, value) :: es
    else e :: insertEntry name value es

theorem mem_insertEntry {name : Text} {value : α} {es : List (Text × α)} {e : Text × α}
    (h : e ∈ insertEntry name value es) : e = (name, value) ∨ e ∈ es := by
  induction es with
  | nil => simpa [insertEntry] using h
  | cons f fs ih => grind [insertEntry]

theorem pairwise_insertEntry (name : Text) (value : α) {es : List (Text × α)}
    (h : es.Pairwise fun a b => a.1 < b.1) :
    (insertEntry name value es).Pairwise fun a b => a.1 < b.1 := by
  induction es with
  | nil => simp [insertEntry]
  | cons e es ih =>
    obtain ⟨he, hes⟩ := List.pairwise_cons.1 h
    unfold insertEntry
    split
    next hlt =>
      refine List.pairwise_cons.2 ⟨fun f hf => ?_, h⟩
      rcases List.mem_cons.1 hf with rfl | hf
      · exact hlt
      · exact List.lt_trans hlt (he f hf)
    split
    next heq => exact List.pairwise_cons.2 ⟨heq ▸ he, hes⟩
    next hge hne =>
      refine List.pairwise_cons.2 ⟨fun f hf => ?_, ih hes⟩
      rcases mem_insertEntry hf with rfl | hf
      · exact ((Std.lt_trichotomy e.1 name).resolve_right (by simp_all [eq_comm]))
      · exact he f hf

/-- Gives a name a value in place of the one it may have had. -/
def insert (m : NameMap α) (name : Text) (value : α) : NameMap α :=
  ⟨insertEntry name value m.entries, pairwise_insertEntry name value m.sorted⟩

theorem get?_insert (m : NameMap α) (name other : Text) (value : α) :
    (m.insert name value).get? other = if other = name then some value else m.get? other := by
  simp only [get?, insert]
  induction m.entries with
  | nil => rw [insertEntry, lookup_cons]
  | cons e es ih =>
    unfold insertEntry
    split
    next => rw [lookup_cons]
    split
    next heq => subst heq; grind [lookup_cons]
    next => grind [lookup_cons]

/-- Puts the entries of a list in one after the other, so that the last value of a name stays. -/
def insertAll (m : NameMap α) (es : List (Text × α)) : NameMap α :=
  es.foldl (fun m e => m.insert e.1 e.2) m

def ofList (es : List (Text × α)) : NameMap α := (∅ : NameMap α).insertAll es

/-- Both maps in one; the second has the say on the names that are in both. -/
def merge (m n : NameMap α) : NameMap α := m.insertAll n.entries

/-! ## Other operations -/

def filterNames (wanted : Text → Bool) (m : NameMap α) : NameMap α :=
  ⟨m.entries.filter fun e => wanted e.1, m.sorted.filter _⟩

def map (f : α → β) (m : NameMap α) : NameMap β :=
  ⟨m.entries.map fun e => (e.1, f e.2), by simpa [List.pairwise_map] using m.sorted⟩

@[simp] theorem names_map (f : α → β) (m : NameMap α) : (m.map f).names = m.names := by
  simp [names, map]

end NameMap
end Relayout
