import Mathlib.Data.List.Nodup
import Relayout.Json.Content
import Relayout.Proofs.Json.Values
import Relayout.Proofs.NameMap
import Relayout.Proofs.Numerals

/-!
# What JSON values hold

Beside each reader of a value stands a relation that says of which form the value must be to hold
the text, choice, integer or map that is read. The members of an object give values for names when
each name has one member at most (`Members.Gives`); exactly then its known members are read
(`Members.gives_iff`). Members of different names do so in any order (`Members.Lists.exists_gives`).
-/

namespace Relayout.Json

variable {α : Type} {name text : Text} {texts : List Text} {m : NameMap Text} {v : Value}

namespace Value

/-! ## Values of one kind -/

/-- A name, as a text or as the only key of an object, with null behind it. -/
inductive IsChoice (name : Text) : Value → Prop
  | text : IsChoice name (string (some name))
  | key : IsChoice name (object [(some name, null)])

/-- An integer without fraction and exponent, or null for none. Zero has no minus sign. -/
inductive IsOptionalInt : Option Int64 → Value → Prop
  | absent : IsOptionalInt none null
  | number {x : Int64} {d : Text} (hd : Decimal.Denotes d x.toInt) (hzero : d ≠ "-0".toList) :
    IsOptionalInt (some x) (number d)

/-- The texts as the items of an array. -/
def IsTexts (texts : List Text) (v : Value) : Prop := v = array (texts.map fun t => string (some t))

/-- An object of texts. Of several members with one name the last has the say. -/
def IsTextMap (m : NameMap Text) (v : Value) : Prop := ∃ es : List (Text × Text),
  v = object (es.map fun e => (some e.1, string (some e.2))) ∧
    ∀ name, m.get? name = es.reverse.lookup name

theorem text?_eq_some_iff : v.text? = some text ↔ v = string (some text) := by
  cases v <;> simp [text?]

theorem choice?_eq_some_iff : v.choice? = some name ↔ IsChoice name v := by
  constructor
  · intro h
    unfold choice? at h
    split at h
    next =>
      subst h
      exact .text
    next =>
      subst h
      exact .key
    next => exact nomatch h
  · rintro (_ | _) <;> rfl

theorem int64?_eq_some_iff {x : Int64} : v.int64? = some x ↔ IsOptionalInt (some x) v := by
  constructor
  · intro h
    unfold int64? at h
    split at h
    next d =>
      split at h
      next => exact nomatch h
      next hzero => exact .number (Decimal.readInt64?_eq_some_iff_denotes.1 h) hzero
    next => exact nomatch h
  · intro h
    cases h with
    | number hd hzero =>
      rw [int64?, if_neg hzero, Decimal.readInt64?_eq_some_iff_denotes.2 hd]

theorem optionalInt64?_eq_some_iff {x : Option Int64} :
    v.optionalInt64? = some x ↔ IsOptionalInt x v := by
  unfold optionalInt64?
  split
  next =>
    constructor
    · intro h
      obtain rfl := Option.some.inj h
      exact .absent
    · rintro ⟨⟩
      rfl
  next hnull =>
    rw [Option.map_eq_some_iff]
    constructor
    · rintro ⟨x, hx, rfl⟩
      exact int64?_eq_some_iff.1 hx
    · intro h
      cases h with
      | absent => exact absurd rfl hnull
      | number hd hzero => exact ⟨_, int64?_eq_some_iff.2 (.number hd hzero), rfl⟩

theorem mapM_text?_eq_some_iff {items : List Value} :
    items.mapM text? = some texts ↔ items = texts.map fun t => string (some t) := by
  induction items generalizing texts with
  | nil => cases texts <;> simp
  | cons v items ih =>
    simp only [List.mapM_cons, Option.bind_eq_bind, Option.bind_eq_some_iff, text?_eq_some_iff, ih,
      Option.pure_def, Option.some.injEq]
    constructor
    · rintro ⟨t, rfl, ts, rfl, rfl⟩
      rfl
    · intro h
      cases texts with
      | nil => exact nomatch h
      | cons t ts =>
        obtain ⟨hv, hitems⟩ := List.cons.inj h
        exact ⟨t, hv, ts, hitems, rfl⟩

theorem texts?_eq_some_iff : v.texts? = some texts ↔ IsTexts texts v := by
  unfold texts?
  split
  next => rw [mapM_text?_eq_some_iff, IsTexts, array.injEq]
  next harray => exact ⟨nofun, fun h => absurd h (harray _)⟩

/-- One step of the reading of a map of texts. -/
def addText? (m : NameMap Text) (e : Option Text × Value) : Option (NameMap Text) := do
  let name ← e.1
  let text ← e.2.text?
  return m.insert name text

theorem textMap?_object (members : Members) :
    (object members).textMap? = members.foldlM addText? ∅ :=
  rfl

theorem addText?_eq_some_iff {e : Option Text × Value} {m' : NameMap Text} :
    addText? m e = some m' ↔
      ∃ name text, e = (some name, string (some text)) ∧ m.insert name text = m' := by
  simp only [addText?, Option.bind_eq_bind, Option.bind_eq_some_iff, text?_eq_some_iff,
    Option.pure_def, Option.some.injEq]
  constructor
  · rintro ⟨name, hname, text, htext, rfl⟩
    exact ⟨name, text, Prod.ext hname htext, rfl⟩
  · rintro ⟨name, text, rfl, rfl⟩
    exact ⟨name, rfl, text, rfl, rfl⟩

theorem foldlM_addText?_eq_some_iff {members : Members} {m₀ : NameMap Text} :
    members.foldlM addText? m₀ = some m ↔ ∃ es : List (Text × Text),
      members = (es.map fun e => (some e.1, string (some e.2))) ∧ m₀.insertAll es = m := by
  induction members generalizing m₀ with
  | nil =>
    constructor
    · intro h
      exact ⟨[], rfl, Option.some.inj h⟩
    · rintro ⟨es, hes, rfl⟩
      obtain rfl := List.map_eq_nil_iff.1 hes.symm
      rfl
  | cons e members ih =>
    rw [List.foldlM_cons, Option.bind_eq_bind, Option.bind_eq_some_iff]
    constructor
    · rintro ⟨m', hstep, hrest⟩
      obtain ⟨name, text, rfl, rfl⟩ := addText?_eq_some_iff.1 hstep
      obtain ⟨es, rfl, rfl⟩ := ih.1 hrest
      exact ⟨(name, text) :: es, rfl, rfl⟩
    · rintro ⟨es, hes, rfl⟩
      cases es with
      | nil => exact nomatch hes
      | cons e' es =>
        obtain ⟨rfl, rfl⟩ := List.cons.inj hes
        exact ⟨_, addText?_eq_some_iff.2 ⟨_, _, rfl, rfl⟩, ih.2 ⟨es, rfl, rfl⟩⟩

theorem textMap?_eq_some_iff : v.textMap? = some m ↔ IsTextMap m v := by
  have hmap : ∀ es : List (Text × Text), (∅ : NameMap Text).insertAll es = m ↔
      ∀ name, m.get? name = es.reverse.lookup name := by
    intro es
    have hget : ∀ name, ((∅ : NameMap Text).insertAll es).get? name = es.reverse.lookup name := by
      intro name
      rw [NameMap.get?_insertAll_reverse, NameMap.get?_empty, Option.or_none]
    constructor
    · rintro rfl
      exact hget
    · intro h
      exact NameMap.ext_get? fun name => (hget name).trans (h name).symm
  cases v with
  | object members =>
    simp only [textMap?_object, foldlM_addText?_eq_some_iff, IsTextMap, object.injEq, hmap]
  | _ => exact ⟨nofun, fun ⟨_, h, _⟩ => nomatch h⟩

end Value

/-! ## Values that may be missing -/

/-- A value holds `a`, or there is none and `a` is what a missing value stands for. -/
def Given (missing : α) (Holds : α → Value → Prop) (a : α) : Option Value → Prop
  | none => a = missing
  | some v => Holds a v

theorem Given.of_eq_or {missing a : α} {Holds : α → Value → Prop} {o : Option Value} {v w : Value}
    (ho : o = some v ∨ o = none ∧ v = w) (hholds : Holds a v) (hmissing : v = w → a = missing) :
    Given missing Holds a o := by
  rcases ho with rfl | ⟨rfl, hvw⟩
  · exact hholds
  · exact hmissing hvw

theorem orElse_eq_some_iff {missing a : α} {read? : Value → Option α} {Holds : α → Value → Prop}
    (hread : ∀ v, read? v = some a ↔ Holds a v) (o : Option Value) :
    orElse missing read? o = some a ↔ Given missing Holds a o := by
  cases o with
  | none => exact ⟨fun h => (Option.some.inj h).symm, fun h => congrArg some h.symm⟩
  | some v => exact hread v

/-! ## Members -/

namespace Members

variable {names : List Text} {members : Members} {known known' : NameMap Value}
  {e : Option Text × Value}

/-- The values of the members with a name, in the order of the text. -/
def values (members : Members) (name : Text) : List Value :=
  (members.filter fun e => e.1 = some name).map (·.2)

/-- All keys are texts, and each of the names has the one member that it should have, or none. -/
def Gives (members : Members) (names : List Text) (value : Text → Option Value) : Prop :=
  (∀ e ∈ members, e.1 ≠ none) ∧ ∀ name ∈ names, members.values name = (value name).toList

theorem values_cons (e : Option Text × Value) (members : Members) (name : Text) :
    values (e :: members) name =
      (if e.1 = some name then some e.2 else none).toList ++ members.values name := by
  simp only [values, List.filter_cons, decide_eq_true_eq]
  split <;> rfl

/-- One step of the reading of known members. -/
def addKnown? (names : List Text) (known : NameMap Value) (e : Option Text × Value) :
    Option (NameMap Value) := do
  let name ← e.1
  if !names.contains name then return known
  else if known.contains name then none
  else return known.insert name e.2

theorem known?_eq_foldlM (names : List Text) (members : Members) :
    members.known? names = members.foldlM (addKnown? names) ∅ :=
  rfl

/-- A member that is read has a text as its key and gives its value to this name, where the name is
known. -/
theorem get?_of_addKnown? (h : addKnown? names known e = some known') : e.1 ≠ none ∧
    ∀ name ∈ names, (known'.get? name).toList =
      (known.get? name).toList ++ (if e.1 = some name then some e.2 else none).toList := by
  obtain ⟨_ | key, v⟩ := e
  · exact nomatch h
  refine ⟨nofun, fun name hname => ?_⟩
  by_cases hkey : key = name
  · subst hkey
    simp only [addKnown?, Option.bind_eq_bind, Option.bind_some, List.contains_iff_mem.2 hname,
      Bool.not_true, Bool.false_eq_true, if_false] at h
    split at h
    next => exact nomatch h
    next hnew =>
      cases h
      have hnone : known.get? key = none :=
        Option.not_isSome_iff_eq_none.1 (by rwa [NameMap.contains] at hnew)
      rw [NameMap.get?_insert, if_pos rfl, if_pos rfl, hnone]
      rfl
  · have hsame : known'.get? name = known.get? name := by
      simp only [addKnown?, Option.bind_eq_bind, Option.bind_some] at h
      split at h
      next =>
        cases h
        rfl
      split at h
      next => exact nomatch h
      next =>
        cases h
        rw [NameMap.get?_insert, if_neg (Ne.symm hkey)]
    rw [hsame, if_neg fun heq => hkey (Option.some.inj heq), Option.toList_none, List.append_nil]

/-- A member is refused where its key is no text or where it repeats a known name. -/
theorem of_addKnown?_eq_none (h : addKnown? names known e = none) :
    e.1 = none ∨ ∃ name ∈ names, known.contains name ∧ e.1 = some name := by
  obtain ⟨_ | key, v⟩ := e
  · exact .inl rfl
  simp only [addKnown?, Option.bind_eq_bind, Option.bind_some] at h
  split at h
  next => exact nomatch h
  next hknown =>
  split at h
  next hrepeated => exact .inr ⟨key, by simpa using hknown, hrepeated, rfl⟩
  next => exact nomatch h

/-- The values of a name that are known in the end are those known before and those of the members
in between. -/
theorem get?_of_foldlM_addKnown? (h : members.foldlM (addKnown? names) known = some known') :
    (∀ e ∈ members, e.1 ≠ none) ∧ ∀ name ∈ names,
      (known'.get? name).toList = (known.get? name).toList ++ members.values name := by
  induction members generalizing known with
  | nil =>
    obtain rfl := Option.some.inj h
    exact ⟨nofun, fun name _ => (List.append_nil _).symm⟩
  | cons e members ih =>
    obtain ⟨middle, hstep, hrest⟩ := Option.bind_eq_some_iff.1 h
    obtain ⟨hkey, hfirst⟩ := get?_of_addKnown? hstep
    obtain ⟨hkeys, hrest⟩ := ih hrest
    refine ⟨List.forall_mem_cons.2 ⟨hkey, hkeys⟩, fun name hname => ?_⟩
    rw [hrest name hname, hfirst name hname, List.append_assoc, ← values_cons]

theorem of_foldlM_addKnown?_eq_none (h : members.foldlM (addKnown? names) known = none) :
    (∃ e ∈ members, e.1 = none) ∨
      ∃ name ∈ names, 2 ≤ ((known.get? name).toList ++ members.values name).length := by
  induction members generalizing known with
  | nil => exact nomatch h
  | cons e members ih =>
    rw [List.foldlM_cons] at h
    cases hstep : addKnown? names known e with
    | none =>
      rcases of_addKnown?_eq_none hstep with hkey | ⟨name, hname, hknown, hkey⟩
      · exact .inl ⟨e, .head _, hkey⟩
      · obtain ⟨v, hv⟩ := Option.isSome_iff_exists.1 hknown
        refine .inr ⟨name, hname, ?_⟩
        rw [values_cons, if_pos hkey, hv]
        simp
    | some middle =>
      rw [hstep] at h
      rcases ih h with ⟨e', he', hkey⟩ | ⟨name, hname, hlen⟩
      · exact .inl ⟨e', .tail _ he', hkey⟩
      · refine .inr ⟨name, hname, ?_⟩
        rwa [(get?_of_addKnown? hstep).2 name hname, List.append_assoc, ← values_cons] at hlen

/-- What is known in the end are all the values of the names. -/
theorem get?_of_known? (h : members.known? names = some known) : (∀ e ∈ members, e.1 ≠ none) ∧
    ∀ name ∈ names, (known.get? name).toList = members.values name := by
  rw [known?_eq_foldlM] at h
  exact get?_of_foldlM_addKnown? h

/-- Known members are read unless a key is no text or a known name has several members. -/
theorem known?_eq_none_iff : members.known? names = none ↔
    (∃ e ∈ members, e.1 = none) ∨ ∃ name ∈ names, 2 ≤ (members.values name).length := by
  constructor
  · intro h
    rw [known?_eq_foldlM] at h
    exact of_foldlM_addKnown?_eq_none h
  · intro h
    cases hknown : members.known? names with
    | none => rfl
    | some known =>
      obtain ⟨hkeys, hvalues⟩ := get?_of_known? hknown
      rcases h with ⟨e, he, hkey⟩ | ⟨name, hname, hlen⟩
      · exact absurd hkey (hkeys e he)
      · have hle : (known.get? name).toList.length ≤ 1 := Option.length_toList_le
        rw [hvalues name hname] at hle
        omega

/-- Known members are read just where each name has the member that it should have, or none. -/
theorem gives_iff {value : Text → Option Value} : members.Gives names value ↔
    ∃ known, members.known? names = some known ∧ ∀ name ∈ names, known.get? name = value name := by
  constructor
  · rintro ⟨hkeys, hvalues⟩
    cases hknown : members.known? names with
    | none =>
      rcases known?_eq_none_iff.1 hknown with ⟨e, he, hkey⟩ | ⟨name, hname, hlen⟩
      · exact absurd hkey (hkeys e he)
      · have hle : (value name).toList.length ≤ 1 := Option.length_toList_le
        rw [← hvalues name hname] at hle
        omega
    | some known =>
      refine ⟨known, rfl, fun name hname => ?_⟩
      have hlist : (known.get? name).toList = (value name).toList :=
        ((get?_of_known? hknown).2 name hname).trans (hvalues name hname)
      rw [← Option.head?_toList (o := known.get? name), hlist, Option.head?_toList]
  · rintro ⟨known, hknown, hget⟩
    obtain ⟨hkeys, hvalues⟩ := get?_of_known? hknown
    refine ⟨hkeys, fun name hname => ?_⟩
    rw [← hvalues name hname, hget name hname]

/-! ## Members in any order -/

theorem values_append (members others : Members) (name : Text) :
    values (members ++ others) name = members.values name ++ values others name := by
  simp only [values, List.filter_append, List.map_append]

theorem values_eq_nil {name : Text} (h : ∀ e ∈ members, e.1 ≠ some name) :
    members.values name = [] := by
  rw [values, List.filter_eq_nil_iff.2 fun e he => by simpa using h e he, List.map_nil]

theorem values_map {es : List (Text × Value)} (hes : (es.map (·.1)).Nodup) (name : Text) :
    values (es.map fun e => (some e.1, e.2)) name = (es.lookup name).toList := by
  induction es with
  | nil => rfl
  | cons e es ih =>
    obtain ⟨hnew, hes⟩ := List.nodup_cons.1 hes
    rw [List.map_cons, values_cons, ih hes, NameMap.lookup_cons]
    by_cases hname : name = e.1
    · subst hname
      rw [if_pos rfl, if_pos rfl, NameMap.lookup_eq_none_of_notMem hnew]
      rfl
    · rw [if_neg fun heq => hname (Option.some.inj heq).symm, if_neg hname]
      rfl

/-- Members of different names give their values in any order, whatever is put between them under
other names. -/
theorem gives_of_perm {es : List (Text × Value)} {others : Members} (hes : (es.map (·.1)).Nodup)
    (hothers : ∀ e ∈ others, ∃ name, e.1 = some name ∧ name ∉ names)
    (h : members.Perm ((es.map fun e => (some e.1, e.2)) ++ others)) :
    members.Gives names fun name => es.lookup name := by
  constructor
  · intro e he
    rcases List.mem_append.1 (h.mem_iff.1 he) with he | he
    · obtain ⟨e', -, rfl⟩ := List.mem_map.1 he
      exact nofun
    · obtain ⟨name, hname, -⟩ := hothers e he
      exact hname ▸ nofun
  · intro name hname
    show members.values name = (es.lookup name).toList
    have hnone : values others name = [] := by
      refine values_eq_nil fun e he hkey => ?_
      obtain ⟨other, hother, hforeign⟩ := hothers e he
      exact hforeign (Option.some.inj (hkey.symm.trans hother) ▸ hname)
    have hperm : (members.values name).Perm (es.lookup name).toList := by
      rw [← values_map hes, ← List.append_nil (values (es.map _) name), ← hnone, ← values_append]
      exact (h.filter _).map _
    generalize es.lookup name = value at hperm ⊢
    cases value with
    | none => exact List.perm_nil.1 hperm
    | some v => exact List.perm_singleton.1 hperm

/-- The members are the entries of `es` in any order, with members of names that are not known among
them. Entries that are found in `defaults`, too, may be left out. -/
inductive Lists (names : List Text) (es defaults : List (Text × Value)) : Members → Prop
  | perm {kept : List (Text × Value)} {others members : Members} (hkept : kept.Sublist es)
    (hleft : ∀ e ∈ es, e ∈ kept ∨ e ∈ defaults)
    (hothers : ∀ e ∈ others, ∃ name, e.1 = some name ∧ name ∉ names)
    (h : members.Perm ((kept.map fun e => (some e.1, e.2)) ++ others)) :
    Lists names es defaults members

/-- A listed entry gives its value to its name, unless it is left out. -/
theorem Lists.exists_gives {es defaults : List (Text × Value)} (hes : (es.map (·.1)).Nodup)
    (hdefaults : (defaults.map (·.1)).Nodup) (h : Lists names es defaults members) :
    ∃ value, members.Gives names value ∧ ∀ {name v w}, (name, v) ∈ es → (name, w) ∈ defaults →
      value name = some v ∨ value name = none ∧ v = w := by
  obtain ⟨hkept, hleft, hothers, hperm⟩ := h
  have hnodup := (hkept.map (·.1)).nodup hes
  refine ⟨_, gives_of_perm hnodup hothers hperm, fun {name v w} hv hw => ?_⟩
  next kept others =>
  show kept.lookup name = some v ∨ kept.lookup name = none ∧ v = w
  cases hlookup : kept.lookup name with
  | none =>
    rcases hleft _ hv with hin | hv'
    · exact nomatch hlookup.symm.trans ((NameMap.lookup_eq_some_iff_mem hnodup).2 hin)
    · exact .inr ⟨rfl, congrArg Prod.snd (List.inj_on_of_nodup_map hdefaults hv' hw rfl)⟩
  | some v' =>
    have hv' := hkept.subset ((NameMap.lookup_eq_some_iff_mem hnodup).1 hlookup)
    obtain rfl : v = v' := congrArg Prod.snd (List.inj_on_of_nodup_map hes hv hv' rfl)
    exact .inl rfl

end Members
end Relayout.Json
