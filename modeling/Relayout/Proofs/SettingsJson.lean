import Relayout.Proofs.Json.Content
import Relayout.Settings

/-!
# Settings in JSON

A value holds settings (`Settings.HeldBy`) when it is an object with one member at most for each of
the four names, or an array of four values at most, and what is missing has its default. The texts
that are read are those written for such values, and the options made of the settings have the
same policy, mode and texts (`Settings.json_toOptions`).
-/

namespace Relayout

open Json (Given Members Value)
open Json.Value (IsChoice IsTextMap Written)

theorem ErrorPolicy.name_injective : Function.Injective name := by
  rintro (_ | _) (_ | _) h <;> first | rfl | exact absurd h (by decide)

theorem ErrorPolicy.ofName?_eq_some_iff {name : Text} {policy : ErrorPolicy} :
    ofName? name = some policy ↔ name = policy.name :=
  NameMap.find?_name_eq_some_iff (by rintro (_ | _) <;> decide) name_injective

theorem ParseMode.name_injective : Function.Injective name := by
  rintro (_ | _) (_ | _) h <;> first | rfl | exact absurd h (by decide)

theorem ParseMode.ofName?_eq_some_iff {name : Text} {mode : ParseMode} :
    ofName? name = some mode ↔ name = mode.name :=
  NameMap.find?_name_eq_some_iff (by rintro (_ | _) <;> decide) name_injective

namespace Settings

variable {s : Settings} {v : Value} {text : Text} {policy mode overrides defaults : Option Value}

/-- The values of the members give the settings. Where a value is missing the setting has its
default. -/
structure GivenBy (s : Settings) (policy mode overrides defaults : Option Value) : Prop where
  policy : Given .throw (fun p => IsChoice p.name) s.policy policy
  mode : Given .positional (fun m => IsChoice m.name) s.mode mode
  overrides : Given ∅ IsTextMap s.overrides overrides
  defaults : Given ∅ IsTextMap s.defaults defaults

/-- An object with some of the members, among others, or an array that begins with some of their
values in order, holds the settings. -/
inductive HeldBy (s : Settings) : Value → Prop
  | object {members : Members} {value : Text → Option Value}
    (hmembers : members.Gives memberNames value)
    (h : s.GivenBy (value "errorPolicy".toList) (value "parseMode".toList)
      (value "overrideTokens".toList) (value "defaultTokens".toList)) :
    HeldBy s (.object members)
  | array {items : List Value} (hlen : items.length ≤ 4)
    (h : s.GivenBy items[0]? items[1]? items[2]? items[3]?) : HeldBy s (.array items)

theorem ofValues?_eq_some_iff : ofValues? policy mode overrides defaults = some s ↔
    s.GivenBy policy mode overrides defaults := by
  have hpolicy : ∀ p o, Json.orElse .throw (fun v => v.choice?.bind ErrorPolicy.ofName?) o =
      some p ↔ Given .throw (fun p => IsChoice p.name) p o := fun p => Json.orElse_eq_some_iff <| by
    simp only [Option.bind_eq_some_iff, Value.choice?_eq_some_iff,
      ErrorPolicy.ofName?_eq_some_iff, exists_eq_right, implies_true]
  have hmode : ∀ m o, Json.orElse .positional (fun v => v.choice?.bind ParseMode.ofName?) o =
      some m ↔ Given .positional (fun m => IsChoice m.name) m o := fun m =>
    Json.orElse_eq_some_iff <| by
      simp only [Option.bind_eq_some_iff, Value.choice?_eq_some_iff,
        ParseMode.ofName?_eq_some_iff, exists_eq_right, implies_true]
  have hmap : ∀ m o, Json.orElse ∅ Value.textMap? o = some m ↔ Given ∅ IsTextMap m o := fun m =>
    Json.orElse_eq_some_iff fun v => Value.textMap?_eq_some_iff
  simp only [ofValues?, Option.bind_eq_bind, Option.bind_eq_some_iff, Option.pure_def,
    Option.some.injEq, hpolicy, hmode, hmap]
  constructor
  · rintro ⟨p, hp, m, hm, o, ho, d, hd, rfl⟩
    exact ⟨hp, hm, ho, hd⟩
  · rintro ⟨hp, hm, ho, hd⟩
    exact ⟨_, hp, _, hm, _, ho, _, hd, rfl⟩

theorem ofJson?_eq_some_iff : ofJson? v = some s ↔ s.HeldBy v := by
  unfold ofJson?
  split
  next members =>
    rw [Option.bind_eq_bind, Option.bind_eq_some_iff]
    simp only [ofValues?_eq_some_iff]
    constructor
    · rintro ⟨known, hknown, h⟩
      exact .object (Members.gives_iff.2 ⟨known, hknown, fun _ _ => rfl⟩) h
    · rintro ⟨hmembers, h⟩
      obtain ⟨known, hknown, hget⟩ := Members.gives_iff.1 hmembers
      refine ⟨known, hknown, ?_⟩
      rw [hget policyName (by decide), hget modeName (by decide), hget overridesName (by decide),
        hget defaultsName (by decide)]
      exact h
  next items =>
    have hlen : memberNames.length = 4 := rfl
    rw [hlen]
    split
    next hle =>
      rw [ofValues?_eq_some_iff]
      refine ⟨.array hle, ?_⟩
      rintro (_ | ⟨_, h⟩)
      exact h
    next hlt =>
      refine ⟨nofun, ?_⟩
      rintro (_ | ⟨hle, _⟩)
      exact absurd hle hlt
  next hobject harray =>
    refine ⟨nofun, ?_⟩
    rintro (_ | _)
    · exact absurd rfl (hobject _)
    · exact absurd rfl (harray _)

/-- A mode as an object, a map with a repeated name, and a member that is passed over. -/
example : ofJson? (.object [
    (some "parseMode".toList, .object [(some "strict".toList, .null)]),
    (some "skipped".toList, .string none),
    (some "overrideTokens".toList, .object [(some "dd".toList, .string (some "1".toList)),
      (some "dd".toList, .string (some "2".toList))])]) =
    some { mode := .strict, overrides := .ofList [("dd".toList, "2".toList)] } :=
  rfl

/-- Settings are read from the texts of the values that hold them, and from no others. -/
theorem readJson?_eq_some_iff : readJson? text = some s ↔ ∃ v, Written text v ∧ s.HeldBy v := by
  simp only [readJson?, Option.bind_eq_some_iff, Value.read?_eq_some_iff, ofJson?_eq_some_iff]

/-! ## Settings written down -/

/-- The members of an object for a map of texts. -/
def textMembers (m : NameMap Text) : Members :=
  m.entries.map fun e => (some e.1, .string (some e.2))

/-- The names of the settings with their values. -/
def entries (s : Settings) : List (Text × Value) := [
  ("errorPolicy".toList, .string (some s.policy.name)),
  ("parseMode".toList, .string (some s.mode.name)),
  ("overrideTokens".toList, .object (textMembers s.overrides)),
  ("defaultTokens".toList, .object (textMembers s.defaults))]

theorem nodup_entries (s : Settings) : (s.entries.map (·.1)).Nodup := by
  have hnames : s.entries.map (·.1) = memberNames := rfl
  exact hnames ▸ by decide

theorem isTextMap_textMembers (m : NameMap Text) : IsTextMap m (.object (textMembers m)) :=
  ⟨m.entries, rfl, fun _ => (NameMap.lookup_reverse m.nodup_names).symm⟩

theorem textMembers_injective {m n : NameMap Text} (h : textMembers m = textMembers n) : m = n := by
  have hm := Value.textMap?_eq_some_iff.2 (isTextMap_textMembers m)
  have hn := Value.textMap?_eq_some_iff.2 (isTextMap_textMembers n)
  exact Option.some.inj (hm.symm.trans (h ▸ hn))

/-- An object that lists the entries of the settings holds them. Those may be left out that are the
default ones. -/
theorem heldBy_object {members : Members}
    (h : members.Lists memberNames s.entries ({} : Settings).entries) :
    s.HeldBy (.object members) := by
  obtain ⟨value, hgives, hvalue⟩ := h.exists_gives s.nodup_entries ({} : Settings).nodup_entries
  have hmem : ∀ {s : Settings} i {e}, s.entries[i]? = some e → e ∈ s.entries :=
    fun _ => List.mem_of_getElem?
  have hmap : ∀ {m : NameMap Text}, Value.object (textMembers m) = .object (textMembers ∅) →
      m = ∅ := fun heq => textMembers_injective (Value.object.inj heq)
  refine .object hgives ⟨?_, ?_, ?_, ?_⟩
  · exact .of_eq_or (hvalue (hmem 0 rfl) (hmem 0 rfl)) .text fun heq =>
      ErrorPolicy.name_injective (Option.some.inj (Value.string.inj heq))
  · exact .of_eq_or (hvalue (hmem 1 rfl) (hmem 1 rfl)) .text fun heq =>
      ParseMode.name_injective (Option.some.inj (Value.string.inj heq))
  · exact .of_eq_or (hvalue (hmem 2 rfl) (hmem 2 rfl)) (isTextMap_textMembers _) hmap
  · exact .of_eq_or (hvalue (hmem 3 rfl) (hmem 3 rfl)) (isTextMap_textMembers _) hmap

theorem heldBy_array (s : Settings) : s.HeldBy (.array (s.entries.map (·.2))) :=
  .array (Nat.le_refl _) ⟨.text, .text, isTextMap_textMembers _, isTextMap_textMembers _⟩

theorem writable_entries (s : Settings) : ∀ e ∈ s.entries, e.2.Writable := by
  have hmap : ∀ m : NameMap Text, (Value.object (textMembers m)).Writable := by
    intro m
    refine Value.writable_object.2 fun e he => ?_
    obtain ⟨e, -, rfl⟩ := List.mem_map.1 he
    exact Value.writable_string _
  simp only [entries, List.forall_mem_cons]
  exact ⟨Value.writable_string _, Value.writable_string _, hmap _, hmap _, nofun⟩

/-- Settings are read from the texts of the values that hold them, and from no others. Among these
values are the objects that list the settings, in any order and with any other members, and the
array of their values; both can be written for any settings. Options made of the settings have
their policy, their mode and their texts, and nothing else. -/
theorem json_toOptions :
    (∀ text s, readJson? text = some s ↔ ∃ v, Written text v ∧ s.HeldBy v) ∧
    (∀ (s : Settings) (members : Members),
      members.Lists memberNames s.entries ({} : Settings).entries →
        ∀ text, Written text (.object members) → readJson? text = some s) ∧
    (∀ (s : Settings) text,
      Written text (.array (s.entries.map (·.2))) → readJson? text = some s) ∧
    (∀ s : Settings, (∃ text, Written text (.object (s.entries.map fun e => (some e.1, e.2)))) ∧
      ∃ text, Written text (.array (s.entries.map (·.2)))) ∧
    ∀ s : Settings, s.toOptions.policy = s.policy ∧ s.toOptions.mode = s.mode ∧
      s.toOptions.converter = none ∧ s.toOptions.custom = ∅ ∧
      (∀ name, s.toOptions.overrides.get? name = (s.overrides.get? name).map .literal) ∧
      ∀ name, s.toOptions.defaults.get? name = (s.defaults.get? name).map .literal := by
  refine ⟨fun _ _ => readJson?_eq_some_iff, fun s members h text hw => ?_, fun s text hw => ?_,
    fun s => ?_, fun s => ?_⟩
  · exact readJson?_eq_some_iff.2 ⟨_, hw, heldBy_object h⟩
  · exact readJson?_eq_some_iff.2 ⟨_, hw, heldBy_array s⟩
  · exact Value.exists_written_entries s.writable_entries
  · exact ⟨rfl, rfl, rfl, rfl, NameMap.get?_map _ _, NameMap.get?_map _ _⟩

end Settings
end Relayout
