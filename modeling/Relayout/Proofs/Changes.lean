import Mathlib.Data.List.Induction
import Relayout.Conversion
import Relayout.Token.Writer

/-!
# Options after a sequence of changes

A change sets one slot of the options and leaves every other one as it is. After a sequence of
changes a slot therefore holds what the last change of it says (`get_foldl_of_last?`), so that the
order of changes matters within a slot only (`foldl_change_by_slot`).
-/

namespace Relayout.Options

/-- What changes can set, each on its own. A token has a slot in each of the three tables. -/
inductive Slot
  | policy
  | mode
  | converter
  | custom (token : Text)
  | overrideToken (token : Text)
  | defaultToken (token : Text)
  deriving DecidableEq

/-- What a slot holds. -/
def Slot.Value : Slot → Type
  | policy => ErrorPolicy
  | mode => ParseMode
  | converter => Option YearConverter
  | custom _ | overrideToken _ | defaultToken _ => Option Source

/-- What the options hold in a slot. -/
def get (o : Options) : (slot : Slot) → slot.Value
  | .policy => o.policy
  | .mode => o.mode
  | .converter => o.converter
  | .custom token => o.custom.get? token
  | .overrideToken token => o.overrides.get? token
  | .defaultToken token => o.defaults.get? token

namespace Change

/-- The slot that the change sets. -/
def slot : Change → Slot
  | policy _ => .policy
  | mode _ => .mode
  | converter _ => .converter
  | custom token _ => .custom token
  | overrideToken token _ => .overrideToken token
  | defaultToken token _ => .defaultToken token

/-- What the slot holds after the change. -/
def value : (c : Change) → c.slot.Value
  | policy p => p
  | mode m => m
  | converter convert => some convert
  | custom _ handler => some (Source.handler handler)
  | overrideToken _ source => some source
  | defaultToken _ source => some source

end Change

/-- The last of the changes that set a slot. -/
def last? (slot : Slot) (changes : List Change) : Option Change :=
  (changes.filter (·.slot = slot)).getLast?

variable {o o' : Options} {c d : Change} {slot : Slot} {changes changes' : List Change}

/-! ## One change -/

/-- Options that hold the same in every slot are equal. -/
theorem ext_get (h : ∀ slot, o.get slot = o'.get slot) : o = o' := by
  obtain ⟨policy, mode, converter, custom, overrides, defaults⟩ := o
  obtain rfl : policy = _ := h .policy
  obtain rfl : mode = _ := h .mode
  obtain rfl : converter = _ := h .converter
  obtain rfl : custom = _ := NameMap.ext_get? fun token => h (.custom token)
  obtain rfl : overrides = _ := NameMap.ext_get? fun token => h (.overrideToken token)
  obtain rfl : defaults = _ := NameMap.ext_get? fun token => h (.defaultToken token)
  rfl

theorem get_change_slot (o : Options) (c : Change) : (o.change c).get c.slot = c.value := by
  cases c with
  | policy | mode | converter => rfl
  | custom token | overrideToken token | defaultToken token =>
    exact (NameMap.get?_insert _ token token _).trans (if_pos rfl)

theorem get_change_of_ne (o : Options) (h : c.slot ≠ slot) : (o.change c).get slot = o.get slot := by
  cases c <;> cases slot <;> first
    | rfl
    | exact absurd rfl h
    | -- a change and a slot of one table, told apart by their tokens
      rename_i token _ other
      exact (NameMap.get?_insert _ token other _).trans (if_neg fun heq => h (congrArg _ heq.symm))

/-! ## Many changes -/

theorem last?_concat :
    last? slot (changes ++ [c]) = if c.slot = slot then some c else last? slot changes := by
  rw [last?, List.filter_append]
  split
  next h => rw [List.filter_cons_of_pos (by simpa using h), List.filter_nil, List.getLast?_concat]
  next h => rw [List.filter_cons_of_neg (by simpa using h), List.filter_nil, List.append_nil, last?]

theorem foldl_change_concat :
    (changes ++ [c]).foldl change o = (changes.foldl change o).change c :=
  List.foldl_append

/-- A slot that no change sets is left as it is. -/
theorem get_foldl_of_last?_eq_none (o : Options) (h : last? slot changes = none) :
    (changes.foldl change o).get slot = o.get slot := by
  induction changes using List.reverseRecOn with
  | nil => rfl
  | append_singleton changes c ih =>
    rw [last?_concat] at h
    split at h
    next => exact nomatch h
    next hne => rw [foldl_change_concat, get_change_of_ne _ hne, ih h]

/-- A slot holds what the last change of it says. -/
theorem get_foldl_of_last? (o : Options) (h : last? d.slot changes = some d) :
    (changes.foldl change o).get d.slot = d.value := by
  induction changes using List.reverseRecOn with
  | nil => exact nomatch h
  | append_singleton changes c ih =>
    rw [last?_concat] at h
    split at h
    next => rw [foldl_change_concat, ← Option.some.inj h, get_change_slot]
    next hne => rw [foldl_change_concat, get_change_of_ne _ hne, ih h]

theorem slot_of_last? (h : last? slot changes = some d) : d.slot = slot :=
  of_decide_eq_true (List.mem_filter.1 (List.mem_of_getLast? h)).2

/-- Only the last change of each slot counts. -/
theorem foldl_change_congr (o : Options) (h : ∀ slot, last? slot changes = last? slot changes') :
    changes.foldl change o = changes'.foldl change o := by
  refine ext_get fun slot => ?_
  cases hlast : last? slot changes with
  | none =>
    rw [get_foldl_of_last?_eq_none o hlast, get_foldl_of_last?_eq_none o (h slot ▸ hlast)]
  | some d =>
    obtain rfl := slot_of_last? hlast
    rw [get_foldl_of_last? o hlast, get_foldl_of_last? o (h d.slot ▸ hlast)]

/-- Changes of different slots do not interfere, and within a slot the last change counts. Two
sequences with the same last change of each slot make the same options, which convert alike; so do
two with the same changes of each slot in the same order, in whatever order the slots take turns. A
slot holds what its last change says, even where a token has one in each table, and is left as it is
without a change. -/
theorem foldl_change_by_slot (o : Options) :
    (∀ changes changes', (∀ slot, last? slot changes = last? slot changes') →
      changes.foldl change o = changes'.foldl change o ∧
      ∀ inputLayout outputLayout input,
        (changes.foldl change o).convert inputLayout outputLayout input =
          (changes'.foldl change o).convert inputLayout outputLayout input) ∧
    (∀ changes changes' : List Change,
      (∀ slot, changes.filter (·.slot = slot) = changes'.filter (·.slot = slot)) →
      changes.foldl change o = changes'.foldl change o) ∧
    (∀ changes d, last? d.slot changes = some d → (changes.foldl change o).get d.slot = d.value) ∧
    ∀ changes slot, last? slot changes = none →
      (changes.foldl change o).get slot = o.get slot := by
  refine ⟨fun changes changes' h => ?_, fun changes changes' h => ?_,
    fun _ _ h => get_foldl_of_last? o h, fun _ _ h => get_foldl_of_last?_eq_none o h⟩
  · have heq := foldl_change_congr o h
    exact ⟨heq, fun _ _ _ => by rw [heq]⟩
  · exact foldl_change_congr o fun slot => congrArg List.getLast? (h slot)

/-- A token with a source in each table, and a converter that gives way to a later one. -/
theorem foldl_change_by_slot_quarter :
    let token : Text := "Q".toList
    let quarter : Handler := ⟨14, Writer.quarter⟩
    let changes : List Change := [.years (· + 1900), .custom token quarter,
      .overrideToken token (.literal "1".toList), .converter (YearConverter.refuse []),
      .defaultToken token (.literal "2".toList)]
    let changes' : List Change := [.defaultToken token (.literal "2".toList),
      .overrideToken token (.literal "1".toList), .converter (YearConverter.refuse []),
      .custom token quarter]
    ofChanges changes = ofChanges changes' ∧
    (ofChanges changes).get (.custom token) = some (Source.handler quarter) ∧
    (ofChanges changes).get (.overrideToken token) = some (Source.literal "1".toList) ∧
    (ofChanges changes).get .mode = ParseMode.positional := by
  intro token quarter changes changes'
  have hlast : ∀ slot, last? slot changes = last? slot changes' := by
    intro slot
    cases slot with
    | policy | mode | converter => rfl
    | custom other | overrideToken other | defaultToken other =>
      by_cases h : token = other <;>
        simp [last?, changes, changes', Change.slot, Change.years, h]
  obtain ⟨hsame, -, hset, hunset⟩ := foldl_change_by_slot {}
  exact ⟨(hsame changes changes' hlast).1, hset changes (.custom token quarter) rfl,
    hset changes (.overrideToken token (.literal "1".toList)) rfl, hunset changes .mode rfl⟩

end Relayout.Options
