import Relayout.Text.Basic

/-!
# Cuts of a text at bytes

The UTF-8 form of a text is cut at byte positions. `Text.slice?` refuses bounds that are out of
order, out of range or inside a character, and so gives a piece exactly for the bounds at which one
stands (`slice?_eq_some_iff`).
-/

namespace Relayout.Text

/-- The text before byte `n` and the text from it on, unless the byte is inside a character or behind
the end. -/
def splitAtByte? (n : Nat) : Text → Option (Text × Text)
  | [] => if n = 0 then some ([], []) else none
  | c :: rest =>
    if n = 0 then some ([], c :: rest)
    else if c.utf8Size ≤ n then
      (splitAtByte? (n - c.utf8Size) rest).map fun (before, behind) => (c :: before, behind)
    else none

/-- The text between two byte positions. -/
def slice? (text : Text) (first last : Nat) : Option Text :=
  if first ≤ last then do
    let (_, behind) ← splitAtByte? first text
    let (inside, _) ← splitAtByte? (last - first) behind
    return inside
  else none

variable {text t a b : Text} {n first last : Nat}

theorem splitAtByte?_append : splitAtByte? (utf8Size a) (a ++ b) = some (a, b) := by
  induction a with
  | nil => cases b <;> simp [splitAtByte?, utf8Size]
  | cons c rest ih =>
    have hpos := c.utf8Size_pos
    rw [List.cons_append, splitAtByte?, utf8Size, if_neg (by omega), if_pos (Nat.le_add_right ..),
      Nat.add_sub_cancel_left, ih, Option.map_some]

theorem eq_of_splitAtByte? (h : splitAtByte? n text = some (a, b)) :
    text = a ++ b ∧ utf8Size a = n := by
  induction text generalizing n a with
  | nil =>
    rw [splitAtByte?] at h
    split at h
    next hn => cases h; exact ⟨rfl, hn.symm⟩
    next => exact nomatch h
  | cons c rest ih =>
    rw [splitAtByte?] at h
    split at h
    next hn => cases h; exact ⟨rfl, hn.symm⟩
    next =>
      split at h
      next hle =>
        obtain ⟨⟨a', b'⟩, hsplit, heq⟩ := Option.map_eq_some_iff.1 h
        cases heq
        obtain ⟨rfl, hsize⟩ := ih hsplit
        exact ⟨rfl, by rw [utf8Size, hsize, Nat.add_sub_cancel' hle]⟩
      next => exact nomatch h

theorem splitAtByte?_eq_some_iff :
    splitAtByte? n text = some (a, b) ↔ text = a ++ b ∧ utf8Size a = n := by
  constructor
  · exact eq_of_splitAtByte?
  · rintro ⟨rfl, rfl⟩
    exact splitAtByte?_append

/-- A slice is a piece of the text that begins and ends at the two bytes. -/
theorem slice?_eq_some_iff : slice? text first last = some t ↔
    ∃ a b, text = a ++ t ++ b ∧ utf8Size a = first ∧ utf8Size (a ++ t) = last := by
  simp only [slice?, utf8Size_append]
  constructor
  · intro h
    split at h
    next hle =>
      simp only [Option.bind_eq_bind, Option.bind_eq_some_iff, Option.pure_def, Option.some.injEq,
        Prod.exists, splitAtByte?_eq_some_iff] at h
      obtain ⟨a, _, ⟨rfl, rfl⟩, t, b, ⟨rfl, hsize⟩, rfl⟩ := h
      exact ⟨a, b, (List.append_assoc ..).symm, rfl, by omega⟩
    next => exact nomatch h
  · rintro ⟨a, b, rfl, rfl, rfl⟩
    rw [if_pos (Nat.le_add_right ..), List.append_assoc, splitAtByte?_append,
      Nat.add_sub_cancel_left, Option.bind_eq_bind, Option.bind_some, splitAtByte?_append]
    rfl

/-- The byte at which the character at position `i` begins. -/
def byteAt (text : Text) (i : Nat) : Nat := utf8Size (text.take i)

theorem byteAt_length : byteAt text text.length = utf8Size text := by
  rw [byteAt, List.take_length]

theorem byteAt_add {i : Nat} (h : t <+: text.drop i) :
    text.byteAt (i + t.length) = text.byteAt i + utf8Size t := by
  rw [byteAt, List.take_add, ← List.prefix_iff_eq_take.1 h, utf8Size_append, byteAt]

theorem byteAt_le_byteAt {i j : Nat} (h : i ≤ j) : text.byteAt i ≤ text.byteAt j := by
  obtain ⟨k, rfl⟩ := Nat.exists_eq_add_of_le h
  rw [byteAt, byteAt, List.take_add, utf8Size_append]
  exact Nat.le_add_right ..

theorem byteAt_succ {i : Nat} {c : Char} {rest : Text} (h : text.drop i = c :: rest) :
    text.byteAt (i + 1) = text.byteAt i + c.utf8Size :=
  byteAt_add (t := [c]) (h ▸ List.cons_prefix_cons.2 ⟨rfl, List.nil_prefix⟩)

/-- Every character takes up a byte. -/
theorem byteAt_lt_byteAt {i j : Nat} (h : i < j) (hi : i < text.length) :
    text.byteAt i < text.byteAt j := by
  have hsucc := byteAt_succ (List.drop_eq_getElem_cons hi)
  have hpos := text[i].utf8Size_pos
  have hle : text.byteAt (i + 1) ≤ text.byteAt j := byteAt_le_byteAt h
  omega

/-- Every byte of a text belongs to a character. -/
theorem exists_byteAt_le (h : n < text.utf8Size) :
    ∃ i, text.byteAt i ≤ n ∧ n < text.byteAt (i + 1) := by
  induction text generalizing n with
  | nil => exact nomatch h
  | cons c rest ih =>
    rw [utf8Size] at h
    rcases Nat.lt_or_ge n c.utf8Size with hlt | hge
    · exact ⟨0, Nat.zero_le _, hlt⟩
    · obtain ⟨i, hle, hlt⟩ := ih (n := n - c.utf8Size) (by omega)
      refine ⟨i + 1, ?_, ?_⟩ <;> rw [byteAt, List.take_succ_cons, utf8Size, ← byteAt] <;> omega

/-- What stands between two positions is the slice between their bytes. -/
theorem slice?_between {i j : Nat} (h : i ≤ j) :
    slice? text (text.byteAt i) (text.byteAt j) = some ((text.drop i).take (j - i)) := by
  have htake : text.take j = text.take i ++ (text.drop i).take (j - i) := by
    rw [← List.take_add, Nat.add_sub_cancel' h]
  refine slice?_eq_some_iff.2 ⟨text.take i, text.drop j, ?_, rfl, by rw [← htake, byteAt]⟩
  rw [← htake, List.take_append_drop]

/-- A piece that stands at a position is the slice between its bytes. -/
theorem slice?_byteAt {i : Nat} (h : t <+: text.drop i) :
    slice? text (text.byteAt i) (text.byteAt i + utf8Size t) = some t := by
  rw [← byteAt_add h, slice?_between (Nat.le_add_right ..), Nat.add_sub_cancel_left,
    ← List.prefix_iff_eq_take.1 h]

end Relayout.Text
