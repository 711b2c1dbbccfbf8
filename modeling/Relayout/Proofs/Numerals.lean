import Relayout.Proofs.Decimal

/-!
# Numerals

A text denotes an integer when it is digits behind at most one sign (`Decimal.Denotes`). Exactly
such texts are read (`Decimal.readInt64?_eq_some_iff_denotes`), and the text that is written for a
number is the shortest one that denotes it (`Decimal.isShortest_iff`). Padding puts zeros between
its sign and its digits (`Decimal.writePadded_eq`), so it denotes the same number
(`Decimal.denotes_writePadded`).
-/

namespace Relayout.Decimal

/-- One or more ASCII digits and the number that they stand for, place by place. -/
inductive Numeral : Text → Nat → Prop
  | digit {c : Char} (hc : c.isDigit) : Numeral [c] (c.toNat - '0'.toNat)
  | cons {c : Char} {d : Text} {n : Nat} (hc : c.isDigit) (hd : Numeral d n) :
    Numeral (c :: d) (10 ^ d.length * (c.toNat - '0'.toNat) + n)

/-- Digits behind at most one sign and the integer that they stand for. -/
inductive Denotes : Text → Int → Prop
  | unsigned {d : Text} {n : Nat} (hd : Numeral d n) : Denotes d n
  | plus {d : Text} {n : Nat} (hd : Numeral d n) : Denotes ('+' :: d) n
  | minus {d : Text} {n : Nat} (hd : Numeral d n) : Denotes ('-' :: d) (-n)

variable {d e : Text} {c : Char} {n m w : Nat} {k : Int} {v : Int64}

/-! ## Digits -/

theorem numeral_iff :
    Numeral d n ↔ d ≠ [] ∧ d.all Char.isDigit ∧ Nat.ofDigitChars 10 d 0 = n := by
  constructor
  · intro h
    induction h with
    | digit hc =>
      refine ⟨List.cons_ne_nil _ _, by simpa using hc, ?_⟩
      rw [ofDigitChars_cons_zero, List.length_nil, Nat.pow_zero, Nat.one_mul]
      rfl
    | cons hc _ ih =>
      obtain ⟨-, hd, hn⟩ := ih
      refine ⟨List.cons_ne_nil _ _, by rw [List.all_cons, hc, hd]; rfl, ?_⟩
      rw [ofDigitChars_cons_zero, hn]
  · rintro ⟨hne, hd, rfl⟩
    induction d with
    | nil => exact absurd rfl hne
    | cons c d ih =>
      obtain ⟨hc, hd⟩ := Bool.and_eq_true_iff.1 (List.all_cons ▸ hd)
      rw [ofDigitChars_cons_zero]
      cases d with
      | nil => simpa using Numeral.digit hc
      | cons c' d' => exact .cons hc (ih (List.cons_ne_nil _ _) hd)

theorem Numeral.lt (h : Numeral d n) : n < 10 ^ d.length := by
  obtain ⟨-, hd, rfl⟩ := numeral_iff.1 h
  exact ofDigitChars_lt hd

theorem Numeral.length_pos (h : Numeral d n) : 0 < d.length :=
  List.length_pos_iff.2 (numeral_iff.1 h).1

/-- Of all digits for a number those without leading zeros are the fewest. -/
theorem Numeral.length_digits_le (h : Numeral d n) : (digits n).length ≤ d.length :=
  Decimal.length_digits_le h.length_pos h.lt

theorem numeral_zeros_digits (z n : Nat) : Numeral (List.replicate z '0' ++ digits n) n := by
  refine numeral_iff.2 ⟨?_, ?_, ?_⟩
  · exact List.append_ne_nil_of_right_ne_nil _ (List.length_pos_iff.1 Nat.length_toDigits_pos)
  · rw [List.all_append, all_isDigit_digits, Bool.and_true, List.all_replicate]
    split <;> rfl
  · rw [Nat.ofDigitChars_append, Nat.ofDigitChars_replicate_zero, Nat.mul_zero]
    exact Nat.ofDigitChars_ten_toDigits

theorem numeral_digits (n : Nat) : Numeral (digits n) n := numeral_zeros_digits 0 n

theorem Numeral.eq_digits (h : Numeral d n) (hlen : d.length ≤ (digits n).length) :
    d = digits n := by
  obtain ⟨-, hd, hn⟩ := numeral_iff.1 h
  obtain ⟨-, hdigits, hvalue⟩ := numeral_iff.1 (numeral_digits n)
  exact eq_of_ofDigitChars_eq hd hdigits (Nat.le_antisymm hlen h.length_digits_le)
    (hn.trans hvalue.symm)

theorem readNat?_eq_some_iff : readNat? d = some n ↔ Numeral d n := by
  rw [numeral_iff, readNat?]
  split
  next h => rw [Option.some.injEq, and_iff_right h.1, and_iff_right h.2]
  next h => exact ⟨nofun, fun h' => absurd ⟨h'.1, h'.2.1⟩ h⟩

/-! ## Signs -/

theorem not_numeral_minus : ¬Numeral ('-' :: d) n := fun h => nomatch (numeral_iff.1 h).2.1

theorem not_numeral_plus : ¬Numeral ('+' :: d) n := fun h => nomatch (numeral_iff.1 h).2.1

theorem read?_eq_some_iff : read? d = some k ↔ Denotes d k := by
  unfold read?
  split
  next d =>
    simp only [Option.map_eq_some_iff, Option.bind_eq_bind, Option.bind_eq_some_iff,
      Option.pure_def, Option.some.injEq, readNat?_eq_some_iff]
    constructor
    · rintro ⟨_, ⟨n, hd, rfl⟩, rfl⟩
      exact .minus hd
    · rintro (h | _ | h)
      · exact absurd h not_numeral_minus
      · exact ⟨_, ⟨_, h, rfl⟩, rfl⟩
  next d =>
    simp only [Option.map_eq_some_iff, readNat?_eq_some_iff]
    constructor
    · rintro ⟨n, hd, rfl⟩
      exact .plus hd
    · rintro (h | h)
      · exact absurd h not_numeral_plus
      · exact ⟨_, h, rfl⟩
  next hminus hplus =>
    simp only [Option.map_eq_some_iff, readNat?_eq_some_iff]
    constructor
    · rintro ⟨n, hd, rfl⟩
      exact .unsigned hd
    · rintro (h | _ | _)
      · exact ⟨_, h, rfl⟩
      · exact absurd rfl (hplus _)
      · exact absurd rfl (hminus _)

/-- A text denotes one integer at most. -/
theorem Denotes.unique {k' : Int} (h : Denotes d k) (h' : Denotes d k') : k = k' :=
  Option.some.inj ((read?_eq_some_iff.2 h).symm.trans (read?_eq_some_iff.2 h'))

theorem readInt64?_eq_some_iff_denotes : readInt64? d = some v ↔ Denotes d v.toInt := by
  simp only [readInt64?, Option.bind_eq_some_iff, read?_eq_some_iff, toInt64?_eq_some_iff,
    exists_eq_right']

/-- What is not read denotes nothing, or an integer that is out of range. -/
theorem readInt64?_eq_none_iff :
    readInt64? d = none ↔ ∀ k, Denotes d k → k < -2 ^ 63 ∨ 2 ^ 63 ≤ k := by
  rw [Option.eq_none_iff_forall_ne_some]
  simp only [ne_eq, readInt64?_eq_some_iff_denotes]
  constructor
  · intro h k hk
    by_contra hrange
    -- it would be in range and so have been read
    have hv : (Int64.ofInt k).toInt = k := Int64.toInt_ofInt_of_le (by omega) (by omega)
    exact h _ (hv ▸ hk)
  · intro h v hv
    have hrange := h _ hv
    have hlow := v.minValue_le_toInt
    have hhigh := v.toInt_le
    rw [Int64.toInt_minValue] at hlow
    rw [Int64.toInt_maxValue] at hhigh
    omega

/-! ## Writing -/

/-- What stands in front of the digits of a number. -/
def sign (k : Int) : Text := if k < 0 then ['-'] else []

theorem write_eq (k : Int) : write k = sign k ++ digits k.natAbs := by
  unfold write sign
  split <;> rfl

theorem length_write (k : Int) : (write k).length = (sign k).length + (digits k.natAbs).length := by
  rw [write_eq, List.length_append]

/-- The zeros fill up what the number leaves of the width. -/
theorem writePadded_eq (w : Nat) (k : Int) : writePadded w k =
    sign k ++ List.replicate (w - (write k).length) '0' ++ digits k.natAbs := by
  rw [length_write]
  unfold writePadded sign
  split
  next => rw [List.leftpad, List.length_singleton, Nat.sub_sub]; rfl
  next => rw [List.leftpad, List.length_nil, Nat.zero_add]; rfl

theorem length_writePadded (w : Nat) (k : Int) :
    (writePadded w k).length = max w (write k).length := by
  rw [writePadded_eq, List.length_append, List.length_append, List.length_replicate]
  have hlen := length_write k
  omega

theorem denotes_sign_zeros (z : Nat) (k : Int) :
    Denotes (sign k ++ List.replicate z '0' ++ digits k.natAbs) k := by
  have hdigits := numeral_zeros_digits z k.natAbs
  rw [List.append_assoc, sign]
  split
  next hneg =>
    have hk : -(k.natAbs : Int) = k := by omega
    have hminus := Denotes.minus hdigits
    rwa [hk] at hminus
  next hpos =>
    have hk : (k.natAbs : Int) = k := by omega
    have hunsigned := Denotes.unsigned hdigits
    rwa [hk] at hunsigned

theorem denotes_writePadded (w : Nat) (k : Int) : Denotes (writePadded w k) k :=
  writePadded_eq w k ▸ denotes_sign_zeros _ k

theorem writePadded_injective {k' : Int} (h : writePadded w k = writePadded w k') : k = k' :=
  (denotes_writePadded w k).unique (h ▸ denotes_writePadded w k')

theorem denotes_write (k : Int) : Denotes (write k) k :=
  write_eq_writePadded k ▸ denotes_writePadded 1 k

/-- No shorter text denotes the number. -/
def IsShortest (d : Text) (k : Int) : Prop :=
  Denotes d k ∧ ∀ e, Denotes e k → d.length ≤ e.length

theorem write_natCast (n : Nat) : write n = digits n := by
  rw [write_eq, sign, if_neg (by omega)]
  rfl

theorem write_neg (hn : 0 < n) : write (-(n : Int)) = '-' :: digits n := by
  rw [write_eq, sign, if_pos (by omega), Int.natAbs_neg, Int.natAbs_natCast]
  rfl

theorem Denotes.length_write_le (h : Denotes d k) : (write k).length ≤ d.length := by
  cases h with
  | unsigned hd =>
    rw [write_natCast]
    exact hd.length_digits_le
  | plus hd =>
    rw [write_natCast]
    exact Nat.le_succ_of_le hd.length_digits_le
  | @minus d n hd =>
    rcases Nat.eq_zero_or_pos n with rfl | hn
    · exact Nat.le_succ_of_le hd.length_digits_le
    · rw [write_neg hn]
      exact Nat.succ_le_succ hd.length_digits_le

/-- A text that is no longer than what is written has no sign and no zero that it does not need. -/
theorem Denotes.eq_write (h : Denotes d k) (hlen : d.length ≤ (write k).length) : d = write k := by
  cases h with
  | unsigned hd =>
    rw [write_natCast] at hlen ⊢
    exact hd.eq_digits hlen
  | plus hd =>
    rw [write_natCast] at hlen
    exact absurd (Nat.lt_of_lt_of_le hlen hd.length_digits_le) (Nat.lt_irrefl _)
  | @minus d n hd =>
    rcases Nat.eq_zero_or_pos n with rfl | hn
    · exact absurd (Nat.lt_of_lt_of_le hlen hd.length_digits_le) (Nat.lt_irrefl _)
    · rw [write_neg hn] at hlen ⊢
      rw [hd.eq_digits (Nat.le_of_succ_le_succ hlen)]

/-- What is written is the shortest text for the number, and there is no other of its length. -/
theorem isShortest_iff : IsShortest d k ↔ d = write k := by
  constructor
  · rintro ⟨h, hmin⟩
    exact h.eq_write (hmin _ (denotes_write k))
  · rintro rfl
    exact ⟨denotes_write k, fun _ he => he.length_write_le⟩

end Relayout.Decimal
