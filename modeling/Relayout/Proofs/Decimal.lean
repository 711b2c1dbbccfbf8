import Mathlib.Tactic.Ring
import Relayout.Decimal

/-!
# Digits and numbers

A text of digits is the text of its number, filled up to its own length
(`writePadded_ofDigitChars`), and it is read as that number unless the number is out of range
(`readInt64?_eq_some_iff`).
-/

namespace Relayout.Decimal

variable {d e : Text} {n w : Nat} {v : Int64}

/-! ## The number of a text of digits -/

theorem isDigit_iff {c : Char} : c.isDigit = true ↔ '0'.toNat ≤ c.toNat ∧ c.toNat ≤ '9'.toNat := by
  simp only [Char.isDigit, Bool.and_eq_true, decide_eq_true_eq]
  rfl

theorem ofDigitChars_cons_zero {c : Char} : Nat.ofDigitChars 10 (c :: d) 0 =
    10 ^ d.length * (c.toNat - '0'.toNat) + Nat.ofDigitChars 10 d 0 := by
  rw [Nat.ofDigitChars_cons, Nat.mul_zero, Nat.zero_add, Nat.ofDigitChars_eq_ofDigitChars_zero]

theorem ofDigitChars_lt (hd : d.all Char.isDigit) : Nat.ofDigitChars 10 d 0 < 10 ^ d.length := by
  induction d with
  | nil => exact Nat.one_pos
  | cons c d ih =>
    rw [List.all_cons, Bool.and_eq_true] at hd
    have hc : c.toNat - '0'.toNat ≤ 9 := Nat.sub_le_of_le_add (isDigit_iff.1 hd.1).2
    calc Nat.ofDigitChars 10 (c :: d) 0
      _ = 10 ^ d.length * (c.toNat - '0'.toNat) + Nat.ofDigitChars 10 d 0 := ofDigitChars_cons_zero
      _ < 10 ^ d.length * 9 + 10 ^ d.length :=
        Nat.add_lt_add_of_le_of_lt (Nat.mul_le_mul_left _ hc) (ih hd.2)
      _ = 10 ^ (c :: d).length := by rw [List.length_cons]; ring

/-- Texts of digits of the same length stand for different numbers. -/
theorem eq_of_ofDigitChars_eq (hd : d.all Char.isDigit) (he : e.all Char.isDigit)
    (hlen : d.length = e.length) (h : Nat.ofDigitChars 10 d 0 = Nat.ofDigitChars 10 e 0) :
    d = e := by
  induction d generalizing e with
  | nil => exact (List.eq_nil_of_length_eq_zero hlen.symm).symm
  | cons a d ih =>
    cases e with
    | nil => exact nomatch hlen
    | cons b e =>
      rw [List.all_cons, Bool.and_eq_true] at hd he
      have hlen : d.length = e.length := Nat.succ.inj hlen
      rw [ofDigitChars_cons_zero, ofDigitChars_cons_zero, hlen] at h
      have hlt := ofDigitChars_lt he.2
      have hlt' := hlen ▸ ofDigitChars_lt hd.2
      have hrest : Nat.ofDigitChars 10 d 0 = Nat.ofDigitChars 10 e 0 := by
        have := congrArg (· % 10 ^ e.length) h
        simpa only [Nat.mul_add_mod, Nat.mod_eq_of_lt hlt, Nat.mod_eq_of_lt hlt'] using this
      have hfirst : a.toNat - '0'.toNat = b.toNat - '0'.toNat := by
        rw [hrest] at h
        exact Nat.eq_of_mul_eq_mul_left (Nat.pow_pos (by decide)) (Nat.add_right_cancel h)
      have ha := (isDigit_iff.1 hd.1).1
      have hb := (isDigit_iff.1 he.1).1
      have hab : a.toNat = b.toNat := by omega
      rw [ih hd.2 he.2 hlen hrest, Char.toNat_inj.1 hab]

/-! ## The text of a number -/

theorem all_isDigit_digits : (digits n).all Char.isDigit :=
  List.all_eq_true.2 fun _ hc => Nat.isDigit_of_mem_toDigits (by decide) (by decide) hc

theorem all_isDigit_leftpad (hd : d.all Char.isDigit) : (d.leftpad w '0').all Char.isDigit := by
  rw [List.leftpad, List.all_append, hd, Bool.and_true, List.all_replicate]
  split <;> rfl

theorem ofDigitChars_leftpad :
    Nat.ofDigitChars 10 (d.leftpad w '0') 0 = Nat.ofDigitChars 10 d 0 := by
  rw [List.leftpad, Nat.ofDigitChars_append, Nat.ofDigitChars_replicate_zero, Nat.mul_zero]

theorem length_digits_le (hw : 0 < w) (h : n < 10 ^ w) : (digits n).length ≤ w :=
  (Nat.length_toDigits_le_iff (by decide) hw).2 h

/-- The text of a number that has room in `w` digits is `w` digits for that number. -/
theorem writePadded_natCast (hw : 0 < w) (h : n < 10 ^ w) :
    (writePadded w n).length = w ∧ (writePadded w n).all Char.isDigit ∧
      Nat.ofDigitChars 10 (writePadded w n) 0 = n := by
  have hpos : ¬(n : Int) < 0 := by omega
  rw [writePadded, if_neg hpos, Int.natAbs_natCast]
  refine ⟨?_, all_isDigit_leftpad all_isDigit_digits, ?_⟩
  · rw [List.length_leftpad, Nat.max_eq_left (length_digits_le hw h)]
  · rw [ofDigitChars_leftpad]
    exact Nat.ofDigitChars_ten_toDigits

/-- A text of digits is the text of its number. -/
theorem writePadded_ofDigitChars (hne : d ≠ []) (hd : d.all Char.isDigit) :
    writePadded d.length (Nat.ofDigitChars 10 d 0) = d := by
  obtain ⟨hlen, hdigits, hvalue⟩ :=
    writePadded_natCast (List.length_pos_iff.2 hne) (ofDigitChars_lt hd)
  exact eq_of_ofDigitChars_eq hdigits hd hlen hvalue

/-- Without padding a number has at least one digit anyway. -/
theorem write_eq_writePadded (n : Int) : write n = writePadded 1 n := by
  have hpos : 1 - (digits n.natAbs).length = 0 := Nat.sub_eq_zero_of_le Nat.length_toDigits_pos
  simp [write, writePadded, List.leftpad, hpos]

theorem ofDigitChars_append_zero : Nat.ofDigitChars 10 (d ++ e) 0 =
    10 ^ e.length * Nat.ofDigitChars 10 d 0 + Nat.ofDigitChars 10 e 0 := by
  rw [Nat.ofDigitChars_append, Nat.ofDigitChars_eq_ofDigitChars_zero]

/-- The last two digits of a number above nine stand for its remainder by a hundred. -/
theorem exists_digits_eq_append (hn : 10 ≤ n) : ∃ a e, digits n = a ++ e ∧ e.length = 2 ∧
    e.all Char.isDigit ∧ Nat.ofDigitChars 10 e 0 = n % 100 := by
  have hlong : 2 ≤ (digits n).length := by
    refine Nat.succ_le_of_lt (Nat.lt_of_not_le fun hle => ?_)
    have := (Nat.length_toDigits_le_iff (by decide) Nat.one_pos).1 hle
    omega
  obtain ⟨a, e, hsplit, he⟩ : ∃ a e, digits n = a ++ e ∧ e.length = 2 :=
    ⟨_, _, (List.take_append_drop ((digits n).length - 2) _).symm, by
      rw [List.length_drop]; omega⟩
  have hdigits : e.all Char.isDigit := by
    have := hsplit ▸ all_isDigit_digits (n := n)
    rw [List.all_append, Bool.and_eq_true] at this
    exact this.2
  have hvalue : n = 10 ^ 2 * Nat.ofDigitChars 10 a 0 + Nat.ofDigitChars 10 e 0 := by
    rw [← he, ← ofDigitChars_append_zero, ← hsplit]
    exact Nat.ofDigitChars_ten_toDigits.symm
  have hlt := he ▸ ofDigitChars_lt hdigits
  exact ⟨a, e, hsplit, he, hdigits, by omega⟩

/-- Digits for the remainder by a hundred are the last two of a number above nine. -/
theorem drop_write (hd : d.all Char.isDigit) (hlen : d.length = 2) {n : Int} (hn : 10 ≤ n)
    (hmod : n % 100 = Nat.ofDigitChars 10 d 0) : (write n).drop ((write n).length - 2) = d := by
  obtain ⟨n, rfl⟩ := Int.eq_ofNat_of_zero_le (Int.le_trans (by decide) hn)
  have hpos : ¬(n : Int) < 0 := by omega
  obtain ⟨a, e, hsplit, he, hdigits, hvalue⟩ := exists_digits_eq_append (n := n) (by omega)
  rw [write, if_neg hpos, Int.natAbs_natCast, hsplit, List.length_append, he, Nat.add_sub_cancel,
    List.drop_left]
  exact eq_of_ofDigitChars_eq hdigits hd (he.trans hlen.symm) (by omega)

/-! ## Reading -/

theorem toInt64?_eq_some_iff {n : Int} : toInt64? n = some v ↔ v.toInt = n := by
  unfold toInt64?
  split
  next h =>
    rw [Int64.toInt_minValue, Int64.toInt_maxValue] at h
    rw [Option.some.injEq, ← Int64.toInt_inj,
      Int64.toInt_ofInt_of_le h.1 (Int.lt_of_le_sub_one h.2), eq_comm]
  next h =>
    refine ⟨nofun, ?_⟩
    rintro rfl
    exact absurd ⟨v.minValue_le_toInt, v.toInt_le⟩ h

theorem exists_toInt_eq (h : n < 10 ^ 18) : ∃ v : Int64, v.toInt = n :=
  ⟨.ofInt n, Int64.toInt_ofInt_of_le (by omega) (by omega)⟩

theorem read?_of_digits (hne : d ≠ []) (hd : d.all Char.isDigit) :
    read? d = some (Nat.ofDigitChars 10 d 0 : Int) := by
  cases d with
  | nil => exact absurd rfl hne
  | cons c d =>
    have hnumber : readNat? (c :: d) = some (Nat.ofDigitChars 10 (c :: d) 0) := if_pos ⟨hne, hd⟩
    have hc : c.isDigit := (Bool.and_eq_true_iff.1 hd).1
    unfold read?
    split
    next heq => exact nomatch (List.cons.inj heq).1 ▸ hc
    next heq => exact nomatch (List.cons.inj heq).1 ▸ hc
    next => rw [hnumber]; rfl

theorem readInt64?_eq_some_iff (hne : d ≠ []) (hd : d.all Char.isDigit) :
    readInt64? d = some v ↔ v.toInt = Nat.ofDigitChars 10 d 0 := by
  rw [readInt64?, read?_of_digits hne hd, Option.bind_some, toInt64?_eq_some_iff]

/-- Up to eighteen digits are always in range. -/
theorem exists_readInt64?_eq (hne : d ≠ []) (hd : d.all Char.isDigit) (hlen : d.length ≤ 18) :
    ∃ v, readInt64? d = some v ∧ v.toInt = Nat.ofDigitChars 10 d 0 := by
  obtain ⟨v, hv⟩ := exists_toInt_eq <|
    Nat.lt_of_lt_of_le (ofDigitChars_lt hd) (Nat.pow_le_pow_right (by decide) hlen)
  exact ⟨v, (readInt64?_eq_some_iff hne hd).2 hv, hv⟩

end Relayout.Decimal
