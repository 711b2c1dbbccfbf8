import Relayout.Json.StringLiteral
import Relayout.Proofs.Decimal

/-!
# The form of strings in JSON texts

Between its quotes a string has characters as they are, characters behind a backslash, and units of
four hexadecimal digits, each a character or half of a pair (`Pieces`). Its text is made of the
characters and of the pairs (`Joins`); where a half is alone there is none. Just such strings are
read, up to their closing quotes (`scanString?_eq_some_iff`), and with just this text
(`joinHalves_eq_some_iff`).
-/

namespace Relayout.Json

/-! ## The parts of a string -/

/-- The characters that a letter behind a backslash stands for. -/
def escapeLetters : List (Char × Char) := [
  ('"', '"'), ('\\', '\\'), ('/', '/'), ('b', '\x08'), ('f', '\x0c'), ('n', '\n'), ('r', '\r'),
  ('t', '\t')]

/-- A hexadecimal digit, small or capital, with its value. -/
def IsHexDigit (c : Char) (n : Nat) : Prop :=
  "0123456789abcdef".toList[n]? = some c ∨ "0123456789ABCDEF".toList[n]? = some c

/-- Four hexadecimal digits with the number that they stand for. -/
inductive IsUnit : Text → Nat → Prop
  | digits {a b c d : Char} {w x y z : Nat} (ha : IsHexDigit a w) (hb : IsHexDigit b x)
    (hc : IsHexDigit c y) (hd : IsHexDigit d z) :
    IsUnit [a, b, c, d] (4096 * w + 256 * x + 16 * y + z)

/-- What stands between the quotes of a string, with the pieces that it stands for. -/
inductive Pieces : Text → List StringPiece → Prop
  | nil : Pieces [] []
  | plain {c : Char} {body : Text} {ps : List StringPiece} (hquote : c ≠ '"') (hslash : c ≠ '\\')
    (hcontrol : 0x20 ≤ c.toNat) (h : Pieces body ps) : Pieces (c :: body) (.char c :: ps)
  | letter {l c : Char} {body : Text} {ps : List StringPiece} (hl : (l, c) ∈ escapeLetters)
    (h : Pieces body ps) : Pieces ('\\' :: l :: body) (.char c :: ps)
  | unit {c : Char} {u body : Text} {ps : List StringPiece} (hu : IsUnit u c.toNat)
    (h : Pieces body ps) : Pieces ('\\' :: 'u' :: (u ++ body)) (.char c :: ps)
  | half {n : Nat} {u body : Text} {ps : List StringPiece} (hu : IsUnit u n)
    (hn : 0xd800 ≤ n ∧ n < 0xe000) (h : Pieces body ps) :
    Pieces ('\\' :: 'u' :: (u ++ body)) (.half n :: ps)

/-- The text of the pieces. A high half and a low half behind it are one character beyond the first
65536; no other halves are allowed. -/
inductive Joins : List StringPiece → Text → Prop
  | nil : Joins [] []
  | char {c : Char} {ps : List StringPiece} {text : Text} (h : Joins ps text) :
    Joins (.char c :: ps) (c :: text)
  | pair {high low : Nat} {c : Char} {ps : List StringPiece} {text : Text}
    (hhigh : 0xd800 ≤ high ∧ high < 0xdc00) (hlow : 0xdc00 ≤ low ∧ low < 0xe000)
    (hc : c.toNat = 0x10000 + (high - 0xd800) * 0x400 + (low - 0xdc00)) (h : Joins ps text) :
    Joins (.half high :: .half low :: ps) (c :: text)

variable {body text rest u : Text} {ps : List StringPiece} {c l : Char} {n : Nat}

/-! ## Hexadecimal numbers -/

theorem isHexDigit_of_hexDigit? (h : hexDigit? c = some n) : IsHexDigit c n := by
  have hdigit : ∀ n < 10, "0123456789abcdef".toList[n]? = some (Char.ofNat (48 + n)) := by decide
  have hsmall : ∀ n < 6, "0123456789abcdef".toList[n + 10]? = some (Char.ofNat (97 + n)) := by
    decide
  have hcapital : ∀ n < 6, "0123456789ABCDEF".toList[n + 10]? = some (Char.ofNat (65 + n)) := by
    decide
  have hchar : ∀ {k n}, c.toNat - k = n → k ≤ c.toNat → Char.ofNat (k + n) = c := by
    rintro k n rfl hk
    rw [Nat.add_sub_cancel' hk, Char.ofNat_toNat]
  unfold hexDigit? at h
  split at h
  next hc =>
    have hrange : 48 ≤ c.toNat ∧ c.toNat ≤ 57 := Decimal.isDigit_iff.1 hc
    obtain rfl : c.toNat - 48 = n := Option.some.inj h
    exact .inl ((hdigit _ (by omega)).trans (congrArg some (hchar rfl hrange.1)))
  split at h
  next hc =>
    have hrange : 97 ≤ c.toNat ∧ c.toNat ≤ 102 := hc
    obtain rfl : c.toNat - 97 + 10 = n := Option.some.inj h
    exact .inl ((hsmall _ (by omega)).trans (congrArg some (hchar rfl hrange.1)))
  split at h
  next hc =>
    have hrange : 65 ≤ c.toNat ∧ c.toNat ≤ 70 := hc
    obtain rfl : c.toNat - 65 + 10 = n := Option.some.inj h
    exact .inr ((hcapital _ (by omega)).trans (congrArg some (hchar rfl hrange.1)))
  next => exact nomatch h

theorem hexDigit?_of_isHexDigit (h : IsHexDigit c n) : hexDigit? c = some n ∧ n < 16 := by
  have hsmall : ∀ n < 16, ("0123456789abcdef".toList[n]?).bind hexDigit? = some n := by decide
  have hcapital : ∀ n < 16, ("0123456789ABCDEF".toList[n]?).bind hexDigit? = some n := by decide
  rcases h with h | h
  · obtain ⟨hn, -⟩ := List.getElem?_eq_some_iff.1 h
    have hvalue := hsmall n hn
    rw [h] at hvalue
    exact ⟨hvalue, hn⟩
  · obtain ⟨hn, -⟩ := List.getElem?_eq_some_iff.1 h
    have hvalue := hcapital n hn
    rw [h] at hvalue
    exact ⟨hvalue, hn⟩

theorem hexDigit?_eq_some_iff : hexDigit? c = some n ↔ IsHexDigit c n :=
  ⟨isHexDigit_of_hexDigit?, fun h => (hexDigit?_of_isHexDigit h).1⟩

theorem isUnit_of_hexNumber? {a b c d : Char} (h : hexNumber? [a, b, c, d] = some n) :
    IsUnit [a, b, c, d] n := by
  simp only [hexNumber?, List.foldlM_cons, List.foldlM_nil, Option.bind_eq_bind,
    Option.bind_eq_some_iff, Option.map_eq_some_iff, hexDigit?_eq_some_iff, Option.pure_def,
    Option.some.injEq] at h
  obtain ⟨_, ⟨w, ha, rfl⟩, _, ⟨x, hb, rfl⟩, _, ⟨y, hc, rfl⟩, _, ⟨z, hd, rfl⟩, rfl⟩ := h
  have hvalue : 16 * (16 * (16 * (16 * 0 + w) + x) + y) + z = 4096 * w + 256 * x + 16 * y + z := by
    omega
  exact hvalue ▸ .digits ha hb hc hd

theorem IsUnit.lt (h : IsUnit u n) : n < 0x10000 := by
  obtain ⟨ha, hb, hc, hd⟩ := h
  have hw := (hexDigit?_of_isHexDigit ha).2
  have hx := (hexDigit?_of_isHexDigit hb).2
  have hy := (hexDigit?_of_isHexDigit hc).2
  have hz := (hexDigit?_of_isHexDigit hd).2
  omega

theorem IsUnit.exists_digits (h : IsUnit u n) :
    ∃ a b c d, u = [a, b, c, d] ∧ hexNumber? [a, b, c, d] = some n := by
  obtain ⟨ha, hb, hc, hd⟩ := h
  refine ⟨_, _, _, _, rfl, ?_⟩
  simp only [hexNumber?, List.foldlM_cons, List.foldlM_nil, Option.bind_eq_bind,
    hexDigit?_eq_some_iff.2 ha, hexDigit?_eq_some_iff.2 hb, hexDigit?_eq_some_iff.2 hc,
    hexDigit?_eq_some_iff.2 hd, Option.map_some, Option.bind_some, Option.pure_def,
    Option.some.injEq]
  omega

/-! ## Pieces -/

theorem shortEscape?_eq_some_iff : shortEscape? l = some c ↔ (l, c) ∈ escapeLetters := by
  constructor
  · intro h
    unfold shortEscape? at h
    split at h
    case h_9 => exact nomatch h
    all_goals
      obtain rfl := Option.some.inj h
      decide
  · have hall : ∀ e ∈ escapeLetters, shortEscape? e.1 = some e.2 := by decide
    exact hall (l, c)

theorem isHalf_iff : (isHighHalf n || isLowHalf n) = true ↔ 0xd800 ≤ n ∧ n < 0xe000 := by
  simp only [isHighHalf, isLowHalf, Bool.or_eq_true, decide_eq_true_eq]
  omega

theorem not_isHalf_toNat (c : Char) : ¬(0xd800 ≤ c.toNat ∧ c.toNat < 0xe000) := by
  have hvalid : c.toNat < 0xd800 ∨ 0xdfff < c.toNat ∧ c.toNat < 0x110000 := c.valid
  omega

theorem StringPiece.ofUnit_of_half (hn : 0xd800 ≤ n ∧ n < 0xe000) : ofUnit n = half n := by
  rw [ofUnit, if_pos (isHalf_iff.2 hn)]

theorem StringPiece.ofUnit_toNat (c : Char) : ofUnit c.toNat = char c := by
  rw [ofUnit, if_neg (mt isHalf_iff.1 (not_isHalf_toNat c)), Char.ofNat_toNat]

/-- A number below the greatest code point that is no half is the number of a character. -/
theorem toNat_ofNat (hn : n < 0x110000) (hhalf : ¬(0xd800 ≤ n ∧ n < 0xe000)) :
    (Char.ofNat n).toNat = n := by
  have hvalid : n.isValidChar := by
    unfold Nat.isValidChar
    omega
  rw [Char.ofNat, dif_pos hvalid]
  exact UInt32.toNat_ofNatLT ..

theorem pieces_of_scanString? (h : scanString? text = some (ps, rest)) :
    ∃ body, text = body ++ '"' :: rest ∧ Pieces body ps := by
  fun_induction scanString? text generalizing ps with
  | case1 => cases h
  | case2 rest =>
    cases h
    exact ⟨[], rfl, .nil⟩
  | case3 a b c d tail ih =>
    simp only [Option.bind_eq_bind, Option.bind_eq_some_iff, Option.pure_def, Option.some.injEq,
      Prod.mk.injEq, Prod.exists] at h
    obtain ⟨n, hn, ps, _, hps, rfl, rfl⟩ := h
    obtain ⟨body, rfl, hbody⟩ := ih hps
    have hu := isUnit_of_hexNumber? hn
    refine ⟨'\\' :: 'u' :: ([a, b, c, d] ++ body), rfl, ?_⟩
    by_cases hhalf : 0xd800 ≤ n ∧ n < 0xe000
    · rw [StringPiece.ofUnit_of_half hhalf]
      exact .half hu hhalf hbody
    · have hc := toNat_ofNat (Nat.lt_trans hu.lt (by decide)) hhalf
      rw [← hc, StringPiece.ofUnit_toNat]
      exact .unit (hc.symm ▸ hu) hbody
  | case4 l tail _ ih =>
    simp only [Option.bind_eq_bind, Option.bind_eq_some_iff, Option.pure_def, Option.some.injEq,
      Prod.mk.injEq, Prod.exists] at h
    obtain ⟨c, hc, ps, _, hps, rfl, rfl⟩ := h
    obtain ⟨body, rfl, hbody⟩ := ih hps
    exact ⟨'\\' :: l :: body, rfl, .letter (shortEscape?_eq_some_iff.1 hc) hbody⟩
  | case5 => cases h
  | case6 c tail hquote _ _ hc ih =>
    simp only [Option.bind_eq_bind, Option.bind_eq_some_iff, Option.pure_def, Option.some.injEq,
      Prod.mk.injEq, Prod.exists] at h
    obtain ⟨ps, _, hps, rfl, rfl⟩ := h
    obtain ⟨body, rfl, hbody⟩ := ih hps
    rw [not_or, Nat.not_lt] at hc
    exact ⟨c :: body, rfl, .plain hquote hc.1 hc.2 hbody⟩

theorem scanString?_of_pieces (h : Pieces body ps) :
    scanString? (body ++ '"' :: rest) = some (ps, rest) := by
  induction h with
  | nil => rfl
  | @plain c body ps hquote hslash hcontrol _ ih =>
    have hnot : ¬(c = '\\' ∨ c.toNat < 0x20) := not_or.2 ⟨hslash, Nat.not_lt.2 hcontrol⟩
    rw [List.cons_append, scanString?, if_neg hnot, ih]
    · rfl
    · exact hquote
    · rintro a b c' d tail rfl
      exact absurd rfl hslash
    · rintro l tail rfl
      exact absurd rfl hslash
  | @letter l c body ps hl _ ih =>
    have hu : l ≠ 'u' := by
      rintro rfl
      have hnone : ∀ e ∈ escapeLetters, e.1 ≠ 'u' := by decide
      exact hnone _ hl rfl
    rw [List.cons_append, List.cons_append, scanString?, shortEscape?_eq_some_iff.2 hl, ih]
    · rfl
    · rintro a b c' d tail rfl
      exact absurd rfl hu
  | @unit c u body ps hu _ ih =>
    obtain ⟨a, b, c', d, rfl, hnumber⟩ := hu.exists_digits
    simp only [List.cons_append, List.nil_append, scanString?, hnumber, ih, Option.bind_eq_bind,
      Option.bind_some, Option.pure_def, StringPiece.ofUnit_toNat]
  | @half n u body ps hu hn _ ih =>
    obtain ⟨a, b, c', d, rfl, hnumber⟩ := hu.exists_digits
    simp only [List.cons_append, List.nil_append, scanString?, hnumber, ih, Option.bind_eq_bind,
      Option.bind_some, Option.pure_def, StringPiece.ofUnit_of_half hn]

/-- A string is read up to its closing quote. -/
theorem scanString?_eq_some_iff :
    scanString? text = some (ps, rest) ↔ ∃ body, text = body ++ '"' :: rest ∧ Pieces body ps := by
  refine ⟨pieces_of_scanString?, ?_⟩
  rintro ⟨body, rfl, h⟩
  exact scanString?_of_pieces h

/-! ## Texts -/

theorem joins_of_joinHalves (h : joinHalves ps = some text) : Joins ps text := by
  fun_induction joinHalves ps generalizing text with
  | case1 =>
    cases h
    exact .nil
  | case2 c ps ih =>
    obtain ⟨tail, htail, rfl⟩ := Option.map_eq_some_iff.1 h
    exact .char (ih htail)
  | case3 high low ps hpair ih =>
    obtain ⟨tail, htail, rfl⟩ := Option.map_eq_some_iff.1 h
    obtain ⟨hhigh, hlow⟩ := Bool.and_eq_true_iff.1 hpair
    have hhigh := of_decide_eq_true hhigh
    have hlow := of_decide_eq_true hlow
    exact .pair hhigh hlow (toNat_ofNat (by omega) (by omega)) (ih htail)
  | case4 => exact nomatch h
  | case5 => exact nomatch h

theorem joinHalves_of_joins (h : Joins ps text) : joinHalves ps = some text := by
  induction h with
  | nil => rfl
  | char _ ih => rw [joinHalves, ih, Option.map_some]
  | @pair high low c ps text hhigh hlow hc _ ih =>
    have hpair : (isHighHalf high && isLowHalf low) = true :=
      Bool.and_eq_true_iff.2 ⟨decide_eq_true hhigh, decide_eq_true hlow⟩
    rw [joinHalves, if_pos hpair, ih, Option.map_some, ← hc, Char.ofNat_toNat]

theorem joinHalves_eq_some_iff : joinHalves ps = some text ↔ Joins ps text :=
  ⟨joins_of_joinHalves, joinHalves_of_joins⟩

/-! ## Any text can be written -/

theorem joins_map_char (text : Text) : Joins (text.map .char) text := by
  induction text with
  | nil => exact .nil
  | cons c text ih => exact .char ih

theorem exists_isHexDigit (hn : n < 16) : ∃ c, IsHexDigit c n :=
  ⟨_, .inl (List.getElem?_eq_getElem (l := "0123456789abcdef".toList) hn)⟩

theorem exists_isUnit (hn : n < 0x10000) : ∃ u, IsUnit u n := by
  obtain ⟨a, ha⟩ := exists_isHexDigit (n := n / 4096) (by omega)
  obtain ⟨b, hb⟩ := exists_isHexDigit (n := n / 256 % 16) (by omega)
  obtain ⟨c, hc⟩ := exists_isHexDigit (n := n / 16 % 16) (by omega)
  obtain ⟨d, hd⟩ := exists_isHexDigit (n := n % 16) (by omega)
  have hvalue : 4096 * (n / 4096) + 256 * (n / 256 % 16) + 16 * (n / 16 % 16) + n % 16 = n := by
    omega
  exact ⟨[a, b, c, d], hvalue ▸ .digits ha hb hc hd⟩

theorem exists_pieces (text : Text) : ∃ body, Pieces body (text.map .char) := by
  induction text with
  | nil => exact ⟨[], .nil⟩
  | cons c text ih =>
    obtain ⟨body, hbody⟩ := ih
    by_cases hquote : c = '"'
    · exact ⟨_, .letter (l := c) (by subst hquote; decide) hbody⟩
    by_cases hslash : c = '\\'
    · exact ⟨_, .letter (l := c) (by subst hslash; decide) hbody⟩
    by_cases hcontrol : 0x20 ≤ c.toNat
    · exact ⟨_, .plain hquote hslash hcontrol hbody⟩
    · obtain ⟨u, hu⟩ := exists_isUnit (n := c.toNat) (by omega)
      exact ⟨_, .unit hu hbody⟩

end Relayout.Json
