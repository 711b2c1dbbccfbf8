import Relayout.Json.Number

/-!
# The form of numbers in JSON texts

A number is digits without a leading zero, behind a minus sign perhaps, then perhaps a fraction and
perhaps an exponent (`IsNumber`). Just such a text is taken from the front of another one, where no
further character of a number follows (`scanNumber?_append_of_isNumber`).
-/

namespace Relayout.Json

/-! ## The parts of a number -/

/-- One or more ASCII digits. -/
def IsDigits (d : Text) : Prop := d ≠ [] ∧ ∀ c ∈ d, c.isDigit

/-- A single zero, or digits of which the first is not zero. -/
inductive IsWhole : Text → Prop
  | zero : IsWhole ['0']
  | digits {c : Char} {d : Text} (hd : IsDigits (c :: d)) (hc : c ≠ '0') : IsWhole (c :: d)

/-- A point and digits, or nothing. -/
inductive IsFraction : Text → Prop
  | absent : IsFraction []
  | point {d : Text} (hd : IsDigits d) : IsFraction ('.' :: d)

/-- A mark, perhaps a sign, and digits, or nothing. -/
inductive IsExponent : Text → Prop
  | absent : IsExponent []
  | mark {c : Char} {sign d : Text} (hc : c = 'e' ∨ c = 'E')
    (hsign : sign = [] ∨ sign = ['+'] ∨ sign = ['-']) (hd : IsDigits d) :
    IsExponent (c :: (sign ++ d))

inductive IsNumber : Text → Prop
  | parts {sign whole fraction exponent : Text} (hsign : sign = [] ∨ sign = ['-'])
    (hwhole : IsWhole whole) (hfraction : IsFraction fraction) (hexponent : IsExponent exponent) :
    IsNumber (sign ++ whole ++ fraction ++ exponent)

variable {text a b : Text} {wanted : Char → Bool}

/-! ## What is taken -/

theorem isDigits_of_scanDigits? (h : scanDigits? text = some (a, b)) : IsDigits a := by
  cases text with
  | nil => cases h
  | cons c rest =>
    simp only [scanDigits?] at h
    split at h
    next hc =>
      cases h
      refine ⟨List.cons_ne_nil _ _, List.forall_mem_cons.2 ⟨hc, fun c' hc' => ?_⟩⟩
      exact List.all_eq_true.1 List.all_takeWhile c' hc'
    next => cases h

theorem isWhole_of_scanWhole? (h : scanWhole? text = some (a, b)) : IsWhole a := by
  unfold scanWhole? at h
  split at h
  next =>
    cases h
    exact .zero
  next hzero =>
    have hdigits := isDigits_of_scanDigits? h
    obtain ⟨rfl, -⟩ := scanDigits?_append h
    cases a with
    | nil => exact absurd rfl hdigits.1
    | cons c a => exact .digits hdigits fun hc => hzero (a ++ b) (hc ▸ rfl)

theorem isFraction_of_scanFraction? (h : scanFraction? text = some (a, b)) : IsFraction a := by
  unfold scanFraction? at h
  split at h
  next =>
    obtain ⟨⟨ds, rest⟩, hds, heq⟩ := Option.map_eq_some_iff.1 h
    cases heq
    exact .point (isDigits_of_scanDigits? hds)
  next =>
    cases h
    exact .absent

/-- What is taken is one wanted character or nothing. -/
theorem scanOne_fst_eq (wanted : Char → Bool) (text : Text) :
    (scanOne wanted text).1 = [] ∨ ∃ c, wanted c ∧ (scanOne wanted text).1 = [c] := by
  cases text with
  | nil => exact .inl rfl
  | cons c rest =>
    simp only [scanOne]
    split
    next hc => exact .inr ⟨c, hc, rfl⟩
    next => exact .inl rfl

theorem isExponent_of_scanExponent? (h : scanExponent? text = some (a, b)) : IsExponent a := by
  simp only [scanExponent?] at h
  split at h
  next =>
    cases h
    exact .absent
  next hne =>
    obtain ⟨⟨ds, rest⟩, hds, heq⟩ := Option.map_eq_some_iff.1 h
    cases heq
    obtain ⟨c, hc, hmark⟩ := (scanOne_fst_eq isExponentMark text).resolve_left hne
    have hsign : ∀ sign, sign = [] ∨ (∃ c, isSign c ∧ sign = [c]) →
        sign = [] ∨ sign = ['+'] ∨ sign = ['-'] := by
      rintro sign (rfl | ⟨c, hc, rfl⟩)
      · exact .inl rfl
      · rcases of_decide_eq_true hc with rfl | rfl
        · exact .inr (.inl rfl)
        · exact .inr (.inr rfl)
    rw [hmark, List.append_assoc, List.singleton_append]
    exact .mark (of_decide_eq_true hc) (hsign _ (scanOne_fst_eq isSign _))
      (isDigits_of_scanDigits? hds)

theorem isNumber_of_scanNumber? (h : scanNumber? text = some (a, b)) : IsNumber a := by
  simp only [scanNumber?, Option.bind_eq_bind, Option.bind_eq_some_iff, Option.pure_def,
    Option.some.injEq, Prod.mk.injEq, Prod.exists] at h
  obtain ⟨whole, _, hwhole, fraction, _, hfraction, exponent, _, hexponent, rfl, rfl⟩ := h
  refine .parts ?_ (isWhole_of_scanWhole? hwhole) (isFraction_of_scanFraction? hfraction)
    (isExponent_of_scanExponent? hexponent)
  refine (scanOne_fst_eq _ text).imp_right ?_
  rintro ⟨c, hc, hsign⟩
  rw [hsign, of_decide_eq_true hc]

/-! ## What stands behind a number -/

/-- The first character, if there is one, is not wanted. -/
def StartsWithout (wanted : Char → Bool) (text : Text) : Prop := ∀ c ∈ text.head?, wanted c = false

theorem startsWithout_cons {c : Char} : StartsWithout wanted (c :: text) ↔ wanted c = false := by
  simp only [StartsWithout, List.head?_cons, Option.mem_some_iff, forall_eq']

/-- A whole number could go on with the character, or a fraction could begin. -/
def continuesFraction (c : Char) : Bool := c.isDigit || c = '.'

/-- A number could go on with the character. -/
def continuesNumber (c : Char) : Bool := continuesFraction c || isExponentMark c

theorem StartsWithout.mono {other : Char → Bool} (h : StartsWithout wanted text)
    (hother : ∀ c, wanted c = false → other c = false) : StartsWithout other text :=
  fun c hc => hother c (h c hc)

theorem StartsWithout.scanOne_eq (h : StartsWithout wanted text) :
    scanOne wanted text = ([], text) := by
  cases text with
  | nil => rfl
  | cons c rest => rw [scanOne, startsWithout_cons.1 h, if_neg Bool.false_ne_true]

theorem scanOne_cons {c : Char} (hc : wanted c) : scanOne wanted (c :: text) = ([c], text) := by
  rw [scanOne, if_pos hc]

theorem isSign_eq_false_of_isDigit {c : Char} (hc : c.isDigit) : isSign c = false := by
  refine decide_eq_false ?_
  rintro (rfl | rfl) <;> exact absurd hc (by decide)

theorem IsDigits.startsWithout_isSign (ha : IsDigits a) : StartsWithout isSign (a ++ b) := by
  cases a with
  | nil => exact absurd rfl ha.1
  | cons c a => exact startsWithout_cons.2 (isSign_eq_false_of_isDigit (ha.2 c (.head _)))

theorem scanDigits?_append_of_isDigits (ha : IsDigits a) (hb : StartsWithout Char.isDigit b) :
    scanDigits? (a ++ b) = some (a, b) := by
  cases a with
  | nil => exact absurd rfl ha.1
  | cons c a =>
    obtain ⟨hc, ha⟩ := List.forall_mem_cons.1 ha.2
    have htake : b.takeWhile Char.isDigit = [] ∧ b.dropWhile Char.isDigit = b := by
      cases b with
      | nil => exact ⟨rfl, rfl⟩
      | cons c b => simp only [List.takeWhile_cons, List.dropWhile_cons, startsWithout_cons.1 hb,
          Bool.false_eq_true, if_false, and_self]
    rw [List.cons_append, scanDigits?, if_pos hc, List.takeWhile_append_of_pos ha,
      List.dropWhile_append_of_pos ha, htake.1, htake.2, List.append_nil]

theorem scanWhole?_append_of_isWhole (ha : IsWhole a) (hb : StartsWithout Char.isDigit b) :
    scanWhole? (a ++ b) = some (a, b) := by
  cases ha with
  | zero => rfl
  | @digits c d hd hc =>
    have hscan : scanWhole? (c :: (d ++ b)) = scanDigits? (c :: (d ++ b)) := by
      unfold scanWhole?
      split
      next heq => exact absurd (List.cons.inj heq).1 hc
      next => rfl
    exact hscan.trans (scanDigits?_append_of_isDigits hd hb)

theorem scanFraction?_append_of_isFraction (ha : IsFraction a)
    (hb : StartsWithout continuesFraction b) : scanFraction? (a ++ b) = some (a, b) := by
  cases ha with
  | absent =>
    rw [List.nil_append]
    unfold scanFraction?
    split
    next => exact absurd (startsWithout_cons.1 hb) (by decide)
    next => rfl
  | point hd =>
    have hscan := scanDigits?_append_of_isDigits hd
      (hb.mono fun c hc => (Bool.or_eq_false_iff.1 hc).1)
    rw [List.cons_append, scanFraction?, hscan]
    rfl

theorem scanExponent?_append_of_isExponent (ha : IsExponent a)
    (hb : StartsWithout continuesNumber b) : scanExponent? (a ++ b) = some (a, b) := by
  have hdigit : ∀ c, continuesNumber c = false → c.isDigit = false := fun c hc =>
    (Bool.or_eq_false_iff.1 (Bool.or_eq_false_iff.1 hc).1).1
  cases ha with
  | absent =>
    have hmark := (hb.mono fun c hc => (Bool.or_eq_false_iff.1 hc).2).scanOne_eq
    rw [List.nil_append, scanExponent?, hmark, if_pos rfl]
  | @mark c sign d hc hsign hd =>
    have hmark : scanOne isExponentMark (c :: (sign ++ (d ++ b))) = ([c], sign ++ (d ++ b)) :=
      scanOne_cons (decide_eq_true hc)
    have hscan : scanOne isSign (sign ++ (d ++ b)) = (sign, d ++ b) := by
      rcases hsign with rfl | rfl | rfl
      · exact hd.startsWithout_isSign.scanOne_eq
      · exact scanOne_cons rfl
      · exact scanOne_cons rfl
    simp only [List.cons_append, List.append_assoc, scanExponent?, hmark, hscan, List.cons_ne_nil,
      if_false, scanDigits?_append_of_isDigits hd (hb.mono hdigit), Option.map_some,
      List.nil_append]

/-! ## Whole numbers -/

theorem IsWhole.startsWithout (ha : IsWhole a) : StartsWithout (· = '-') (a ++ b) := by
  have hsign : StartsWithout isSign (a ++ b) := by
    cases ha with
    | zero => exact startsWithout_cons.2 rfl
    | digits hd _ => exact hd.startsWithout_isSign
  exact hsign.mono fun c hc => decide_eq_false fun h => of_decide_eq_false hc (.inr h)

theorem IsExponent.startsWithout (ha : IsExponent a) (hb : StartsWithout continuesNumber b) :
    StartsWithout continuesFraction (a ++ b) := by
  cases ha with
  | absent => exact hb.mono fun c hc => (Bool.or_eq_false_iff.1 hc).1
  | mark hc _ _ =>
    refine startsWithout_cons.2 ?_
    rcases hc with rfl | rfl <;> rfl

theorem IsFraction.startsWithout (ha : IsFraction a) (hb : StartsWithout continuesFraction b) :
    StartsWithout Char.isDigit (a ++ b) := by
  cases ha with
  | absent => exact hb.mono fun c hc => (Bool.or_eq_false_iff.1 hc).1
  | point _ => exact startsWithout_cons.2 rfl

/-- A number is taken as far as it reaches. -/
theorem scanNumber?_append_of_isNumber (ha : IsNumber a) (hb : StartsWithout continuesNumber b) :
    scanNumber? (a ++ b) = some (a, b) := by
  obtain ⟨hsign, hwhole, hfraction, hexponent⟩ := ha
  next sign whole fraction exponent =>
  have hafter := hexponent.startsWithout hb
  have hscan : scanOne (· = '-') (sign ++ (whole ++ (fraction ++ (exponent ++ b)))) =
      (sign, whole ++ (fraction ++ (exponent ++ b))) := by
    rcases hsign with rfl | rfl
    · exact hwhole.startsWithout.scanOne_eq
    · exact scanOne_cons rfl
  simp only [List.append_assoc, scanNumber?, hscan, Option.bind_eq_bind, Option.bind_some,
    scanWhole?_append_of_isWhole hwhole (hfraction.startsWithout hafter),
    scanFraction?_append_of_isFraction hfraction hafter,
    scanExponent?_append_of_isExponent hexponent hb, Option.pure_def]

end Relayout.Json
