import Mathlib.Data.List.Chain
import Relayout.Json.Token
import Relayout.Proofs.Json.Numbers
import Relayout.Proofs.Json.Strings

/-!
# The form of tokens in JSON texts

A token is spelled in one way, except for strings (`Token.Spells`). A text has these tokens when
their spellings stand in it one behind the other, with white space wherever it likes to be
(`Token.Spaced`). A text from which tokens are read has them (`Token.spaced_of_scanAll?`), and all
tokens of a text are read where no two numbers stand side by side (`Token.scanAll?_of_spaced`). Any
tokens can be written whose numbers are numbers (`Token.exists_spaced_iff`).
-/

namespace Relayout.Json.Token

/-- The spelling of a token that has only one, numbers apart. -/
def spelling? : Token → Option Text
  | leftBracket => some ['[']
  | rightBracket => some [']']
  | leftBrace => some ['\x7b']
  | rightBrace => some ['\x7d']
  | colon => some [':']
  | comma => some [',']
  | null => some "null".toList
  | bool true => some "true".toList
  | bool false => some "false".toList
  | number _ | string _ => none

/-- A spelling of a token. The text of a string is that of its pieces, where they have one. -/
inductive Spells : Text → Token → Prop
  | fixed {a : Text} {t : Token} (h : t.spelling? = some a) : Spells a t
  | number {d : Text} (h : IsNumber d) : Spells d (number d)
  | string {body : Text} {ps : List StringPiece} {content : Option Text} (hbody : Pieces body ps)
    (hcontent : ∀ text, content = some text ↔ Joins ps text) :
    Spells ('"' :: (body ++ ['"'])) (string content)

/-- The text has these tokens, with white space before, between and behind them. -/
inductive Spaced : Text → List Token → Prop
  | nil : Spaced [] []
  | space {c : Char} {text : Text} {ts : List Token} (hc : isSpace c) (h : Spaced text ts) :
    Spaced (c :: text) ts
  | token {a text : Text} {t : Token} {ts : List Token} (ha : Spells a t) (h : Spaced text ts) :
    Spaced (a ++ text) (t :: ts)

variable {text a b rest : Text} {t : Token} {ts : List Token} {c : Char}

/-! ## One token -/

theorem spells_of_scan? (h : scan? text = some (t, rest)) :
    ∃ a, text = a ++ rest ∧ Spells a t := by
  unfold scan? at h
  split at h
  case h_10 =>
    obtain ⟨⟨ps, rest⟩, hps, heq⟩ := Option.map_eq_some_iff.1 h
    cases heq
    obtain ⟨body, rfl, hbody⟩ := scanString?_eq_some_iff.1 hps
    refine ⟨'"' :: (body ++ ['"']), ?_, .string hbody fun _ => joinHalves_eq_some_iff⟩
    rw [List.cons_append, List.append_assoc, List.singleton_append]
  case h_11 =>
    obtain ⟨⟨d, rest⟩, hd, heq⟩ := Option.map_eq_some_iff.1 h
    cases heq
    exact ⟨d, (scanNumber?_append hd).1.symm, .number (isNumber_of_scanNumber? hd)⟩
  all_goals
    cases h
    refine ⟨_, ?_, .fixed rfl⟩
    rfl

theorem scan?_of_spelling? (h : t.spelling? = some a) : scan? (a ++ rest) = some (t, rest) := by
  unfold spelling? at h
  split at h
  case h_10 | h_11 => exact nomatch h
  all_goals
    cases h
    rfl

/-- A number begins with its sign or with a digit. -/
def startsNumber (c : Char) : Bool := c = '-' || c.isDigit

theorem exists_cons_of_isNumber (h : IsNumber a) : ∃ c tail, a = c :: tail ∧ startsNumber c := by
  obtain ⟨hsign, hwhole, -, -⟩ := h
  rcases hsign with rfl | rfl
  · cases hwhole with
    | zero => exact ⟨_, _, rfl, rfl⟩
    | digits hd _ => exact ⟨_, _, rfl, by rw [startsNumber, hd.2 _ (.head _), Bool.or_true]⟩
  · exact ⟨_, _, rfl, rfl⟩

theorem scan?_of_isNumber (ha : IsNumber a) (hrest : StartsWithout continuesNumber rest) :
    scan? (a ++ rest) = some (number a, rest) := by
  have hscan := scanNumber?_append_of_isNumber ha hrest
  obtain ⟨c, tail, rfl, hc⟩ := exists_cons_of_isNumber ha
  unfold scan?
  split
  case h_11 => rw [hscan, Option.map_some]
  all_goals
    next heq =>
    obtain rfl := (List.cons.inj heq).1
    exact absurd hc (by decide)

theorem scan?_of_pieces {body : Text} {ps : List StringPiece} {content : Option Text}
    (hbody : Pieces body ps) (hcontent : ∀ text, content = some text ↔ Joins ps text) :
    scan? ('"' :: (body ++ ['"']) ++ rest) = some (string content, rest) := by
  have hjoin : joinHalves ps = content :=
    Option.ext fun text => joinHalves_eq_some_iff.trans (hcontent text).symm
  simp only [List.cons_append, List.append_assoc, List.nil_append, scan?,
    scanString?_of_pieces hbody, Option.map_some, hjoin]

def isNumber : Token → Bool
  | number _ => true
  | _ => false

/-- A token is read off its spelling. A number must not go on behind it. -/
theorem scan?_of_spells (ha : Spells a t)
    (hrest : t.isNumber → StartsWithout continuesNumber rest) :
    scan? (a ++ rest) = some (t, rest) := by
  cases ha with
  | fixed h => exact scan?_of_spelling? h
  | number h => exact scan?_of_isNumber h (hrest rfl)
  | string hbody hcontent => exact scan?_of_pieces hbody hcontent

/-! ## All tokens -/

theorem spaced_of_scanAll? (h : scanAll? text = some ts) : Spaced text ts := by
  fun_induction scanAll? text generalizing ts with
  | case1 =>
    cases h
    exact .nil
  | case2 c rest hc ih => exact .space hc (ih h)
  | case3 => exact nomatch h
  | case4 c rest hc t behind hscan ih =>
    obtain ⟨ts, hts, rfl⟩ := Option.map_eq_some_iff.1 h
    obtain ⟨a, ha, hspells⟩ := spells_of_scan? hscan
    exact ha ▸ .token hspells (ih hts)

/-- No space begins a token, and only a number goes on like a number. -/
theorem Spells.exists_cons (ha : Spells a t) : ∃ c tail, a = c :: tail ∧ isSpace c = false ∧
    (t.isNumber = false → continuesNumber c = false) := by
  cases ha with
  | fixed h =>
    unfold spelling? at h
    split at h
    case h_10 | h_11 => exact nomatch h
    all_goals
      cases h
      exact ⟨_, _, rfl, by decide, fun _ => by decide⟩
  | number h =>
    obtain ⟨c, tail, rfl, hc⟩ := exists_cons_of_isNumber h
    refine ⟨c, tail, rfl, decide_eq_false ?_, nofun⟩
    rintro (rfl | rfl | rfl | rfl) <;> exact absurd hc (by decide)
  | string _ _ => exact ⟨_, _, rfl, by decide, fun _ => by decide⟩

theorem continuesNumber_eq_false_of_isSpace (hc : isSpace c) : continuesNumber c = false := by
  rcases of_decide_eq_true hc with rfl | rfl | rfl | rfl <;> decide

theorem Spaced.startsWithout (h : Spaced text ts) (hts : ∀ t ∈ ts.head?, t.isNumber = false) :
    StartsWithout continuesNumber text := by
  cases h with
  | nil => exact nofun
  | space hc _ => exact startsWithout_cons.2 (continuesNumber_eq_false_of_isSpace hc)
  | token ha _ =>
    obtain ⟨c, tail, rfl, -, hcontinues⟩ := ha.exists_cons
    exact startsWithout_cons.2 (hcontinues (hts _ rfl))

theorem scanAll?_of_space (hc : isSpace c) : scanAll? (c :: rest) = scanAll? rest := by
  rw [scanAll?, if_pos hc]

theorem scanAll?_of_scan? (hc : isSpace c = false) (h : scan? (c :: text) = some (t, rest)) :
    scanAll? (c :: text) = (scanAll? rest).map (t :: ·) := by
  rw [scanAll?, if_neg (Bool.eq_false_iff.1 hc)]
  split
  next heq => cases h.symm.trans heq
  next heq =>
    cases h.symm.trans heq
    rfl

/-- Two tokens that can stand side by side without white space. -/
def Apart (t u : Token) : Prop := t.isNumber = false ∨ u.isNumber = false

theorem scanAll?_of_spaced (h : Spaced text ts) (hapart : ts.IsChain Apart) :
    scanAll? text = some ts := by
  induction h with
  | nil => rw [scanAll?]
  | space hc _ ih => rw [scanAll?_of_space hc, ih hapart]
  | @token a text t ts ha hrest ih =>
    obtain ⟨hnext, hapart⟩ := List.isChain_cons.1 hapart
    have hscan : scan? (a ++ text) = some (t, text) := by
      refine scan?_of_spells ha fun ht => hrest.startsWithout fun u hu => ?_
      exact (hnext u hu).resolve_left (Bool.not_eq_false _ ▸ ht)
    obtain ⟨c, tail, rfl, hc, -⟩ := ha.exists_cons
    rw [List.cons_append] at hscan ⊢
    rw [scanAll?_of_scan? hc hscan, ih hapart, Option.map_some]

/-- Characters behind backslashes, a pair of halves, and half of a pair alone. -/
example : scanAll? "[-0.5e+3 ,\"\\u0041\\ud83d\\ude00\\n\\\"\",\n\"\\ud83d\"]".toList =
    some [.leftBracket, .number "-0.5e+3".toList, .comma, .string (some "A😀\n\"".toList), .comma,
      .string none, .rightBracket] := by
  cbv

/-! ## Texts for tokens -/

theorem exists_spells (h : ∀ d, t = .number d → IsNumber d) : ∃ a, Spells a t := by
  cases t with
  | number d => exact ⟨d, .number (h d rfl)⟩
  | string content =>
    cases content with
    | none =>
      -- half of a pair alone
      have hu : IsUnit "d800".toList 0xd800 :=
        .digits (w := 13) (x := 8) (y := 0) (z := 0) (.inl rfl) (.inl rfl) (.inl rfl) (.inl rfl)
      exact ⟨_, .string (.half hu (by decide) .nil) fun _ => ⟨nofun, nofun⟩⟩
    | some content =>
      obtain ⟨body, hbody⟩ := exists_pieces content
      refine ⟨_, .string hbody fun text => ?_⟩
      rw [← joinHalves_eq_some_iff, joinHalves_of_joins (joins_map_char content)]
  | bool b => cases b <;> exact ⟨_, .fixed rfl⟩
  | _ => exact ⟨_, .fixed rfl⟩

theorem isNumber_of_spaced {d : Text} (h : Spaced text ts) (hd : .number d ∈ ts) : IsNumber d := by
  induction h with
  | nil => exact nomatch hd
  | space _ _ ih => exact ih hd
  | token ha _ ih =>
    cases hd with
    | tail _ hd => exact ih hd
    | head =>
      cases ha with
      | fixed h => exact nomatch h
      | number h => exact h

/-- Tokens can be written where the numbers among them are numbers. -/
theorem exists_spaced_iff : (∃ text, Spaced text ts) ↔ ∀ d, .number d ∈ ts → IsNumber d := by
  refine ⟨fun ⟨_, h⟩ d => isNumber_of_spaced h, fun h => ?_⟩
  induction ts with
  | nil => exact ⟨[], .nil⟩
  | cons t ts ih =>
    obtain ⟨a, ha⟩ := exists_spells fun d hd => h d (hd ▸ .head _)
    obtain ⟨text, htext⟩ := ih fun d hd => h d (.tail _ hd)
    exact ⟨a ++ text, .token ha htext⟩

end Relayout.Json.Token
