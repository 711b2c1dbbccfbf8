import Relayout.Layout.Segment

/-!
# The bracketed spans of a layout

`Stretched` describes the stretches of a layout without a scan: a span begins at the leftmost `[`,
ends at the first `]` behind it, and the next one is looked for behind that; a `[` that no `]`
follows is ordinary text. It holds of one list only, the one that `stretches` finds
(`stretched_iff`).
-/

namespace Relayout.Layout

namespace Stretch

/-- The text of a stretch, brackets left out. -/
def text : Stretch → Text
  | plain t | bracketed t => t

/-- The stretch as it stands in the layout. -/
def written : Stretch → Text
  | plain t => t
  | bracketed t => '[' :: t ++ [']']

/-- The inside of a bracketed span. -/
def inside? : Stretch → Option Text
  | plain _ => none
  | bracketed t => some t

end Stretch

/-- The segment of a bracketed span, which is none for an empty one. -/
def enclosed : Text → List Segment
  | [] => []
  | text => [.escaped text]

/-- The segments of one stretch, ordinary text read by `lex`. -/
def Stretch.read (lex : Text → List Segment) : Stretch → List Segment
  | plain t => lex t
  | bracketed t => enclosed t

/-- The layout is made of these stretches. -/
inductive Stretched : Text → List Stretch → Prop
  | last : (∀ a b, layout = a ++ '[' :: b → ']' ∉ b) → Stretched layout [.plain layout]
  | span : '[' ∉ a → ']' ∉ e → Stretched b parts →
    Stretched (a ++ '[' :: e ++ ']' :: b) (.plain a :: .bracketed e :: parts)

variable {c : Char} {layout a b e : Text} {parts : List Stretch} {lex : Text → List Segment}

/-! ## Cuts at a character -/

theorem cutAt_append (h : c ∉ a) : cutAt c (a ++ c :: b) = some (a, b) := by
  induction a with
  | nil => simp [cutAt]
  | cons d rest ih =>
    rw [List.mem_cons, not_or] at h
    rw [List.cons_append, cutAt, if_neg (Ne.symm h.1), ih h.2, Option.map_some]

theorem notMem_of_cutAt {text : Text} (h : cutAt c text = some (a, b)) : c ∉ a := by
  induction text generalizing a with
  | nil => exact nomatch h
  | cons d rest ih =>
    rw [cutAt] at h
    split at h
    next => cases h; exact List.not_mem_nil
    next hd =>
      obtain ⟨⟨a', b'⟩, hcut, heq⟩ := Option.map_eq_some_iff.1 h
      cases heq
      rw [List.mem_cons, not_or]
      exact ⟨Ne.symm hd, ih hcut⟩

theorem cutAt_eq_some_iff {text : Text} :
    cutAt c text = some (a, b) ↔ text = a ++ c :: b ∧ c ∉ a := by
  constructor
  · exact fun h => ⟨eq_of_cutAt h, notMem_of_cutAt h⟩
  · rintro ⟨rfl, h⟩
    exact cutAt_append h

/-- What stands behind some `c` stands behind the first one. -/
theorem exists_cutAt_append : ∃ a' b', cutAt c (a ++ c :: b) = some (a', b') ∧ b <:+ b' := by
  induction a with
  | nil => exact ⟨[], b, cutAt_append List.not_mem_nil, List.suffix_rfl⟩
  | cons d rest ih =>
    rw [List.cons_append, cutAt]
    split
    next => exact ⟨[], _, rfl, (List.suffix_cons c b).trans (List.suffix_append ..)⟩
    next =>
      obtain ⟨a', b', hcut, hb⟩ := ih
      exact ⟨d :: a', b', by rw [hcut, Option.map_some], hb⟩

/-! ## The first span -/

theorem firstSpan?_eq_some_iff : firstSpan? layout = some (a, e, b) ↔
    layout = a ++ '[' :: e ++ ']' :: b ∧ '[' ∉ a ∧ ']' ∉ e := by
  simp only [firstSpan?, Option.bind_eq_bind, Option.bind_eq_some_iff, Option.pure_def,
    Option.some.injEq, Prod.mk.injEq, Prod.exists, cutAt_eq_some_iff]
  constructor
  · rintro ⟨a, _, ⟨rfl, ha⟩, e, b, ⟨rfl, he⟩, rfl, rfl, rfl⟩
    exact ⟨by rw [List.append_assoc, List.cons_append], ha, he⟩
  · rintro ⟨rfl, ha, he⟩
    exact ⟨a, e ++ ']' :: b, ⟨by rw [List.append_assoc, List.cons_append], ha⟩, e, b, ⟨rfl, he⟩,
      rfl, rfl, rfl⟩

/-- There is no span exactly when no `]` follows a `[`. -/
theorem firstSpan?_eq_none_iff :
    firstSpan? layout = none ↔ ∀ a b, layout = a ++ '[' :: b → ']' ∉ b := by
  constructor
  · rintro h a b rfl hclose
    obtain ⟨a', behind, hopen, hbehind⟩ := exists_cutAt_append (c := '[') (a := a) (b := b)
    obtain ⟨e, rest, rfl⟩ := List.append_of_mem (hbehind.subset hclose)
    obtain ⟨e', rest', hend, -⟩ := exists_cutAt_append (c := ']') (a := e) (b := rest)
    simp [firstSpan?, hopen, hend] at h
  · intro h
    cases hspan : firstSpan? layout with
    | none => rfl
    | some span =>
      obtain ⟨a, e, b⟩ := span
      have heq := eq_of_firstSpan? hspan
      rw [List.append_assoc, List.cons_append] at heq
      exact absurd (List.mem_append_right e (.head b)) (h a _ heq)

/-! ## All spans -/

theorem stretches_of_last (h : ∀ a b, layout = a ++ '[' :: b → ']' ∉ b) :
    stretches layout = [.plain layout] := by
  rw [stretches]
  split
  next => rfl
  next heq => cases (firstSpan?_eq_none_iff.2 h).symm.trans heq

theorem stretches_span (ha : '[' ∉ a) (he : ']' ∉ e) :
    stretches (a ++ '[' :: e ++ ']' :: b) = .plain a :: .bracketed e :: stretches b := by
  rw [stretches]
  have hspan := firstSpan?_eq_some_iff (b := b).2 ⟨rfl, ha, he⟩
  split
  next heq => cases hspan.symm.trans heq
  next heq =>
    cases hspan.symm.trans heq
    rfl

theorem stretched_stretches (layout : Text) : Stretched layout (stretches layout) := by
  fun_induction stretches layout with
  | case1 layout h => exact .last (firstSpan?_eq_none_iff.1 h)
  | case2 layout a e b h ih =>
    obtain ⟨rfl, ha, he⟩ := firstSpan?_eq_some_iff.1 h
    exact .span ha he ih

theorem Stretched.eq_stretches (h : Stretched layout parts) : parts = stretches layout := by
  induction h with
  | last h => exact (stretches_of_last h).symm
  | span ha he _ ih => rw [stretches_span ha he, ih]

/-- The description holds of one list only. -/
theorem stretched_iff : Stretched layout parts ↔ parts = stretches layout :=
  ⟨Stretched.eq_stretches, fun h => h ▸ stretched_stretches layout⟩

theorem Stretched.flatMap_written (h : Stretched layout parts) :
    parts.flatMap Stretch.written = layout := by
  induction h with
  | last _ => exact List.append_nil _
  | span _ _ _ ih => simp [Stretch.written, ih]

/-! ## Segments -/

theorem enclosed_of_ne_nil (h : e ≠ []) : enclosed e = [.escaped e] := by
  cases e with
  | nil => exact absurd rfl h
  | cons _ _ => rfl

/-- What is asked of segments is not in a span if escaped text does not have it. -/
theorem filterMap_enclosed {α : Type u} {f : Segment → Option α} (h : ∀ t, f (.escaped t) = none) :
    (enclosed e).filterMap f = [] := by
  cases e with
  | nil => rfl
  | cons c e => exact List.filterMap_cons_none (h (c :: e))

theorem segmentsBy_eq_flatMap : segmentsBy lex layout = (stretches layout).flatMap (·.read lex) := by
  refine congrArg (List.flatMap · _) (funext fun stretch => ?_)
  cases stretch with
  | plain _ => rfl
  | bracketed t => cases t <;> rfl

theorem segmentsBy_of_last (h : ∀ a b, layout = a ++ '[' :: b → ']' ∉ b) :
    segmentsBy lex layout = lex layout := by
  rw [segmentsBy_eq_flatMap, stretches_of_last h, List.flatMap_singleton, Stretch.read]

theorem segmentsBy_of_notMem (h : '[' ∉ layout) : segmentsBy lex layout = lex layout :=
  segmentsBy_of_last fun _ _ heq => absurd (by simp [heq]) h

theorem segmentsBy_span (ha : '[' ∉ a) (he : ']' ∉ e) :
    segmentsBy lex (a ++ '[' :: e ++ ']' :: b) = lex a ++ enclosed e ++ segmentsBy lex b := by
  rw [segmentsBy_eq_flatMap, stretches_span ha he, List.flatMap_cons, List.flatMap_cons,
    ← segmentsBy_eq_flatMap, List.append_assoc]
  rfl

end Relayout.Layout
