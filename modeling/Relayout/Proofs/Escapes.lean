import Relayout.Proofs.Layout.Stretches
import Relayout.Resolution
import Relayout.Template

/-!
# Escapes between layouts

A bracketed span cuts a layout in two that are read each by itself, whatever stands in the brackets
(`segmentsBy_append_span`). Hence the check of a layout does not depend on what is in its brackets,
and a template writes the inside between what it writes for the two sides.
-/

namespace Relayout

open Layout

variable {parsed : List Text} {a b e e' : Text} {spans : List Stretch}
  {lex : Text → List Segment} {s : Sources} {policy : ErrorPolicy}
  {handlers overrides defaults : TokenTable} {parts : DateParts}

namespace Layout

/-- Every `[` that the scan for spans meets is closed: what is left as ordinary text has none. -/
def Closed (layout : Text) : Prop := ∀ text, .plain text ∈ stretches layout → '[' ∉ text

theorem Stretched.append_span (h : Stretched a spans)
    (hclosed : ∀ text, .plain text ∈ spans → '[' ∉ text) (he : ']' ∉ e) :
    Stretched (a ++ '[' :: e ++ ']' :: b) (spans ++ .bracketed e :: stretches b) := by
  induction h with
  | last _ => exact .span (hclosed _ (.head _)) he (stretched_stretches b)
  | @span c d rest spans hc hd _ ih =>
    have hassoc : c ++ '[' :: d ++ ']' :: rest ++ '[' :: e ++ ']' :: b =
        c ++ '[' :: d ++ ']' :: (rest ++ '[' :: e ++ ']' :: b) := by
      simp only [List.append_assoc, List.cons_append]
    rw [hassoc]
    exact .span hc hd (ih fun text htext => hclosed text (.tail _ (.tail _ htext)))

/-- The stretches around a span are those of the text before it and of the text behind it. -/
theorem stretches_append_span (ha : Closed a) (he : ']' ∉ e) :
    stretches (a ++ '[' :: e ++ ']' :: b) = stretches a ++ .bracketed e :: stretches b :=
  ((stretched_stretches a).append_span ha he).eq_stretches.symm

theorem segmentsBy_append_span (ha : Closed a) (he : ']' ∉ e) :
    segmentsBy lex (a ++ '[' :: e ++ ']' :: b) =
      segmentsBy lex a ++ enclosed e ++ segmentsBy lex b := by
  simp only [segmentsBy_eq_flatMap]
  rw [stretches_append_span ha he, List.flatMap_append, List.flatMap_cons, List.append_assoc]
  rfl

end Layout

/-! ## The check and the template -/

theorem Sources.needed_append_span (ha : Closed a) (he : ']' ∉ e) :
    s.needed (a ++ '[' :: e ++ ']' :: b) = s.needed a ++ s.needed b := by
  rw [needed, outputSegments, segmentsBy_append_span ha he, List.filterMap_append,
    List.filterMap_append, filterMap_enclosed fun _ => rfl, List.append_nil]
  rfl

/-- What the check of a layout gives does not depend on the inside of a span. -/
theorem Sources.resolve_append_span (ha : Closed a) (he : ']' ∉ e) (he' : ']' ∉ e') :
    s.resolve policy parsed (a ++ '[' :: e ++ ']' :: b) =
      s.resolve policy parsed (a ++ '[' :: e' ++ ']' :: b) := by
  rw [resolve, resolve, needed_append_span ha he, needed_append_span ha he']

namespace Template

theorem render_enclosed : (enclosed e).flatMap
    (fun segment => (Item.ofSegment handlers overrides defaults segment).render parts) = e := by
  cases e with
  | nil => rfl
  | cons c e => exact List.append_nil (c :: e)

/-- The inside of a span is written as it is, between the two sides. -/
theorem render_append_span (ha : Closed a) (he : ']' ∉ e) :
    (compile handlers overrides defaults (a ++ '[' :: e ++ ']' :: b)).render parts =
      (compile handlers overrides defaults a).render parts ++ e ++
        (compile handlers overrides defaults b).render parts := by
  simp only [compile, render, List.flatMap_map, outputSegments]
  rw [segmentsBy_append_span ha he, List.flatMap_append, List.flatMap_append, render_enclosed]

end Template

/-- Where every `[` before a span is closed, the span cuts the layout in two: both kinds of layout
are read side by side with the inside between them, the check is the same for every inside, and a
template writes the inside as it is. -/
theorem escapes_compositional (ha : Closed a) (he : ']' ∉ e) (b : Text) :
    (∀ names, segments names (a ++ '[' :: e ++ ']' :: b) =
        segments names a ++ enclosed e ++ segments names b ∧
      outputSegments names (a ++ '[' :: e ++ ']' :: b) =
        outputSegments names a ++ enclosed e ++ outputSegments names b) ∧
    (∀ (s : Sources) policy parsed e', ']' ∉ e' →
      s.resolve policy parsed (a ++ '[' :: e ++ ']' :: b) =
        s.resolve policy parsed (a ++ '[' :: e' ++ ']' :: b)) ∧
    ∀ handlers overrides defaults parts,
      (Template.compile handlers overrides defaults (a ++ '[' :: e ++ ']' :: b)).render parts =
        (Template.compile handlers overrides defaults a).render parts ++ e ++
          (Template.compile handlers overrides defaults b).render parts :=
  ⟨fun _ => ⟨segmentsBy_append_span ha he, segmentsBy_append_span ha he⟩,
    fun _ _ _ _ he' => Sources.resolve_append_span ha he he',
    fun _ _ _ _ => Template.render_append_span ha he⟩

/-- A stray `]` and a span before, a name and a `[` inside, and an open `[` behind. -/
theorem escapes_compositional_stray :
    outputSegments Builtin.names "dd] [at][yyyy[]M[M".toList =
      outputSegments Builtin.names "dd] [at]".toList ++ [.escaped "yyyy[".toList] ++
        outputSegments Builtin.names "M[M".toList := by
  have hstretches : stretches "dd] [at]".toList =
      [.plain "dd] ".toList, .bracketed "at".toList, .plain []] := by cbv
  have hclosed : Closed "dd] [at]".toList := by
    intro text htext
    rw [hstretches] at htext
    simp only [List.mem_cons, Stretch.plain.injEq, reduceCtorEq, List.not_mem_nil, or_false,
      false_or] at htext
    rcases htext with rfl | rfl <;> decide
  have he : ']' ∉ "yyyy[".toList := by decide
  exact ((escapes_compositional hclosed he "M[M".toList).1 Builtin.names).2

end Relayout
