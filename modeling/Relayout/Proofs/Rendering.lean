import Relayout.Proofs.Layout.Segments
import Relayout.Template

/-!
# What a template writes

An item of a template is fixed where its text can never differ, and then the sources of the name
give just that text (`Template.render_ofName_eq_resolve`). So a template writes for any date what
the segments of its layout stand for, as one does whose items are never fixed
(`Template.render_eq_flatMap_meaning`).
-/

namespace Relayout

open Layout

variable {handlers overrides defaults : TokenTable} {n layout : Text} {parts : DateParts}
  {r : TokenResolver} {segment : Segment}

namespace TokenResolver

/-- No source of the token gives a text, so that it is written as its own name. -/
def FallsBack (r : TokenResolver) (parts : DateParts) : Prop :=
  ∀ source ∈ r.sources, source.produce parts = none

theorem resolve_of_fallsBack (h : r.FallsBack parts) : r.resolve parts = r.token := by
  rw [resolve, List.findSome?_eq_none_iff.2 h, Option.getD_none]

/-- A source that is missing is passed over. -/
theorem findSome?_sources {f : Source → Option Text} : r.sources.findSome? f =
    [r.overriding, r.handler, r.fallback].findSome? fun source? => source?.bind f := by
  rcases r with ⟨_, _ | _, _ | _, _ | _⟩ <;> rfl

end TokenResolver

namespace Template

/-- The sources of a name when it is written. -/
def resolver (handlers overrides defaults : TokenTable) (n : Text) : TokenResolver :=
  ⟨n, overrides.get? n, handlers.get? n, defaults.get? n⟩

theorem render_ofName_eq_resolve : (Item.ofName handlers overrides defaults n).render parts =
    (resolver handlers overrides defaults n).resolve parts := by
  unfold Item.ofName
  split
  next text htext =>
    -- a fixed text comes before all other sources
    obtain ⟨source, hsource, hliteral⟩ := Option.bind_eq_some_iff.1 htext
    cases source with
    | handler _ => exact nomatch hliteral
    | literal _ =>
      obtain rfl := Option.some.inj hliteral
      simp only [Item.render, resolver, TokenResolver.resolve, TokenResolver.sources, hsource,
        Option.toList_some, List.append_assoc, List.cons_append, List.findSome?_cons,
        Source.produce, Option.getD_some]
  next =>
    change Item.render (if (resolver handlers overrides defaults n).sources.isEmpty then .fixed n
      else .token (resolver handlers overrides defaults n)) parts = _
    split
    next hempty =>
      have hnone : (resolver handlers overrides defaults n).FallsBack parts := by
        intro source hsource
        rw [List.isEmpty_iff.1 hempty] at hsource
        exact nomatch hsource
      exact (TokenResolver.resolve_of_fallsBack hnone).symm
    next => rfl

/-- The first text that the override, the handler and the default of a name give, or the name
itself if none does. -/
def textOf (handlers overrides defaults : TokenTable) (parts : DateParts) (n : Text) : Text :=
  ([overrides.get? n, handlers.get? n, defaults.get? n].findSome? fun source? =>
    source?.bind fun source => source.produce parts).getD n

/-- What a segment of an output layout stands for. -/
def meaning (handlers overrides defaults : TokenTable) (parts : DateParts) : Segment → Text
  | .literal text | .escaped text => text
  | .token n | .word n => textOf handlers overrides defaults parts n

/-- The item of a segment where nothing is fixed before a date is written. -/
def Item.unfolded (handlers overrides defaults : TokenTable) : Segment → Item
  | .literal text | .escaped text => fixed text
  | .token n | .word n => token (resolver handlers overrides defaults n)

/-- The template of a layout where nothing is fixed before a date is written. -/
def compileUnfolded (handlers overrides defaults : TokenTable) (layout : Text) : Template :=
  ⟨(outputSegments (names handlers overrides defaults) layout).map
    (Item.unfolded handlers overrides defaults)⟩

theorem resolve_resolver : (resolver handlers overrides defaults n).resolve parts =
    textOf handlers overrides defaults parts n := by
  rw [TokenResolver.resolve, TokenResolver.findSome?_sources]
  rfl

theorem render_unfolded : (Item.unfolded handlers overrides defaults segment).render parts =
    meaning handlers overrides defaults parts segment := by
  cases segment with
  | literal _ | escaped _ => rfl
  | token n | word n => exact resolve_resolver

/-- What is fixed for a segment when a template is made is what it stands for with any date. -/
theorem render_ofSegment_eq_meaning :
    (Item.ofSegment handlers overrides defaults segment).render parts =
      meaning handlers overrides defaults parts segment := by
  cases segment with
  | literal _ | escaped _ => rfl
  | token n | word n => exact render_ofName_eq_resolve.trans resolve_resolver

/-- The empty name, which is never found, makes no difference. -/
theorem outputSegments_names_ne_nil :
    outputSegments (names handlers overrides defaults) layout =
      outputSegments ((names handlers overrides defaults).filter (· ≠ [])) layout :=
  outputSegments_congr_of_ne_nil fun n hn => by
    rw [List.mem_filter, decide_eq_true_eq, and_iff_left hn]

/-- A template writes, for any date, what the segments of its layout stand for, one behind the other,
and so does the template in which nothing is fixed before. -/
theorem render_eq_flatMap_meaning (handlers overrides defaults : TokenTable) (layout : Text)
    (parts : DateParts) :
    (compile handlers overrides defaults layout).render parts =
      (outputSegments ((names handlers overrides defaults).filter (· ≠ [])) layout).flatMap
        (meaning handlers overrides defaults parts) ∧
    (compile handlers overrides defaults layout).render parts =
      (compileUnfolded handlers overrides defaults layout).render parts := by
  simp only [compile, compileUnfolded, render, List.flatMap_map, render_ofSegment_eq_meaning,
    render_unfolded, outputSegments_names_ne_nil, and_self]

end Template

end Relayout
