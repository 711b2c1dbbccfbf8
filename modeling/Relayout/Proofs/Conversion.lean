import Relayout.Conversion
import Relayout.Proofs.Layout.Segments
import Relayout.Proofs.Parts
import Relayout.Proofs.Resolution

/-!
# The stages of a conversion

Under `throw` a conversion succeeds exactly when each of its stages does
(`Options.convert_throw_eq_ok_iff`). What succeeds under `throw` succeeds in the same way under
`silent`, and what succeeds in strict mode also in positional mode (`Options.convert_of_throw`).
-/

namespace Relayout.Options

open Layout (Piece Segment)

variable {o : Options} {inputLayout outputLayout input output : Text} {reading : Reading}
  {parts : DateParts}

/-- What is written, with the tokens and words of the layout sorted by insertion. -/
theorem write_eq_insertionSort (o : Options) (layout : Text) (parts : DateParts) :
    o.write layout parts =
      let lexed (names : List Text) : List Segment := Layout.segmentsBy (fun text =>
        Layout.fill 0 text ((Layout.foundPieces names text).insertionSort Piece.UpTo)) layout
      (((lexed o.sources.names).filterMap Segment.name?).foldlM
        (o.sources.settle parts.tokens o.policy) (o.sources.settled parts.tokens)).map
        fun resolved =>
          Template.render ⟨(lexed (Template.names o.handlers resolved o.defaults)).map
            (Template.Item.ofSegment o.handlers resolved o.defaults)⟩ parts := by
  simp only [write, Sources.resolve, Sources.needed, Template.compile,
    Layout.outputSegments_eq_insertionSort]
  rfl

/-- A date that is read is written; the input is not handed back. -/
theorem convert_of_parts
    (hreading : Reading.ofInput o.handlers.names o.mode o.policy inputLayout input = .ok reading)
    (hfailed : reading.allFailed = false)
    (hparts : DateParts.ofReading reading o.converter o.policy = .ok parts) :
    o.convert inputLayout outputLayout input = o.write outputLayout parts := by
  have hnot : ¬(o.policy = .silent ∧ reading.allFailed = true) := fun h => nomatch hfailed ▸ h.2
  simp only [convert, hreading, if_neg hnot, hparts]
  rfl

theorem convert_throw_eq_ok_iff (hthrow : o.policy = .throw) :
    o.convert inputLayout outputLayout input = .ok output ↔ ∃ reading parts,
      Reading.ofInput o.handlers.names o.mode .throw inputLayout input = .ok reading ∧
      DateParts.ofReading reading o.converter .throw = .ok parts ∧
      o.write outputLayout parts = .ok output := by
  constructor
  · intro h
    unfold convert at h
    rw [hthrow] at h
    cases hreading : Reading.ofInput o.handlers.names o.mode .throw inputLayout input with
    | error e =>
      simp only [hreading, reduceCtorEq, false_and, if_false] at h
    | ok reading =>
      simp only [hreading, reduceCtorEq, false_and, if_false] at h
      obtain ⟨parts, hparts, hwrite⟩ := bind_eq_ok_iff.1 h
      exact ⟨reading, parts, rfl, hparts, hwrite⟩
  · rintro ⟨reading, parts, hreading, hparts, hwrite⟩
    have hfailed := (Reading.complete_of_ofInput hreading).allFailed_eq_false
    rw [← hthrow] at hreading hparts
    rw [convert_of_parts hreading hfailed hparts, hwrite]

theorem write_of_throw {mode mode' : ParseMode} {policy : ErrorPolicy}
    (h : write { o with mode, policy := .throw } outputLayout parts = .ok output) :
    write { o with mode := mode', policy } outputLayout parts = .ok output := by
  obtain ⟨resolved, hresolved, houtput⟩ := bind_eq_ok_iff.1 h
  exact bind_eq_ok_iff.2 ⟨resolved, Sources.resolve_of_throw hresolved, houtput⟩

/-- One loosening of the settings: another policy than `throw`, or positional mode. -/
theorem convert_loosen {mode mode' : ParseMode} {policy : ErrorPolicy}
    (h : convert { o with mode, policy := .throw } inputLayout outputLayout input = .ok output)
    (hmode : mode' = .positional ∨ mode' = mode) :
    convert { o with mode := mode', policy } inputLayout outputLayout input = .ok output := by
  obtain ⟨reading, parts, hreading, hparts, hwrite⟩ := (convert_throw_eq_ok_iff rfl).1 h
  have hfailed := (Reading.complete_of_ofInput hreading).allFailed_eq_false
  rw [convert_of_parts (o := { o with mode := mode', policy })
    (Reading.ofInput_of_throw hreading hmode) hfailed (DateParts.ofReading_of_throw hparts)]
  exact write_of_throw hwrite

/-- Looser settings keep a result. What strict mode and `throw` let pass is the same in both modes
and under both policies; what positional mode and `throw` let pass is the same under `silent`. -/
theorem convert_of_throw (o : Options) (inputLayout outputLayout input output : Text) :
    (convert { o with mode := .strict, policy := .throw } inputLayout outputLayout input =
        .ok output →
      ∀ mode policy,
        convert { o with mode, policy } inputLayout outputLayout input = .ok output) ∧
    (convert { o with mode := .positional, policy := .throw } inputLayout outputLayout input =
        .ok output →
      convert { o with mode := .positional, policy := .silent } inputLayout outputLayout input =
        .ok output) := by
  refine ⟨fun h mode policy => convert_loosen h ?_, fun h => convert_loosen h (.inr rfl)⟩
  cases mode with
  | positional => exact .inl rfl
  | strict => exact .inr rfl

/-- A date whose year and month change places. -/
theorem convert_of_throw_year_month :
    (∀ mode policy, convert { mode, policy } "yyyy-MM".toList "MM/yy".toList "2025-04".toList =
      .ok "04/25".toList) ∧
    convert { mode := .positional, policy := .silent } "yyyy-MM".toList "MM/yy".toList
      "2025-04".toList = .ok "04/25".toList := by
  obtain ⟨hstrict, hpositional⟩ :=
    convert_of_throw {} "yyyy-MM".toList "MM/yy".toList "2025-04".toList "04/25".toList
  have hread (mode : ParseMode) : convert { mode } "yyyy-MM".toList "MM/yy".toList
      "2025-04".toList = .ok "04/25".toList := by
    simp only [convert, write_eq_insertionSort]
    cases mode <;> decide +kernel
  exact ⟨hstrict (hread _), hpositional (hread _)⟩

end Relayout.Options
