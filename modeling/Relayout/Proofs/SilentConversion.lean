import Relayout.Conversion
import Relayout.Proofs.Parts
import Relayout.Proofs.Resolution

/-!
# What can go wrong under the silent policy

A reading under `silent` fails only because of the structure of the input, and date parts fail only
when the year converter refuses. Hence a silent conversion hands the input back, or has the error of
the year converter, or writes a text (`Options.convert_silent`).
-/

namespace Relayout

open Layout

variable {mode : ParseMode} {policy : ErrorPolicy} {names : List Text} {layout input t : Text}
  {r : Reading} {e : ConversionError} {converter : Option YearConverter}

/-- The input does not have the text or the length that its layout asks for, or the layout names no
year. -/
def ConversionError.IsStructural : ConversionError → Prop
  | literalMismatch .. | trailingInput .. | missingYear => True
  | tooShort _ | notNumeric .. | missingYearConverter | unknownToken _ | cannotProduce _
  | yearConverter _ => False

theorem ConversionError.IsStructural.isParseFailure (h : e.IsStructural) :
    e.isParseFailure = true := by
  cases e with
  | literalMismatch _ _ | trailingInput _ _ | missingYear => rfl
  | tooShort _ | notNumeric _ _ | missingYearConverter | unknownToken _ | cannotProduce _
  | yearConverter _ => exact nomatch h

/-- There is a two-digit year and no other, and the converter refuses it with this text. -/
def YearRefused (value? : Text → Option Text) (converter : Option YearConverter)
    (message : Text) : Prop :=
  value? Builtin.yyyy.name = none ∧ ∃ digits yy convert,
    value? Builtin.yy.name = some digits ∧ Int64.toInt yy = Nat.ofDigitChars 10 digits 0 ∧
      converter = some convert ∧ convert yy = .error message

/-! ## Reading -/

namespace Reading

theorem isStructural_of_ofInput_silent
    (h : ofInput names mode .silent layout input = .error e) : mode = .strict ∧ e.IsStructural := by
  rcases ofInput_eq_error_iff.1 h with ⟨_, s, _, _, _, hchecked, _, rfl⟩ | ⟨_, hstrict, hend⟩
  · cases s with
    | token _ => exact nomatch hchecked
    | literal _ | escaped _ | word _ => exact ⟨hchecked, trivial⟩
  · rcases hend with ⟨_, rfl⟩ | ⟨_, _, rfl⟩
    · exact ⟨hstrict, trivial⟩
    · exact ⟨hstrict, trivial⟩

theorem value?_of_ofInput (h : ofInput names mode policy layout input = .ok r) :
    r.value? = lastUsable? (slots names layout input) := by
  obtain ⟨-, -, rfl⟩ := ofInput_eq_ok_iff.1 h
  exact funext fun _ => value?_noteAll_empty

theorem allFailed_of_ofInput (h : ofInput names mode policy layout input = .ok r) :
    r.allFailed = true ↔
      slots names layout input ≠ [] ∧ ∀ p ∈ slots names layout input, ¬Usable p := by
  obtain ⟨-, -, rfl⟩ := ofInput_eq_ok_iff.1 h
  exact allFailed_noteAll_iff

/-! ## Date parts -/

/-- The error of the converter is that of the year. -/
theorem Sound.year_of_yearRefused (h : r.Sound) {message : Text}
    (hrefused : YearRefused r.value? converter message) :
    r.year converter policy = .error (.yearConverter message) := by
  obtain ⟨hyyyy, d, yy, convert, hyy, hnumber, rfl, herror⟩ := hrefused
  obtain ⟨v, hread, hv, -⟩ := h.exists_read hyy
  obtain rfl : v = yy := Int64.toInt_inj.1 (hv.trans hnumber.symm)
  simp only [year, hyyyy, hyy, readNumber, hread]
  exact bind_eq_error_iff.2 (.inr ⟨v, rfl, by simp only [expandYear, herror]; rfl⟩)

/-- Without a converter a two-digit year is kept under `silent`, so there is no other error. -/
theorem Sound.exists_year_silent (h : r.Sound)
    (hnot : ∀ message, ¬YearRefused r.value? converter message) :
    ∃ value, r.year converter .silent = .ok value := by
  refine h.exists_year_of_expandYear fun d yy hyyyy hyy hnumber => ?_
  cases converter with
  | none => exact ⟨yy, rfl⟩
  | some convert =>
    cases hconvert : convert yy with
    | error message =>
      exact absurd ⟨hyyyy, d, yy, convert, hyy, hnumber, rfl, hconvert⟩ (hnot message)
    | ok year => exact ⟨year, by simp only [expandYear, hconvert]; rfl⟩

end Reading

theorem DateParts.ofReading_of_year_error (h : r.year converter policy = .error e) :
    ofReading r converter policy = .error e :=
  bind_eq_error_iff.2 (.inl h)

/-! ## Whole conversions -/

namespace Options

variable {o : Options} {inputLayout outputLayout : Text}

/-- What a silent conversion hands back: an input with the wrong structure in strict mode, or one
that has no digits for any of the tokens that its layout names. -/
def HandsBack (o : Options) (inputLayout input : Text) : Prop :=
  (o.mode = .strict ∧ ∃ e : ConversionError, e.IsStructural ∧
    Reading.ofInput o.handlers.names o.mode .silent inputLayout input = .error e) ∨
  slots o.handlers.names inputLayout input ≠ [] ∧
    ∀ p ∈ slots o.handlers.names inputLayout input, ¬Usable p

/-- The converter refuses the two-digit year of the input with this text. -/
def RefusesYear (o : Options) (inputLayout input message : Text) : Prop :=
  YearRefused (lastUsable? (slots o.handlers.names inputLayout input)) o.converter message

/-- An input that is not handed back is read. -/
theorem exists_reading_of_not_handsBack (h : ¬o.HandsBack inputLayout input) :
    ∃ r, Reading.ofInput o.handlers.names o.mode .silent inputLayout input = .ok r ∧
      r.allFailed = false := by
  cases hreading : Reading.ofInput o.handlers.names o.mode .silent inputLayout input with
  | error e =>
    obtain ⟨hstrict, hstructural⟩ := Reading.isStructural_of_ofInput_silent hreading
    exact absurd (.inl ⟨hstrict, e, hstructural, hreading⟩) h
  | ok r =>
    refine ⟨r, rfl, Bool.eq_false_iff.2 fun hfailed => h (.inr ?_)⟩
    exact (Reading.allFailed_of_ofInput hreading).1 hfailed

theorem convert_of_handsBack (hsilent : o.policy = .silent) (h : o.HandsBack inputLayout input) :
    o.convert inputLayout outputLayout input = .ok input := by
  unfold convert
  rw [hsilent]
  cases hreading : Reading.ofInput o.handlers.names o.mode .silent inputLayout input with
  | error e =>
    have hstructural := (Reading.isStructural_of_ofInput_silent hreading).2
    exact if_pos ⟨rfl, hstructural.isParseFailure⟩
  | ok r =>
    have hfailed : r.allFailed = true := by
      refine (Reading.allFailed_of_ofInput hreading).2 (h.resolve_left ?_)
      rintro ⟨-, e, -, herror⟩
      exact nomatch herror.symm.trans hreading
    exact if_pos ⟨rfl, hfailed⟩

theorem refusesYear_iff {message : Text}
    (hreading : Reading.ofInput o.handlers.names o.mode .silent inputLayout input = .ok r) :
    o.RefusesYear inputLayout input message ↔ YearRefused r.value? o.converter message := by
  rw [RefusesYear, Reading.value?_of_ofInput hreading]

theorem convert_silent_of_reading (hsilent : o.policy = .silent)
    (hreading : Reading.ofInput o.handlers.names o.mode .silent inputLayout input = .ok r)
    (hfailed : r.allFailed = false) : o.convert inputLayout outputLayout input =
      DateParts.ofReading r o.converter .silent >>= o.write outputLayout := by
  simp only [convert, hsilent, hreading, hfailed, Bool.false_eq_true, and_false, if_false]

theorem convert_of_refusesYear {message : Text} (hsilent : o.policy = .silent)
    (hback : ¬o.HandsBack inputLayout input) (hrefuses : o.RefusesYear inputLayout input message) :
    o.convert inputLayout outputLayout input = .error (.yearConverter message) := by
  obtain ⟨r, hreading, hfailed⟩ := exists_reading_of_not_handsBack hback
  have hyear : r.year o.converter .silent = .error (.yearConverter message) :=
    (Reading.sound_of_ofInput hreading).year_of_yearRefused ((refusesYear_iff hreading).1 hrefuses)
  rw [convert_silent_of_reading hsilent hreading hfailed, DateParts.ofReading_of_year_error hyear]
  rfl

/-- Behind the converter nothing stands in the way of a text. -/
theorem exists_convert_of_not_refusesYear (hsilent : o.policy = .silent)
    (hback : ¬o.HandsBack inputLayout input)
    (hnot : ∀ message, ¬o.RefusesYear inputLayout input message) :
    ∃ reading parts resolved,
      Reading.ofInput o.handlers.names o.mode .silent inputLayout input = .ok reading ∧
      DateParts.ofReading reading o.converter .silent = .ok parts ∧
      o.sources.resolve .silent parts.tokens outputLayout = .ok resolved ∧
      o.convert inputLayout outputLayout input =
        .ok ((Template.compile o.handlers resolved o.defaults outputLayout).render parts) := by
  obtain ⟨r, hreading, hfailed⟩ := exists_reading_of_not_handsBack hback
  have hsound := Reading.sound_of_ofInput hreading
  have hyear : ∃ value, r.year o.converter .silent = .ok value :=
    hsound.exists_year_silent fun message h => hnot message ((refusesYear_iff hreading).2 h)
  obtain ⟨parts, hparts⟩ := DateParts.exists_ofReading hyear hsound.exists_number
  obtain ⟨resolved, hresolved⟩ := o.sources.exists_resolve_silent parts.tokens outputLayout
  have hwrite : o.write outputLayout parts =
      .ok ((Template.compile o.handlers resolved o.defaults outputLayout).render parts) :=
    bind_eq_ok_iff.2 ⟨resolved, hsilent ▸ hresolved, rfl⟩
  refine ⟨r, parts, resolved, hreading, hparts, hresolved, ?_⟩
  rw [convert_silent_of_reading hsilent hreading hfailed]
  exact bind_eq_ok_iff.2 ⟨parts, hparts, hwrite⟩

/-- A silent conversion has one of three outcomes. An input that is handed back is so whatever the
converter, the output layout, the overrides and the defaults are. Any other input has the error of
the converter if that refuses its two-digit year, and otherwise it is written. -/
theorem convert_silent (o : Options) (inputLayout outputLayout input : Text) :
    (o.HandsBack inputLayout input ∧ ∀ converter overrides defaults outputLayout',
      convert { o with policy := .silent, converter, overrides, defaults }
        inputLayout outputLayout' input = .ok input) ∨
    (¬o.HandsBack inputLayout input ∧ ∃ message, o.RefusesYear inputLayout input message ∧
      convert { o with policy := .silent } inputLayout outputLayout input =
        .error (.yearConverter message)) ∨
    ¬o.HandsBack inputLayout input ∧ (∀ message, ¬o.RefusesYear inputLayout input message) ∧
      ∃ reading parts resolved,
        Reading.ofInput o.handlers.names o.mode .silent inputLayout input = .ok reading ∧
        DateParts.ofReading reading o.converter .silent = .ok parts ∧
        o.sources.resolve .silent parts.tokens outputLayout = .ok resolved ∧
        convert { o with policy := .silent } inputLayout outputLayout input =
          .ok ((Template.compile o.handlers resolved o.defaults outputLayout).render parts) := by
  by_cases hback : o.HandsBack inputLayout input
  · exact .inl ⟨hback, fun _ _ _ _ => convert_of_handsBack rfl hback⟩
  · by_cases hrefuses : ∃ message, o.RefusesYear inputLayout input message
    · obtain ⟨message, hmessage⟩ := hrefuses
      exact .inr (.inl ⟨hback, message, hmessage, convert_of_refusesYear rfl hback hmessage⟩)
    · have hnot := not_exists.1 hrefuses
      exact .inr (.inr ⟨hback, hnot,
        exists_convert_of_not_refusesYear (o := { o with policy := .silent }) rfl hback hnot⟩)

end Options
end Relayout
