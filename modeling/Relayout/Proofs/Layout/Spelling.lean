import Relayout.Proofs.Layout.Segments
import Relayout.Proofs.Layout.Stretches

/-!
# Writing a layout for given segments

Any sequence of tokens and fixed texts has a layout that is read as just that sequence, as an input
layout and as an output layout (`segments_spell`): `spell` writes a token as its name and a text
between brackets, and puts an empty span between two tokens. Each name then is a stretch of its own,
and a stretch that is a name is read as that name, whatever shorter or longer names there are.
-/

namespace Relayout.Layout

/-- What is asked of a layout at one place. -/
inductive Part
  | token (name : Text)
  | text (text : Text)
  deriving DecidableEq

namespace Part

/-- The segment as which the part is to be read. -/
def segment : Part → Segment
  | token n => .token n
  | text t => .escaped t

/-- A token has a name that is not empty and opens no span, and a text is not empty and closes
none. -/
def IsWritable (names : List Text) : Part → Prop
  | token n => n ∈ names ∧ n ≠ [] ∧ '[' ∉ n
  | text t => t ≠ [] ∧ ']' ∉ t

instance (names : List Text) : (part : Part) → Decidable (part.IsWritable names)
  | token n => inferInstanceAs (Decidable (n ∈ names ∧ n ≠ [] ∧ '[' ∉ n))
  | text t => inferInstanceAs (Decidable (t ≠ [] ∧ ']' ∉ t))

end Part

/-- What keeps a token apart from the parts behind it. -/
def separator : List Part → Text
  | .token _ :: _ => ['[', ']']
  | _ => []

/-- The layout that asks for these parts. -/
def spell : List Part → Text
  | [] => []
  | .token n :: parts => n ++ separator parts ++ spell parts
  | .text t :: parts => '[' :: t ++ ']' :: spell parts

variable {names : List Text} {n a b e : Text} {parts : List Part}
  {lex : Text → List Segment}

/-! ## A name by itself -/

theorem occurrences_name (hn : n ∈ names) (hne : n ≠ []) : occurrences names n = [⟨0, n⟩] := by
  refine (IsMunch.eq_occurrences ⟨List.pairwise_singleton _ _, ?_, ?_, ?_, ?_⟩).symm
  · exact List.forall_mem_singleton.2 ⟨Nat.le_refl 0, List.prefix_rfl⟩
  · exact List.forall_mem_singleton.2 ⟨hn, hne⟩
  · exact List.forall_mem_singleton.2 fun m _ hm => hm.length_le
  · intro i _ hfree m _ hm
    have hi : n.length ≤ i := by
      have := List.forall_mem_singleton.1 hfree
      simp only [Occurrence.Contains, Occurrence.stop] at this
      omega
    rwa [List.drop_of_length_le hi, List.prefix_nil] at hm

/-- No letter of a name is left over. -/
theorem uncovered_name (hn : n ∈ names) (hne : n ≠ []) :
    uncovered (occurrences names n) n = [] := by
  have hruns := isRuns_letterRuns n
  apply List.eq_nil_iff_forall_not_mem.2
  intro w hw
  obtain ⟨hw, hfree⟩ := mem_uncovered.1 hw
  refine hfree ((covers_iff (isMunch_occurrences ..).ordered).2 fun i hi => ⟨⟨0, n⟩, ?_, ?_⟩)
  · rw [occurrences_name hn hne]
    exact .head _
  · have hstop := Occurrence.stop_le_length (hruns.here w hw).2 (hruns.letters w hw).1
    refine ⟨Nat.zero_le i, Nat.lt_of_lt_of_le hi.2 (Nat.le_trans hstop ?_)⟩
    exact Nat.le_of_eq (Nat.zero_add _).symm

/-- A way to read ordinary text that finds nothing where there is none, and a name in its text. -/
structure ReadsNames (names : List Text) (lex : Text → List Segment) : Prop where
  nil : lex [] = []
  name : ∀ n ∈ names, n ≠ [] → lex n = [.token n]

theorem readsNames_lexTokens (names : List Text) : ReadsNames names (lexTokens names) where
  nil := by simp [lexTokens, occurrences, occurrencesFrom, tokenPieces, fill, gap]
  name n hn hne := by
    simp [lexTokens, occurrences_name hn hne, tokenPieces, fill, gap, Segment.text]

theorem readsNames_lexWords (names : List Text) : ReadsNames names (lexWords names) where
  nil := by
    rw [lexWords_eq_lexTokens (by rfl), (readsNames_lexTokens names).nil]
  name n hn hne := by
    rw [lexWords_eq_lexTokens (uncovered_name hn hne), (readsNames_lexTokens names).name n hn hne]

/-! ## The layout of a sequence of parts -/

namespace ReadsNames

theorem segmentsBy_enclosed (h : ReadsNames names lex) (he : ']' ∉ e) :
    segmentsBy lex ('[' :: e ++ ']' :: b) = enclosed e ++ segmentsBy lex b := by
  rw [← List.nil_append ('[' :: e), segmentsBy_span List.not_mem_nil he, h.nil, List.nil_append]

/-- What stands before the parts is read by itself. -/
theorem segmentsBy_append_spell (h : ReadsNames names lex) (ha : '[' ∉ a)
    (hparts : ∀ part ∈ parts, part.IsWritable names) :
    segmentsBy lex (a ++ separator parts ++ spell parts) =
      lex a ++ segmentsBy lex (spell parts) := by
  match parts with
  | [] =>
    simp only [separator, spell, List.append_nil, segmentsBy_of_notMem ha,
      segmentsBy_of_notMem List.not_mem_nil, h.nil]
  | .token m :: parts =>
    have hspan : a ++ separator (.token m :: parts) ++ spell (.token m :: parts) =
        a ++ '[' :: [] ++ ']' :: spell (.token m :: parts) := by
      rw [separator, List.append_assoc, List.append_assoc]
      rfl
    rw [hspan, segmentsBy_span ha List.not_mem_nil, enclosed, List.append_nil]
  | .text t :: parts =>
    obtain ⟨-, hclose⟩ := (List.forall_mem_cons.1 hparts).1
    have hspan : a ++ separator (.text t :: parts) ++ spell (.text t :: parts) =
        a ++ '[' :: t ++ ']' :: spell parts := by
      simp only [separator, spell, List.append_nil, List.append_assoc]
    rw [hspan, segmentsBy_span ha hclose, spell, h.segmentsBy_enclosed hclose, List.append_assoc]

theorem segmentsBy_spell (h : ReadsNames names lex)
    (hparts : ∀ part ∈ parts, part.IsWritable names) :
    segmentsBy lex (spell parts) = parts.map Part.segment := by
  induction parts with
  | nil => rw [spell, segmentsBy_of_notMem List.not_mem_nil, h.nil, List.map_nil]
  | cons part parts ih =>
    obtain ⟨hpart, hrest⟩ := List.forall_mem_cons.1 hparts
    cases part with
    | token n =>
      obtain ⟨hn, hne, hopen⟩ := hpart
      rw [spell, h.segmentsBy_append_spell hopen hrest, h.name n hn hne, ih hrest]
      rfl
    | text t =>
      obtain ⟨hne, hclose⟩ := hpart
      rw [spell, h.segmentsBy_enclosed hclose, enclosed_of_ne_nil hne, ih hrest]
      rfl

end ReadsNames

/-- Every sequence of tokens and fixed texts is read back from its layout, as an input layout and as
an output layout. -/
theorem segments_spell (hparts : ∀ part ∈ parts, part.IsWritable names) :
    segments names (spell parts) = parts.map Part.segment ∧
      outputSegments names (spell parts) = parts.map Part.segment :=
  ⟨(readsNames_lexTokens names).segmentsBy_spell hparts,
    (readsNames_lexWords names).segmentsBy_spell hparts⟩

/-- Names that begin each other or hold brackets, and a text that opens a span and spells a name. -/
theorem segments_spell_prefixes :
    segments ["d".toList, "dd".toList, "d]é.d".toList] "d[]dd[[d]d]é.d".toList =
      [.token "d".toList, .token "dd".toList, .escaped "[d".toList, .token "d]é.d".toList] ∧
    outputSegments ["d".toList, "dd".toList, "d]é.d".toList] "d[]dd[[d]d]é.d".toList =
      [.token "d".toList, .token "dd".toList, .escaped "[d".toList, .token "d]é.d".toList] := by
  have hspell : "d[]dd[[d]d]é.d".toList = spell [.token "d".toList, .token "dd".toList,
      .text "[d".toList, .token "d]é.d".toList] := by decide
  rw [hspell]
  exact segments_spell (by decide)

end Relayout.Layout
