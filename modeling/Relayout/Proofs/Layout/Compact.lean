import Mathlib.Algebra.Group.Nat.Even
import Relayout.Proofs.Builtin
import Relayout.Proofs.Layout.Blocks

/-!
# Compact layouts

The scan for names takes the longest one and never goes back, so in general it may miss a way to
write a run as names. It misses none where what a name leaves of a name that it begins is a name
again or nothing (`covered_iff_spelled`). The built-in names are so: a run is read as tokens exactly
when built-in names spell it, that is when it has none but their letters and an even number of `y`
wherever some stand together (`spelled_builtin_iff`).
-/

namespace Relayout.Layout

/-- The text is a row of names. -/
inductive Spelled (names : List Text) : Text → Prop
  | nil : Spelled names []
  | cons : n ∈ names → Spelled names text → Spelled names (n ++ text)

/-- What a name leaves of a name that it begins is a name again, or nothing. -/
def LeavesNames (names : List Text) : Prop :=
  ∀ n ∈ names, ∀ m ∈ names, n <+: m → m.drop n.length = [] ∨ m.drop n.length ∈ names

instance (names : List Text) : Decidable (LeavesNames names) :=
  inferInstanceAs (Decidable (∀ n ∈ names, _))

variable {names : List Text} {text run rest a b n : Text} {pos : Nat}

/-! ## The scan does not go wrong -/

namespace Spelled

theorem flatten {ns : List Text} (h : ∀ n ∈ ns, n ∈ names) : Spelled names ns.flatten := by
  induction ns with
  | nil => exact .nil
  | cons n ns ih =>
    obtain ⟨hn, hmore⟩ := List.forall_mem_cons.1 h
    exact .cons hn (ih hmore)

theorem append (ha : Spelled names a) (hb : Spelled names b) : Spelled names (a ++ b) := by
  induction ha with
  | nil => exact hb
  | cons hn _ ih => exact List.append_assoc .. ▸ .cons hn ih

/-- A row of names that is not empty begins with a name that is not empty. -/
theorem exists_prefix (h : Spelled names text) (hne : text ≠ []) :
    ∃ n ∈ names, n ≠ [] ∧ n <+: text := by
  induction h with
  | nil => exact absurd rfl hne
  | @cons n text hn _ ih =>
    rcases eq_or_ne n [] with rfl | hempty
    · exact ih hne
    · exact ⟨n, hn, hempty, List.prefix_append ..⟩

/-- Whichever name one takes from the front of a row of names, what is left is a row of names. -/
theorem of_append (hleaves : LeavesNames names) (hn : n ∈ names) (h : Spelled names (n ++ rest)) :
    Spelled names rest := by
  generalize hrow : n ++ rest = row at h
  induction h generalizing n with
  | nil =>
    obtain ⟨-, rfl⟩ := List.append_eq_nil_iff.1 hrow
    exact .nil
  | @cons m text hm htext ih =>
    rcases List.append_eq_append_iff.1 hrow with ⟨l, rfl, rfl⟩ | ⟨l, rfl, rfl⟩
    · have hl := hleaves n hn _ hm (List.prefix_append n l)
      rw [List.drop_append_length] at hl
      rcases hl with rfl | hl
      · exact htext
      · exact .cons hl htext
    · -- the name taken is `m` and `l` behind it, which is to be taken from the other names
      have hl := hleaves m hm _ hn (List.prefix_append m l)
      rw [List.drop_append_length] at hl
      rcases hl with rfl | hl
      · exact htext
      · exact ih hl rfl

end Spelled

theorem spelled_of_covered (h : Covered names text) : Spelled names text := by
  have hrow : ((occurrences names text).map Occurrence.text).flatten = text :=
    List.flatMap_def.symm.trans h
  rw [← hrow]
  exact .flatten (List.forall_mem_map.2 fun o ho => ((isMunch_occurrences names text).named o ho).1)

/-- The scan makes up every row of names. -/
theorem Spelled.flatMap_text_eq (hleaves : LeavesNames names) (h : Spelled names text) :
    (occurrencesFrom names pos text).flatMap Occurrence.text = text := by
  fun_induction occurrencesFrom names pos text with
  | case1 pos => rfl
  | case2 pos c rest hzero ih =>
    obtain ⟨n, hn, hne, hp⟩ := h.exists_prefix (List.cons_ne_nil c rest)
    have hle := length_le_munch hn hp
    rw [hzero] at hle
    exact absurd (List.length_eq_zero_iff.1 (Nat.le_zero.1 hle)) hne
  | case3 pos c rest n hsucc ih =>
    have hname : (c :: rest).take (n + 1) ∈ names := by
      rw [← Nat.succ_eq_add_one, ← hsucc]
      exact take_munch_mem (hsucc ▸ Nat.zero_lt_succ n)
    rw [List.flatMap_cons, take_append_eq_iff, List.drop_succ_cons]
    refine ih (.of_append hleaves hname ?_)
    rwa [← List.drop_succ_cons, List.take_append_drop]

theorem covered_iff_spelled (hleaves : LeavesNames names) :
    Covered names text ↔ Spelled names text :=
  ⟨spelled_of_covered, fun h => h.flatMap_text_eq hleaves⟩

/-- `ab` leaves `c` of `abc`, which is no name, and so the scan misses `ab` and `cd`. -/
example : outputSegments ["ab".toList, "abc".toList, "cd".toList] "abcd".toList =
    [.word "abcd".toList] := by
  rw [outputSegments_eq_insertionSort]
  decide +kernel

/-! ## Names of one letter -/

/-- All characters of the text are the same. -/
def Uniform (text : Text) : Prop := ∀ c ∈ text, ∀ d ∈ text, c = d

/-- Where the letter changes, a row of names each of one letter is two rows. -/
theorem Spelled.split (huniform : ∀ n ∈ names, Uniform n)
    (hborder : ∀ c ∈ a, ∀ d ∈ b.head?, c ≠ d) (h : Spelled names (a ++ b)) :
    Spelled names a ∧ Spelled names b := by
  generalize hrow : a ++ b = row at h
  induction h generalizing a with
  | nil =>
    obtain ⟨rfl, rfl⟩ := List.append_eq_nil_iff.1 hrow
    exact ⟨.nil, .nil⟩
  | @cons n text hn htext ih =>
    rcases List.append_eq_append_iff.1 hrow with ⟨l, rfl, rfl⟩ | ⟨l, rfl, rfl⟩
    · rcases l with - | ⟨d, l⟩
      · rw [List.append_nil] at hn
        exact ⟨List.append_nil a ▸ .cons hn .nil, htext⟩
      · rcases a with - | ⟨c, a⟩
        · exact ⟨.nil, .cons hn htext⟩
        · -- a name that reaches over the border has the letter on each side of it
          refine absurd (huniform _ hn c (.head _) d ?_) (hborder c (.head _) d rfl)
          exact List.mem_append_right _ (.head _)
    · obtain ⟨hl, hb⟩ := ih (fun c hc => hborder c (List.mem_append_right _ hc)) rfl
      exact ⟨.cons hn hl, hb⟩

/-! ## Built-in names -/

/-- Built-in names, one behind the other, are the text. -/
def SpelledBuiltin (text : Text) : Prop := ∃ ts : List Builtin, ts.flatMap Builtin.name = text

theorem spelled_names_iff : Spelled Builtin.names text ↔ SpelledBuiltin text := by
  constructor
  · intro h
    induction h with
    | nil => exact ⟨[], rfl⟩
    | cons hn _ ih =>
      obtain ⟨t, -, rfl⟩ := List.mem_map.1 hn
      obtain ⟨ts, rfl⟩ := ih
      exact ⟨t :: ts, rfl⟩
  · rintro ⟨ts, rfl⟩
    rw [List.flatMap_def]
    exact .flatten (List.forall_mem_map.2 fun t _ => t.name_mem_names)

theorem leavesNames_builtin : LeavesNames Builtin.names := by decide

theorem uniform_of_mem_names : ∀ n ∈ Builtin.names, Uniform n := by
  have h : Builtin.names.all (fun n => n.all fun c => n.all fun d => c == d) = true := rfl
  simpa only [Uniform, List.all_eq_true, beq_iff_eq] using h

/-- The letters of the built-in names. -/
def builtinLetters : Text := "yMdHms".toList

theorem mem_builtinLetters_of_mem_names : ∀ n ∈ Builtin.names, ∀ c ∈ n, c ∈ builtinLetters := by
  have h : Builtin.names.all (·.all builtinLetters.contains) = true := rfl
  simpa only [List.all_eq_true, List.contains_iff_mem] using h

theorem even_length_of_mem_names : ∀ n ∈ Builtin.names, 'y' ∈ n → Even n.length := by
  decide

theorem singleton_mem_names : ∀ c ∈ builtinLetters, c ≠ 'y' → [c] ∈ Builtin.names := by
  have h : builtinLetters.all (fun c => c == 'y' || Builtin.names.contains [c]) = true := rfl
  simpa only [List.all_eq_true, Bool.or_eq_true, beq_iff_eq, List.contains_iff_mem,
    or_iff_not_imp_left] using h

theorem Spelled.mem_builtinLetters (h : Spelled Builtin.names text) :
    ∀ c ∈ text, c ∈ builtinLetters := by
  induction h with
  | nil => exact nofun
  | cons hn _ ih => exact List.forall_mem_append.2 ⟨mem_builtinLetters_of_mem_names _ hn, ih⟩

theorem Spelled.even_length (h : Spelled Builtin.names text) (hy : ∀ c ∈ text, c = 'y') :
    Even text.length := by
  induction h with
  | nil => exact Even.zero
  | @cons n text hn _ ih =>
    obtain ⟨hyn, hytext⟩ := List.forall_mem_append.1 hy
    rw [List.length_append]
    refine Even.add ?_ (ih hytext)
    cases n with
    | nil => exact Even.zero
    | cons c n => exact even_length_of_mem_names _ hn (hyn c (.head _) ▸ .head _)

theorem spelled_replicate_y {k : Nat} (h : Even k) :
    Spelled Builtin.names (List.replicate k 'y') := by
  obtain ⟨m, rfl⟩ := h
  have hname : Builtin.yy.name = List.replicate 2 'y' := rfl
  rw [← Nat.mul_two, ← List.flatten_replicate_replicate, ← hname]
  exact .flatten fun n hn => List.eq_of_mem_replicate hn ▸ Builtin.name_mem_names .yy

theorem spelled_of_notMem_y (hletters : ∀ c ∈ text, c ∈ builtinLetters) (hy : 'y' ∉ text) :
    Spelled Builtin.names text := by
  induction text with
  | nil => exact .nil
  | cons c text ih =>
    obtain ⟨hc, htext⟩ := List.forall_mem_cons.1 hletters
    have hne : c ≠ 'y' := fun heq => hy (heq ▸ .head _)
    exact .cons (singleton_mem_names c hc hne) (ih htext fun h => hy (.tail _ h))

/-- Some of one letter are spelled if it is in built-in names, and for `y` if they are even. -/
theorem spelled_uniform_iff (h : Uniform text) : Spelled Builtin.names text ↔
    (∀ c ∈ text, c ∈ builtinLetters) ∧ ('y' ∈ text → Even text.length) := by
  constructor
  · exact fun hs => ⟨hs.mem_builtinLetters, fun hy => hs.even_length fun c hc => h c hc _ hy⟩
  · rintro ⟨hletters, heven⟩
    by_cases hy : 'y' ∈ text
    · rw [List.eq_replicate_of_mem fun c hc => h c hc _ hy]
      exact spelled_replicate_y (heven hy)
    · exact spelled_of_notMem_y hletters hy

theorem spelled_builtin_iff (text : Text) : Spelled Builtin.names text ↔
    (∀ c ∈ text, c ∈ builtinLetters) ∧
      ∀ block ∈ blocksBy id text, 'y' ∈ block → Even block.length := by
  refine blocksBy_induction id (motive := fun text blocks => Spelled Builtin.names text ↔
      (∀ c ∈ text, c ∈ builtinLetters) ∧ ∀ block ∈ blocks, 'y' ∈ block → Even block.length)
    (iff_of_true .nil ⟨nofun, nofun⟩) (fun a b _ hsame hborder ih => ?_) text
  have hsplit : Spelled Builtin.names (a ++ b) ↔
      Spelled Builtin.names a ∧ Spelled Builtin.names b :=
    ⟨fun h => h.split uniform_of_mem_names hborder, fun h => h.1.append h.2⟩
  rw [hsplit, ih, spelled_uniform_iff hsame, List.forall_mem_append, List.forall_mem_cons,
    and_and_and_comm]

/-! ## Runs of letters in a layout -/

theorem notMem_of_ofLetters (h : OfLetters run) : '[' ∉ run := fun hopen => nomatch h _ hopen

theorem outputSegments_eq_readBlock (h : OfLetters run) :
    outputSegments names run = readBlock names run := by
  rw [outputSegments, segmentsBy_of_notMem (notMem_of_ofLetters h), lexWords_eq_readBlock h]

theorem readBlock_eq_outputSegments : readBlock names = fun block =>
    if OfLetters block then outputSegments names block else [.literal block] := by
  funext block
  split
  next h => exact (outputSegments_eq_readBlock h).symm
  next h => exact if_neg h

/-- Only tokens are read in a run that names make up, and only in such a run. -/
theorem forall_token_iff_covered (h : OfLetters run) :
    (∀ s ∈ outputSegments names run, ∃ n, s = .token n) ↔ Covered names run := by
  rw [outputSegments_eq_readBlock h, readBlock, if_pos h]
  split
  next hcovered =>
    exact iff_of_true (List.forall_mem_map.2 fun o _ => ⟨o.text, rfl⟩) hcovered
  next hnot =>
    refine iff_of_false (fun hall => ?_) hnot
    obtain ⟨n, hn⟩ := hall _ (.head _)
    cases hn

/-- A run of letters is read as tokens if built-in names spell it in any way, that is if it has only
their letters and an even number of `y` wherever some stand together, and else as one word. The runs
of a layout are read like this one by one. -/
theorem outputSegments_builtin_complete (h : OfLetters run) :
    ((∀ s ∈ outputSegments Builtin.names run, ∃ n, s = .token n) ↔ SpelledBuiltin run) ∧
    (SpelledBuiltin run ↔ (∀ c ∈ run, c ∈ builtinLetters) ∧
      ∀ block ∈ blocksBy id run, 'y' ∈ block → Even block.length) ∧
    (¬SpelledBuiltin run → outputSegments Builtin.names run = [.word run]) ∧
    ∀ layout, outputSegments Builtin.names layout = (stretches layout).flatMap (·.read fun text =>
      (blocks text).flatMap fun block =>
        if OfLetters block then outputSegments Builtin.names block else [.literal block]) := by
  have hcovered : Covered Builtin.names run ↔ SpelledBuiltin run :=
    (covered_iff_spelled leavesNames_builtin).trans spelled_names_iff
  refine ⟨(forall_token_iff_covered h).trans hcovered, ?_, fun hnot => ?_, fun layout => ?_⟩
  · rw [← spelled_names_iff, spelled_builtin_iff]
  · rw [outputSegments_eq_readBlock h, readBlock, if_pos h, if_neg (mt hcovered.1 hnot)]
  · rw [outputSegments_eq_flatMap_readBlock Builtin.isAlpha_of_mem_names,
      readBlock_eq_outputSegments]

/-- Five `y` between `dd` and `M` are spelled by no names, six are read as `yyyy` and `yy`. -/
theorem outputSegments_builtin_complete_years :
    outputSegments Builtin.names "ddyyyyyM".toList = [.word "ddyyyyyM".toList] ∧
    ∀ s ∈ outputSegments Builtin.names "ddyyyyyyM".toList, ∃ n, s = .token n := by
  have hodd : OfLetters "ddyyyyyM".toList := by simp [OfLetters]
  have heven : OfLetters "ddyyyyyyM".toList := by simp [OfLetters]
  constructor
  · refine (outputSegments_builtin_complete hodd).2.2.1 fun h => ?_
    have hblocks : blocksBy id "ddyyyyyM".toList = ["dd".toList, "yyyyy".toList, "M".toList] := by
      decide +kernel
    have heven := ((outputSegments_builtin_complete hodd).2.1.1 h).2
    rw [hblocks] at heven
    exact absurd (heven "yyyyy".toList (.tail _ (.head _)) (.head _)) (by decide)
  · exact (outputSegments_builtin_complete heven).1.2 ⟨[.dd, .yyyy, .yy, .M], rfl⟩

end Relayout.Layout
