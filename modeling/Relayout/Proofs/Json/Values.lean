import Relayout.Json.Value
import Relayout.Proofs.Json.Tokens

/-!
# The form of values in JSON texts

* `Value.tokens`: the tokens of a value. Between the items of an array and between the members of an
  object stands a comma, and between a key and its value a colon.
* `Value.Written`: a text that has the tokens of a value.

The value of a sequence of tokens is the one with these tokens (`Value.ofTokens?_eq_some_iff`), and
the value of a text is the one written in it (`Value.read?_eq_some_iff`). Every value can be written
whose numbers have the form of numbers (`Value.exists_written_iff`).
-/

namespace Relayout.Json

namespace Value

/-! ## The parts of a value -/

theorem sizeOf_snd_lt {members : Members} {m : Option Text × Value} (h : m ∈ members) :
    sizeOf m.2 < sizeOf members := by
  have := List.sizeOf_lt_of_mem h
  have : sizeOf m = 1 + sizeOf m.1 + sizeOf m.2 := rfl
  omega

/-- The tokens of a value, in the order of the text. -/
def tokens : Value → List Token
  | null => [.null]
  | bool b => [.bool b]
  | number literal => [.number literal]
  | string text => [.string text]
  | array items => .leftBracket :: [.comma].intercalate (items.map tokens) ++ [.rightBracket]
  | object members =>
    .leftBrace :: [.comma].intercalate (members.map fun m => .string m.1 :: .colon :: m.2.tokens) ++
      [.rightBrace]
decreasing_by
  · have := List.sizeOf_lt_of_mem ‹_›
    simp only [array.sizeOf_spec]
    omega
  · have := sizeOf_snd_lt ‹_›
    simp only [object.sizeOf_spec]
    omega

/-- Induction over the items of arrays and the values of members. -/
@[elab_as_elim]
theorem induction {motive : Value → Prop} (null : motive null) (bool : ∀ b, motive (bool b))
    (number : ∀ literal, motive (number literal)) (string : ∀ text, motive (string text))
    (array : ∀ items, (∀ v ∈ items, motive v) → motive (array items))
    (object : ∀ members : Members, (∀ m ∈ members, motive m.2) → motive (object members))
    (v : Value) : motive v :=
  tokens.induct motive null bool number string array object v

/-- The tokens of a member of an object. -/
def memberTokens (m : Option Text × Value) : List Token := .string m.1 :: .colon :: m.2.tokens

theorem tokens_array (items : List Value) : (array items).tokens =
    .leftBracket :: [.comma].intercalate (items.map tokens) ++ [.rightBracket] := by
  rw [tokens]

theorem tokens_object (members : Members) : (object members).tokens =
    .leftBrace :: [.comma].intercalate (members.map memberTokens) ++ [.rightBrace] := by
  rw [tokens]
  rfl

end Value

open Value (memberTokens)

variable {α : Type} {s s' : State} {t : Token} {ts : List Token} {v : Value} {stack : List Frame}
  {text : Text}

/-! ## Lists with commas -/

/-- Of the things in a list with commas between them, all but the last have a comma behind them. -/
theorem intercalate_comma_append (f : α → List Token) (xs : List α) (x : α) :
    [.comma].intercalate ((xs ++ [x]).map f) = (xs.flatMap fun y => f y ++ [.comma]) ++ f x := by
  induction xs with
  | nil =>
    rw [List.nil_append, List.map_singleton, List.intercalate_singleton]
    rfl
  | cons y ys ih =>
    have hne : (ys ++ [x]).map f ≠ [] := by simp
    rw [List.cons_append, List.map_cons, List.intercalate_cons_of_ne_nil hne, ih,
      List.flatMap_cons, List.append_assoc, List.append_assoc, List.append_assoc]

/-- Of the things in a list with commas between them, all but the first have a comma before them. -/
theorem intercalate_comma_cons (f : α → List Token) (x : α) (xs : List α) :
    [.comma].intercalate ((x :: xs).map f) = f x ++ xs.flatMap fun y => .comma :: f y := by
  induction xs generalizing x with
  | nil => rw [List.map_singleton, List.intercalate_singleton, List.flatMap_nil, List.append_nil]
  | cons y ys ih =>
    rw [List.map_cons, List.map_cons, List.intercalate_cons_cons, ← List.map_cons, ih,
      List.flatMap_cons, List.append_assoc, List.singleton_append, List.cons_append]

/-! ## What has been read -/

/-- The tokens of an open array or object up to its next value. -/
def Frame.tokens : Frame → List Token
  | .array items => .leftBracket :: items.reverse.flatMap fun v => v.tokens ++ [.comma]
  | .object members key =>
    .leftBrace :: (members.reverse.flatMap fun m => memberTokens m ++ [.comma]) ++
      [.string key, .colon]

def stackTokens (stack : List Frame) : List Token := stack.reverse.flatMap Frame.tokens

theorem stackTokens_cons (f : Frame) (stack : List Frame) :
    stackTokens (f :: stack) = stackTokens stack ++ f.tokens := by
  simp only [stackTokens, List.reverse_cons, List.flatMap_append, List.flatMap_singleton]

namespace State

/-- The tokens that have led to a state. -/
def tokens : State → List Token
  | value stack => stackTokens stack
  | arrayStart stack => stackTokens stack ++ [.leftBracket]
  | objectStart stack => stackTokens stack ++ [.leftBrace]
  | key stack members => stackTokens stack ++
      .leftBrace :: members.reverse.flatMap fun m => memberTokens m ++ [.comma]
  | colon stack members k => stackTokens stack ++
      .leftBrace :: (members.reverse.flatMap fun m => memberTokens m ++ [.comma]) ++ [.string k]
  | done stack v => stackTokens stack ++ v.tokens

theorem tokens_of_begin? (h : begin? stack t = some s) : s.tokens = stackTokens stack ++ [t] := by
  cases t <;> cases h <;> first | rfl | simp only [tokens, Value.tokens]

/-- Each step reads its token and loses none of those before. -/
theorem tokens_of_step? (h : step? s t = some s') : s'.tokens = s.tokens ++ [t] := by
  unfold step? at h
  split at h
  case h_1 => exact tokens_of_begin? h
  case h_3 => rw [tokens_of_begin? h, stackTokens_cons]; rfl
  case h_12 => exact nomatch h
  all_goals
    cases h
    simp only [tokens, stackTokens_cons, Frame.tokens, memberTokens, Value.tokens_array,
      Value.tokens_object, List.reverse_cons, intercalate_comma_append, List.map_nil,
      List.intercalate_nil, List.reverse_nil, List.flatMap_nil, List.flatMap_append,
      List.flatMap_singleton, List.append_assoc, List.cons_append, List.nil_append]

theorem tokens_of_foldlM_step? (h : ts.foldlM step? s = some s') : s'.tokens = s.tokens ++ ts := by
  induction ts generalizing s with
  | nil =>
    obtain rfl := Option.some.inj h
    rw [List.append_nil]
  | cons t ts ih =>
    obtain ⟨s'', hstep, hrest⟩ := Option.bind_eq_some_iff.1 h
    rw [ih hrest, tokens_of_step? hstep, List.append_assoc, List.singleton_append]

/-! ## Reading the tokens of a value -/

/-- All tokens of a value are read, whatever is open around it. -/
def Reads (v : Value) : Prop :=
  ∀ stack, v.tokens.foldlM step? (.value stack) = some (.done stack v)

theorem Reads.foldlM_append (h : Reads v) (stack : List Frame) (ts : List Token) :
    (v.tokens ++ ts).foldlM step? (.value stack) = ts.foldlM step? (.done stack v) := by
  rw [List.foldlM_append, h stack]
  rfl

/-- The first item of an array is read like a further one, as no value begins with the end of an
array. -/
theorem foldlM_step?_arrayStart (v : Value) (stack : List Frame) (ts : List Token) :
    (v.tokens ++ ts).foldlM step? (.arrayStart stack) =
      (v.tokens ++ ts).foldlM step? (.value (.array [] :: stack)) := by
  cases v <;> rw [Value.tokens] <;> rfl

/-- The items that are left, up to the end of the array. -/
theorem foldlM_step?_items {items : List Value} (h : ∀ v ∈ items, Reads v) (v : Value)
    (before : List Value) (stack : List Frame) :
    ((items.flatMap fun v => Token.comma :: v.tokens) ++ [Token.rightBracket]).foldlM step?
      (.done (.array before :: stack) v) =
        some (.done stack (.array (before.reverse ++ v :: items))) := by
  induction items generalizing v before with
  | nil =>
    rw [← List.reverse_cons]
    rfl
  | cons w items ih =>
    obtain ⟨hw, hitems⟩ := List.forall_mem_cons.1 h
    rw [List.flatMap_cons, List.append_assoc]
    refine (hw.foldlM_append (.array (v :: before) :: stack) _).trans ?_
    rw [ih hitems, List.reverse_cons, List.append_assoc, List.singleton_append]

/-- The members that are left, up to the end of the object. -/
theorem foldlM_step?_members {members : Members} (h : ∀ m ∈ members, Reads m.2)
    (m : Option Text × Value) (before : Members) (stack : List Frame) :
    ((members.flatMap fun m => Token.comma :: memberTokens m) ++ [Token.rightBrace]).foldlM step?
      (.done (.object before m.1 :: stack) m.2) =
        some (.done stack (.object (before.reverse ++ m :: members))) := by
  induction members generalizing m before with
  | nil =>
    rw [← List.reverse_cons]
    rfl
  | cons m' members ih =>
    obtain ⟨hm', hmembers⟩ := List.forall_mem_cons.1 h
    rw [List.flatMap_cons, List.append_assoc]
    refine (hm'.foldlM_append (.object (m :: before) m'.1 :: stack) _).trans ?_
    rw [ih hmembers, List.reverse_cons, List.append_assoc, List.singleton_append]

theorem reads (v : Value) : Reads v := by
  induction v using Value.induction with
  | array items ih =>
    intro stack
    rw [Value.tokens_array]
    cases items with
    | nil => rfl
    | cons v items =>
      obtain ⟨hv, hitems⟩ := List.forall_mem_cons.1 ih
      rw [intercalate_comma_cons, List.cons_append, List.append_assoc]
      refine (foldlM_step?_arrayStart v stack _).trans ?_
      rw [hv.foldlM_append, foldlM_step?_items hitems]
      rfl
  | object members ih =>
    intro stack
    rw [Value.tokens_object]
    cases members with
    | nil => rfl
    | cons m members =>
      obtain ⟨hm, hmembers⟩ := List.forall_mem_cons.1 ih
      rw [intercalate_comma_cons, List.cons_append, List.append_assoc]
      refine (hm.foldlM_append (.object [] m.1 :: stack) _).trans ?_
      rw [foldlM_step?_members hmembers]
      rfl
  | _ =>
    intro stack
    rw [Value.tokens]
    rfl

end State

namespace Value

/-- The value of a sequence of tokens is the one that has these tokens. -/
theorem ofTokens?_eq_some_iff : ofTokens? ts = some v ↔ ts = v.tokens := by
  rw [ofTokens?, Option.bind_eq_some_iff]
  constructor
  · rintro ⟨s, hrun, hresult⟩
    have htokens := State.tokens_of_foldlM_step? hrun
    unfold State.result? at hresult
    split at hresult
    next =>
      cases hresult
      exact htokens.symm
    next => exact nomatch hresult
  · rintro rfl
    exact ⟨_, State.reads v [], rfl⟩

/-! ## Texts of values -/

/-- Where a token is no number, its neighbours may be numbers. -/
theorem isChain_apart_append {ts' : List Token} (hts : ts.IsChain Token.Apart)
    (hts' : ts'.IsChain Token.Apart) (ht : t.isNumber = false) :
    (ts ++ t :: ts').IsChain Token.Apart := by
  refine List.isChain_append.2 ⟨hts, List.isChain_cons.2 ⟨fun _ _ => .inl ht, hts'⟩, ?_⟩
  rintro x - y hy
  cases hy
  exact .inr ht

theorem isChain_apart_bracketed {t' : Token} (hts : ts.IsChain Token.Apart)
    (ht : t.isNumber = false) (ht' : t'.isNumber = false) :
    (t :: ts ++ [t']).IsChain Token.Apart :=
  isChain_apart_append (isChain_apart_append .nil hts ht) .nil ht'

theorem isChain_apart_intercalate {f : α → List Token} {xs : List α}
    (h : ∀ x ∈ xs, (f x).IsChain Token.Apart) :
    ([.comma].intercalate (xs.map f)).IsChain Token.Apart := by
  cases xs with
  | nil => exact .nil
  | cons x xs =>
    rw [intercalate_comma_cons]
    induction xs generalizing x with
    | nil =>
      rw [List.flatMap_nil, List.append_nil]
      exact h x (.head _)
    | cons y ys ih =>
      obtain ⟨hx, hys⟩ := List.forall_mem_cons.1 h
      exact isChain_apart_append hx (ih y hys) rfl

theorem isChain_apart_tokens (v : Value) : v.tokens.IsChain Token.Apart := by
  induction v using Value.induction with
  | array items ih =>
    rw [tokens_array]
    exact isChain_apart_bracketed (isChain_apart_intercalate ih) rfl rfl
  | object members ih =>
    rw [tokens_object]
    refine isChain_apart_bracketed (isChain_apart_intercalate fun m hm => ?_) rfl rfl
    exact isChain_apart_append (List.isChain_singleton _) (ih m hm) rfl
  | _ =>
    rw [tokens]
    exact List.isChain_singleton _

/-- The text has the tokens of the value, with white space where it likes to be. -/
def Written (text : Text) (v : Value) : Prop := Token.Spaced text v.tokens

/-- The value of a text is the one that is written in it. -/
theorem read?_eq_some_iff : read? text = some v ↔ Written text v := by
  rw [read?, Option.bind_eq_some_iff]
  constructor
  · rintro ⟨ts, hts, hv⟩
    obtain rfl := ofTokens?_eq_some_iff.1 hv
    exact Token.spaced_of_scanAll? hts
  · intro h
    exact ⟨_, Token.scanAll?_of_spaced h (isChain_apart_tokens v), ofTokens?_eq_some_iff.2 rfl⟩

/-! ## Values that can be written -/

/-- The numbers in a value have the form of numbers. -/
def Writable (v : Value) : Prop := ∀ d, .number d ∈ v.tokens → IsNumber d

theorem exists_written_iff : (∃ text, Written text v) ↔ v.Writable := Token.exists_spaced_iff

theorem number_mem_intercalate {d : Text} {f : α → List Token} {xs : List α} :
    .number d ∈ [.comma].intercalate (xs.map f) ↔ ∃ x ∈ xs, .number d ∈ f x := by
  cases xs with
  | nil => simp [List.intercalate_nil]
  | cons x xs =>
    rw [intercalate_comma_cons]
    simp

theorem writable_null : null.Writable := fun d hd => by simp [tokens] at hd

theorem writable_string (text : Option Text) : (string text).Writable := fun d hd => by
  simp [tokens] at hd

theorem writable_number {d : Text} : (number d).Writable ↔ IsNumber d := by
  simp [Writable, tokens]

theorem writable_array {items : List Value} : (array items).Writable ↔ ∀ v ∈ items, v.Writable := by
  simp only [Writable, tokens_array, List.cons_append, List.mem_cons, List.mem_append,
    number_mem_intercalate, List.not_mem_nil, reduceCtorEq, false_or, or_false]
  exact ⟨fun h v hv d hd => h d ⟨v, hv, hd⟩, fun h d ⟨v, hv, hd⟩ => h v hv d hd⟩

theorem writable_object {members : Members} :
    (object members).Writable ↔ ∀ m ∈ members, m.2.Writable := by
  simp only [Writable, tokens_object, List.cons_append, List.mem_cons, List.mem_append,
    number_mem_intercalate, memberTokens, List.not_mem_nil, reduceCtorEq,
    false_or, or_false]
  exact ⟨fun h m hm d hd => h d ⟨m, hm, hd⟩, fun h d ⟨m, hm, hd⟩ => h m hm d hd⟩

/-- Values that can be written can also be written as the members of an object and as the items of
an array. -/
theorem exists_written_entries {es : List (Text × Value)} (h : ∀ e ∈ es, e.2.Writable) :
    (∃ text, Written text (object (es.map fun e => (some e.1, e.2)))) ∧
      ∃ text, Written text (array (es.map (·.2))) :=
  ⟨exists_written_iff.2 (writable_object.2 (List.forall_mem_map.2 h)),
    exists_written_iff.2 (writable_array.2 (List.forall_mem_map.2 h))⟩

end Value
end Relayout.Json
