import DspDispatch.Kit.Collect
import DspDispatch.Kit.Text
import Mathlib.Data.Prod.Lex
import Mathlib.Data.List.Sort

/-!
# Benchmark names (`tools/run_benchmarks.py`, `bench/bench_fft.cpp`, `bench/bench_fir.cpp`)

The harnesses concatenate an operation, the types and the sizes into the name of a
benchmark. The runner takes the names apart again and keys its results by the
operation and a size, which is `N` for a transform and `BxT` for a filter.
-/

namespace DspDispatch.Bench

open Kit

/-! ## The harnesses -/

inductive Operation
  | execute
  | planCreate
deriving DecidableEq, Repr

def Operation.text : Operation → String
  | .execute => "execute"
  | .planCreate => "plan_create"

/-- The name `bench_fft.cpp` registers for the length `n`. -/
def fftName (op : Operation) (n : Nat) : String := op.text ++ "/c2c/f32/" ++ toString n

/-- The name `bench_fir.cpp` registers for a block size and a number of taps. -/
def firName (op : Operation) (block taps : Nat) : String :=
  op.text ++ "/real/f32/block/" ++ (toString block ++ "/taps/" ++ toString taps)

/-- The name of a row of a repeated benchmark. The suffix names an aggregate. -/
def repeated (name : String) (repetitions : Nat) (suffix : String) : String :=
  name ++ "/repeats:" ++ (toString repetitions ++ suffix)

/-! ## The runner -/

variable (u : Unicode)

/-- The numeral that follows the first `word`. -/
def numeralAfter (word : String) (parts : List String) : Option String :=
  if word ∈ parts then (parts[parts.idxOf word + 1]?).filter u.isdigit else none

/-- `parse_bench_name`. -/
def parseBenchName (fullName : String) : String × Option String :=
  let base := before "/repeats:" fullName
  let parts := split '/' base
  let op := parts.headD ""
  match numeralAfter u "block" parts with
  | some block =>
    match numeralAfter u "taps" parts with
    | some taps => (op, some (block ++ "x" ++ taps))
    | none => (op, some block)
  | none => (op, parts.reverse.find? u.isdigit)

/-- The two numerals of a size with an `x` between them. -/
def twoNumerals (size : String) : Option (String × String) :=
  match splitOnce 'x' size with
  | [a, b] => if u.isdigit a && u.isdigit b then some (a, b) else none
  | _ => none

/-- What `size_sort_key` returns, compared component by component. -/
abbrev SortKey : Type := Nat ×ₗ Nat ×ₗ String

/-- `size_sort_key`; `none` is a `ValueError`. -/
def sizeSortKey (size : String) : Option SortKey :=
  match twoNumerals u size with
  | some (a, b) => do
    let a ← u.int a
    let b ← u.int b
    return toLex (a, toLex (b, size))
  | none =>
    if u.isdigit size then (u.int size).map fun n => toLex (n, toLex (0, size))
    else some (toLex (0, toLex (0, size)))

/-- `sorted(sizes, key=size_sort_key)`. -/
def sortedBySize (sizes : List String) : Option (List String) := do
  let keyed ← sizes.mapM fun size => (sizeSortKey u size).map fun key => (key, size)
  return (keyed.mergeSort fun a b => a.1 ≤ b.1).map Prod.snd

/-- `split_fir_size`: `none` is a `ValueError`, `some none` a size of another form. -/
def splitFirSize (size : String) : Option (Option (Nat × Nat)) :=
  match twoNumerals u size with
  | none => some none
  | some (a, b) => do
    let a ← u.int a
    let b ← u.int b
    return some (a, b)

/-- The size of a filter, `BxT`. -/
def firSize (block taps : Nat) : String := toString block ++ "x" ++ toString taps

/-! ## Taking names apart -/

variable {u}

theorem fftName_eq (op : Operation) (n : Nat) :
    fftName op n = (String.singleton '/').intercalate [op.text, "c2c", "f32", toString n] := by
  apply String.toList_inj.mp
  simp [fftName]

theorem firName_eq (op : Operation) (block taps : Nat) :
    firName op block taps = (String.singleton '/').intercalate
      [op.text, "real", "f32", "block", toString block, "taps", toString taps] := by
  apply String.toList_inj.mp
  simp [firName]

theorem before_repeated {name : String} (absent : ':' ∉ name.toList) (repetitions : Nat)
    (suffix : String) : before "/repeats:" (repeated name repetitions suffix) = name := by
  have shape : "/repeats:".toList = '/' :: "repeats:".toList := by decide
  exact before_append shape (by decide) (c := ':') (by decide) absent _

/-- A numeral is no word. -/
theorem toString_ne {c : Char} {word : String} (member : c ∈ word.toList)
    (other : c.isDigit = false) (n : Nat) : toString n ≠ word := by
  intro same
  exact notMem_toString other n (same ▸ member)

theorem numeralAfter_append {word numeral : String} {front : List String} (absent : word ∉ front)
    (digits : u.isdigit numeral = true) (rest : List String) :
    numeralAfter u word (front ++ word :: numeral :: rest) = some numeral := by
  have member : word ∈ front ++ word :: numeral :: rest :=
    List.mem_append_right front List.mem_cons_self
  have index : (front ++ word :: numeral :: rest).idxOf word = front.length := by
    rw [List.idxOf_append_of_notMem absent, List.idxOf_cons_self, Nat.add_zero]
  have next : (front ++ word :: numeral :: rest)[front.length + 1]? = some numeral := by
    have offset : front.length + 1 - front.length = 1 := by omega
    rw [List.getElem?_append_right (Nat.le_succ _), offset]
    rfl
  rw [numeralAfter, if_pos member, index, next]
  exact Option.filter_some_pos digits

theorem numeralAfter_of_absent {word : String} {parts : List String} (absent : word ∉ parts) :
    numeralAfter u word parts = none := if_neg absent

/-! ## What the runner finds in a name -/

theorem notMem_text (op : Operation) : ':' ∉ op.text.toList ∧ '/' ∉ op.text.toList := by
  cases op <;> decide

theorem notMem_fftName (op : Operation) (n : Nat) : ':' ∉ (fftName op n).toList := by
  have numeral : ':' ∉ (toString n).toList := notMem_toString (by decide) n
  simp only [fftName, String.toList_append, List.mem_append, not_or]
  exact ⟨⟨(notMem_text op).1, by decide⟩, numeral⟩

theorem notMem_firName (op : Operation) (block taps : Nat) :
    ':' ∉ (firName op block taps).toList := by
  have first : ':' ∉ (toString block).toList := notMem_toString (by decide) block
  have second : ':' ∉ (toString taps).toList := notMem_toString (by decide) taps
  simp only [firName, String.toList_append, List.mem_append, not_or]
  exact ⟨⟨(notMem_text op).1, by decide⟩, ⟨first, by decide⟩, second⟩

theorem split_fftName (op : Operation) (n : Nat) :
    split '/' (fftName op n) = [op.text, "c2c", "f32", toString n] := by
  have numeral : '/' ∉ (toString n).toList := notMem_toString (by decide) n
  rw [fftName_eq]
  refine split_intercalate ?_ (List.cons_ne_nil _ _)
  simp only [List.forall_mem_cons]
  exact ⟨(notMem_text op).2, by decide, by decide, numeral, List.forall_mem_nil _⟩

theorem split_firName (op : Operation) (block taps : Nat) :
    split '/' (firName op block taps) =
      [op.text, "real", "f32", "block", toString block, "taps", toString taps] := by
  have first : '/' ∉ (toString block).toList := notMem_toString (by decide) block
  have second : '/' ∉ (toString taps).toList := notMem_toString (by decide) taps
  rw [firName_eq]
  refine split_intercalate ?_ (List.cons_ne_nil _ _)
  simp only [List.forall_mem_cons]
  exact ⟨(notMem_text op).2, by decide, by decide, by decide, first, by decide, second,
    List.forall_mem_nil _⟩

theorem parse_of_base_fftName {name : String} {op : Operation} {n : Nat}
    (base : before "/repeats:" name = fftName op n) :
    parseBenchName u name = (op.text, some (toString n)) := by
  have absent : "block" ∉ [op.text, "c2c", "f32", toString n] := by
    have first : "block" ≠ op.text := by cases op <;> decide
    have last : "block" ≠ toString n := (toString_ne (c := 'b') (by decide) (by decide) n).symm
    simp only [List.mem_cons, List.not_mem_nil, or_false, not_or]
    exact ⟨first, by decide, by decide, last⟩
  have last : [op.text, "c2c", "f32", toString n].reverse.find? u.isdigit = some (toString n) :=
    List.find?_cons_of_pos (Unicode.isdigit_toString n)
  rw [parseBenchName, base, split_fftName, numeralAfter_of_absent absent, last]
  rfl

theorem parse_of_base_firName {name : String} {op : Operation} {block taps : Nat}
    (base : before "/repeats:" name = firName op block taps) :
    parseBenchName u name = (op.text, some (firSize block taps)) := by
  have noBlock : "block" ∉ [op.text, "real", "f32"] := by cases op <;> decide
  have noTaps : "taps" ∉ [op.text, "real", "f32", "block", toString block] := by
    have first : "taps" ≠ op.text := by cases op <;> decide
    have last : "taps" ≠ toString block :=
      (toString_ne (c := 't') (by decide) (by decide) block).symm
    simp only [List.mem_cons, List.not_mem_nil, or_false, not_or]
    exact ⟨first, by decide, by decide, by decide, last⟩
  have atBlock : numeralAfter u "block"
      [op.text, "real", "f32", "block", toString block, "taps", toString taps] =
        some (toString block) :=
    numeralAfter_append noBlock (Unicode.isdigit_toString block) _
  have atTaps : numeralAfter u "taps"
      [op.text, "real", "f32", "block", toString block, "taps", toString taps] =
        some (toString taps) :=
    numeralAfter_append noTaps (Unicode.isdigit_toString taps) _
  rw [parseBenchName, base, split_firName, atBlock, atTaps]
  rfl

/-! ## Sizes -/

theorem twoNumerals_firSize (block taps : Nat) :
    twoNumerals u (firSize block taps) = some (toString block, toString taps) := by
  have cut : splitOnce 'x' (firSize block taps) = [toString block, toString taps] :=
    splitOnce_append (notMem_toString (by decide) block) _
  have digits : (u.isdigit (toString block) && u.isdigit (toString taps)) = true := by
    rw [Unicode.isdigit_toString, Unicode.isdigit_toString, Bool.and_true]
  rw [twoNumerals, cut]
  exact if_pos digits

theorem twoNumerals_toString (n : Nat) : twoNumerals u (toString n) = none := by
  have absent : 'x' ∉ (toString n).toList := notMem_toString (by decide) n
  rw [twoNumerals, splitOnce_of_absent absent]

theorem splitFirSize_firSize (block taps : Nat) :
    splitFirSize u (firSize block taps) = some (some (block, taps)) := by
  simp only [splitFirSize, twoNumerals_firSize, Unicode.int_toString]
  rfl

/-- A size is not read as another one. -/
theorem firSize_injective {block taps block' taps' : Nat}
    (same : firSize block taps = firSize block' taps') : block = block' ∧ taps = taps' := by
  have read := splitFirSize_firSize (u := .ascii) block taps
  rw [same, splitFirSize_firSize] at read
  simpa [eq_comm] using read

theorem firSize_ne_toString (block taps n : Nat) : firSize block taps ≠ toString n := by
  intro same
  have read := twoNumerals_firSize (u := .ascii) block taps
  rw [same, twoNumerals_toString] at read
  cases read

theorem text_injective {op op' : Operation} (same : op.text = op'.text) : op = op' := by
  cases op <;> cases op' <;> first | rfl | exact absurd same (by decide)

/-! ## Sorting sizes -/

theorem sizeSortKey_firSize (block taps : Nat) :
    sizeSortKey u (firSize block taps) =
      some (toLex (block, toLex (taps, firSize block taps))) := by
  simp only [sizeSortKey, twoNumerals_firSize, Unicode.int_toString]
  rfl

theorem sizeSortKey_toString (n : Nat) :
    sizeSortKey u (toString n) = some (toLex (n, toLex (0, toString n))) := by
  simp only [sizeSortKey, twoNumerals_toString, Unicode.isdigit_toString, if_true,
    Unicode.int_toString, Option.map_some]

theorem keyed_map {ι : Type*} {name : ι → String} {key : ι → SortKey}
    (keys : ∀ i, sizeSortKey u (name i) = some (key i)) (l : List ι) :
    ((l.map name).mapM fun size => (sizeSortKey u size).map fun key => (key, size)) =
      some (l.map fun i => (key i, name i)) := by
  rw [mapM_eq_some_iff, List.map_map, List.map_map]
  refine List.map_congr_left ?_
  intro i _
  simp only [Function.comp_apply, keys, Option.map_some]

theorem map_snd_of_keyed {sizes : List String} {keyed : List (SortKey × String)}
    (paired : (sizes.mapM fun size => (sizeSortKey u size).map fun key => (key, size)) =
      some keyed) : keyed.map Prod.snd = sizes := by
  have origin : ∀ (size : String) (pair : SortKey × String),
      (sizeSortKey u size).map (fun key => (key, size)) = some pair → pair.2 = id size := by
    intro size pair found
    obtain ⟨key, -, rfl⟩ := Option.map_eq_some_iff.mp found
    rfl
  exact (map_of_mapM origin paired).trans (List.map_id sizes)

theorem exists_sortedBySize {sizes : List String}
    (keys : ∀ size ∈ sizes, ∃ key, sizeSortKey u size = some key) :
    ∃ sorted, sortedBySize u sizes = some sorted := by
  have each : ∀ size ∈ sizes, ∃ pair,
      (sizeSortKey u size).map (fun key => (key, size)) = some pair := by
    intro size member
    obtain ⟨key, found⟩ := keys size member
    exact ⟨(key, size), by rw [found, Option.map_some]⟩
  obtain ⟨keyed, paired⟩ := exists_mapM each
  exact ⟨_, by rw [sortedBySize, paired]; rfl⟩

theorem sortedBySize_perm {sizes sorted : List String}
    (result : sortedBySize u sizes = some sorted) : sorted.Perm sizes := by
  obtain ⟨keyed, paired, result⟩ := Option.bind_eq_some_iff.mp result
  cases result
  rw [← map_snd_of_keyed paired]
  exact (List.mergeSort_perm keyed _).map Prod.snd

/-- Sizes are sorted as what they stand for, when the keys compare like that. -/
theorem sortedBySize_map {ι : Type*} {name : ι → String} {key : ι → SortKey} {order : ι → ι → Bool}
    (keys : ∀ i, sizeSortKey u (name i) = some (key i))
    (compares : ∀ i j, order i j = decide (key i ≤ key j)) (l : List ι) :
    sortedBySize u (l.map name) = some ((l.mergeSort order).map name) := by
  have sorted : (l.mergeSort order).map (fun i => (key i, name i)) =
      (l.map fun i => (key i, name i)).mergeSort fun a b => a.1 ≤ b.1 :=
    List.map_mergeSort fun i _ j _ => compares i j
  rw [sortedBySize, keyed_map keys]
  refine congrArg some ?_
  rw [← sorted, List.map_map]
  rfl

/-- A size of a filter. -/
abbrev BlockTaps : Type := Nat × Nat

theorem firKey_le_iff (a b : BlockTaps) :
    (toLex (a.1, toLex (a.2, firSize a.1 a.2)) : SortKey) ≤
      toLex (b.1, toLex (b.2, firSize b.1 b.2)) ↔ toLex a ≤ toLex b := by
  obtain ⟨block, taps⟩ := a
  obtain ⟨block', taps'⟩ := b
  simp only [Prod.Lex.toLex_le_toLex]
  constructor
  · intro le
    rcases le with less | ⟨rfl, less | ⟨rfl, -⟩⟩
    · exact Or.inl less
    · exact Or.inr ⟨rfl, Nat.le_of_lt less⟩
    · exact Or.inr ⟨rfl, Nat.le_refl _⟩
  · intro le
    rcases le with less | ⟨rfl, le⟩
    · exact Or.inl less
    · refine Or.inr ⟨rfl, ?_⟩
      rcases Nat.lt_or_eq_of_le le with less | rfl
      · exact Or.inl less
      · exact Or.inr ⟨rfl, le_rfl⟩

theorem fftKey_le_iff (m n : Nat) :
    (toLex (m, toLex (0, toString m)) : SortKey) ≤ toLex (n, toLex (0, toString n)) ↔ m ≤ n := by
  simp only [Prod.Lex.toLex_le_toLex, Nat.lt_irrefl, false_or, true_and]
  constructor
  · intro le
    rcases le with less | ⟨rfl, -⟩
    · exact Nat.le_of_lt less
    · exact Nat.le_refl _
  · intro le
    rcases Nat.lt_or_eq_of_le le with less | rfl
    · exact Or.inl less
    · exact Or.inr ⟨rfl, le_rfl⟩

theorem sortedBySize_fir (l : List BlockTaps) :
    sortedBySize u (l.map fun a => firSize a.1 a.2) =
      some ((l.mergeSort fun a b => toLex a ≤ toLex b).map fun a => firSize a.1 a.2) := by
  have keys : ∀ a : BlockTaps, sizeSortKey u (firSize a.1 a.2) =
      some (toLex (a.1, toLex (a.2, firSize a.1 a.2))) :=
    fun a => sizeSortKey_firSize a.1 a.2
  refine sortedBySize_map keys ?_ l
  intro a b
  exact decide_eq_decide.mpr (firKey_le_iff a b).symm

theorem sortedBySize_fft (l : List Nat) :
    sortedBySize u (l.map toString) = some ((l.mergeSort (· ≤ ·)).map toString) := by
  refine sortedBySize_map sizeSortKey_toString ?_ l
  intro m n
  exact decide_eq_decide.mpr (fftKey_le_iff m n).symm

/-- Every name the harnesses register, with or without the suffix of a repetition, is
read as the operation and the size it was made of. Sizes are read back, are distinct
for distinct benchmarks and sorted like the numbers they stand for. -/
theorem benchName_roundTrip (u : Unicode) :
    (∀ op n, parseBenchName u (fftName op n) = (op.text, some (toString n))) ∧
      (∀ op n repetitions suffix, parseBenchName u (repeated (fftName op n) repetitions suffix) =
        (op.text, some (toString n))) ∧
      (∀ op block taps,
        parseBenchName u (firName op block taps) = (op.text, some (firSize block taps))) ∧
      (∀ op block taps repetitions suffix,
        parseBenchName u (repeated (firName op block taps) repetitions suffix) =
          (op.text, some (firSize block taps))) ∧
      (∀ block taps, splitFirSize u (firSize block taps) = some (some (block, taps))) ∧
      (∀ (op : Operation) (n : Nat) (op' : Operation) (n' : Nat),
        (op.text, toString n) = (op'.text, toString n') ↔ (op, n) = (op', n')) ∧
      (∀ (op : Operation) (block taps : Nat) (op' : Operation) (block' taps' : Nat),
        (op.text, firSize block taps) = (op'.text, firSize block' taps') ↔
          (op, block, taps) = (op', block', taps')) ∧
      (∀ (op : Operation) (block taps : Nat) (op' : Operation) (n : Nat),
        (op.text, firSize block taps) ≠ (op'.text, toString n)) ∧
      (∀ l : List Nat, sortedBySize u (l.map toString) =
        some ((l.mergeSort (· ≤ ·)).map toString)) ∧
      ∀ l : List (Nat × Nat), sortedBySize u (l.map fun a => firSize a.1 a.2) =
        some ((l.mergeSort fun a b => toLex a ≤ toLex b).map fun a => firSize a.1 a.2) := by
  refine ⟨?_, ?_, ?_, ?_, splitFirSize_firSize, ?_, ?_, ?_, sortedBySize_fft, sortedBySize_fir⟩
  · intro op n
    exact parse_of_base_fftName (before_of_absent (by decide) (notMem_fftName op n))
  · intro op n repetitions suffix
    exact parse_of_base_fftName (before_repeated (notMem_fftName op n) repetitions suffix)
  · intro op block taps
    exact parse_of_base_firName (before_of_absent (by decide) (notMem_firName op block taps))
  · intro op block taps repetitions suffix
    exact parse_of_base_firName (before_repeated (notMem_firName op block taps) repetitions suffix)
  · intro op n op' n'
    refine ⟨?_, fun same => by cases same; rfl⟩
    intro same
    obtain ⟨operation, size⟩ := Prod.mk.inj same
    rw [text_injective operation, toString_injective size]
  · intro op block taps op' block' taps'
    refine ⟨?_, fun same => by cases same; rfl⟩
    intro same
    obtain ⟨operation, size⟩ := Prod.mk.inj same
    obtain ⟨rfl, rfl⟩ := firSize_injective size
    rw [text_injective operation]
  · intro op block taps op' n same
    exact firSize_ne_toString block taps n (Prod.mk.inj same).2

end DspDispatch.Bench
