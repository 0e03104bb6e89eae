import DspDispatch.Kit.Loop
import Mathlib.Logic.Function.Basic
import Mathlib.Tactic.Common

/-!
# Arrays, lanes and a block memory

Three layers of one notion, an array that is read and written in place.

* `segment xs k n` and `overwrite xs k ys` are the read and the write of a slice
  of a list.
* `lanes n f` is `n` slices laid out back to back; when all have one length,
  the slice of lane `b` starts at `b` times that length.
* `Mem α` is a memory of numbered blocks, each a list of cells, and a `Ptr` is
  a block and an offset into it. A `load` or `store` outside the block is a
  fault (`none`). Two buffers are distinct objects when their blocks differ,
  and may also be two disjoint parts of one block (`Apart`).
-/

namespace Kit

universe u

variable {α : Type u}

/-! ## Slices of a list -/

/-- The `n` entries from position `k`. -/
def segment (xs : List α) (k n : Nat) : List α := (xs.drop k).take n

/-- Replace the entries from position `k` by `ys`. -/
def overwrite (xs : List α) (k : Nat) (ys : List α) : List α :=
  xs.take k ++ ys ++ xs.drop (k + ys.length)

theorem length_segment {xs : List α} {k n : Nat} (fits : k + n ≤ xs.length) :
    (segment xs k n).length = n := by
  simp only [segment, List.length_take, List.length_drop]
  omega

theorem getElem?_segment (xs : List α) (k n i : Nat) :
    (segment xs k n)[i]? = if i < n then xs[k + i]? else none := by
  simp only [segment, List.getElem?_take, List.getElem?_drop]

/-- Two slices with equal entries are equal. -/
theorem segment_eq_segment {xs ys : List α} {k l n : Nat}
    (same : ∀ i, i < n → xs[k + i]? = ys[l + i]?) : segment xs k n = segment ys l n := by
  apply List.ext_getElem?
  intro i
  rw [getElem?_segment, getElem?_segment]
  split
  · exact same i ‹_›
  · rfl

/-- A longer segment ends with one more cell. -/
theorem segment_succ {xs : List α} {k n : Nat} {v : α} (cell : xs[k + n]? = some v) :
    segment xs k (n + 1) = segment xs k n ++ [v] := by
  rw [segment, segment, List.take_add_one, List.getElem?_drop, cell, Option.toList_some]

theorem segment_two {xs : List α} {k : Nat} {v w : α} (first : xs[k]? = some v)
    (second : xs[k + 1]? = some w) : segment xs k 2 = [v, w] := by
  rw [segment_succ second, segment_succ (n := 0) first]
  simp [segment]

/-- Adjacent segments. -/
theorem segment_append (xs : List α) (k n l : Nat) :
    segment xs k n ++ segment xs (k + n) l = segment xs k (n + l) := by
  rw [segment, segment, segment, ← List.drop_drop, ← List.take_add]

theorem segment_all (xs : List α) : segment xs 0 xs.length = xs := by
  simp [segment]

theorem getElem?_eq_getD {xs : List α} {i : Nat} (v : α) (below : i < xs.length) :
    xs[i]? = some (xs.getD i v) := by
  simp [List.getD_eq_getElem?_getD, List.getElem?_eq_getElem below]

theorem segment_segment {xs : List α} {k n l m : Nat} (inside : l + m ≤ n) :
    segment (segment xs k n) l m = segment xs (k + l) m := by
  apply List.ext_getElem?
  intro i
  simp only [getElem?_segment]
  by_cases small : i < m
  · rw [if_pos small, if_pos small, if_pos (by omega), Nat.add_assoc]
  · rw [if_neg small, if_neg small]

theorem length_overwrite {xs ys : List α} {k : Nat} (fits : k + ys.length ≤ xs.length) :
    (overwrite xs k ys).length = xs.length := by
  simp only [overwrite, List.length_append, List.length_take, List.length_drop]
  omega

theorem getElem?_overwrite {xs ys : List α} {k : Nat} (fits : k + ys.length ≤ xs.length)
    (i : Nat) :
    (overwrite xs k ys)[i]? =
      if k ≤ i ∧ i < k + ys.length then ys[i - k]? else xs[i]? := by
  have taken : (xs.take k).length = k := by
    rw [List.length_take]
    omega
  unfold overwrite
  by_cases before : i < k
  · rw [if_neg (by omega), List.append_assoc, List.getElem?_append_left (by omega),
      List.getElem?_take, if_pos before]
  · by_cases inside : i < k + ys.length
    · rw [if_pos ⟨by omega, inside⟩,
        List.getElem?_append_left (by rw [List.length_append]; omega),
        List.getElem?_append_right (by omega), taken]
    · rw [if_neg (by omega),
        List.getElem?_append_right (by rw [List.length_append]; omega),
        List.getElem?_drop, List.length_append, taken]
      congr 1
      omega

theorem overwrite_nil (xs : List α) (k : Nat) : overwrite xs k [] = xs := by
  simp [overwrite]

/-- Replacing the whole list. -/
theorem overwrite_all {xs ys : List α} (same : ys.length = xs.length) :
    overwrite xs 0 ys = ys := by
  simp [overwrite, same]

/-- Two adjacent writes are one write of the concatenation. -/
theorem overwrite_overwrite (xs ys zs : List α) {k : Nat}
    (fits : k + ys.length + zs.length ≤ xs.length) :
    overwrite (overwrite xs k ys) (k + ys.length) zs = overwrite xs k (ys ++ zs) := by
  apply List.ext_getElem?
  intro i
  have inner : k + ys.length ≤ xs.length := by omega
  have outer : k + ys.length + zs.length ≤ (overwrite xs k ys).length := by
    rw [length_overwrite inner]
    exact fits
  rw [getElem?_overwrite outer, getElem?_overwrite inner,
    getElem?_overwrite (by rw [List.length_append]; omega), List.length_append]
  by_cases late : k + ys.length ≤ i ∧ i < k + ys.length + zs.length
  · rw [if_pos late, if_pos (by omega), List.getElem?_append_right (by omega)]
    congr 1
    omega
  · rw [if_neg late]
    by_cases early : k ≤ i ∧ i < k + ys.length
    · rw [if_pos early, if_pos (by omega), List.getElem?_append_left (by omega)]
    · rw [if_neg early, if_neg (by omega)]

/-- Storing one entry after a written slice extends the slice. -/
theorem set_overwrite {xs ys : List α} {k : Nat} (v : α) (fits : k + ys.length < xs.length) :
    (overwrite xs k ys).set (k + ys.length) v = overwrite xs k (ys ++ [v]) := by
  have inner : k + ys.length ≤ xs.length := by omega
  apply List.ext_getElem?
  intro i
  rw [List.getElem?_set, length_overwrite inner, getElem?_overwrite inner,
    getElem?_overwrite (by simp; omega)]
  simp only [List.length_append, List.length_singleton]
  by_cases here : k + ys.length = i
  · subst here
    rw [if_pos rfl, if_pos fits, if_pos (by omega), List.getElem?_append_right (by omega)]
    simp
  · rw [if_neg here]
    by_cases early : k ≤ i ∧ i < k + ys.length
    · rw [if_pos early, if_pos (by omega), List.getElem?_append_left (by omega)]
    · rw [if_neg early, if_neg (by omega)]

theorem segment_overwrite (xs ys : List α) {k : Nat} (fits : k + ys.length ≤ xs.length) :
    segment (overwrite xs k ys) k ys.length = ys := by
  apply List.ext_getElem?
  intro i
  rw [getElem?_segment, getElem?_overwrite fits]
  by_cases small : i < ys.length
  · rw [if_pos small, if_pos (by omega)]
    congr 1
    omega
  · rw [if_neg small, List.getElem?_eq_none (by omega)]

/-- A slice that misses the written one is unchanged. -/
theorem segment_overwrite_of_apart {xs ys : List α} {k l n : Nat}
    (fits : k + ys.length ≤ xs.length) (apart : l + n ≤ k ∨ k + ys.length ≤ l) :
    segment (overwrite xs k ys) l n = segment xs l n := by
  apply segment_eq_segment
  intro i small
  rw [getElem?_overwrite fits, if_neg (by omega)]

theorem segment_replicate {n k m : Nat} (v : α) (fits : k + m ≤ n) :
    segment (List.replicate n v) k m = List.replicate m v := by
  rw [segment, List.drop_replicate, List.take_replicate, Nat.min_eq_left (by omega)]

theorem overwrite_replicate {n k m : Nat} (v : α) (fits : k + m ≤ n) :
    overwrite (List.replicate n v) k (List.replicate m v) = List.replicate n v := by
  simp only [overwrite, List.take_replicate, List.drop_replicate, List.length_replicate,
    List.replicate_append_replicate]
  congr 1
  omega

/-- Unsigned subtraction used as an index; an underflow indexes nothing. -/
def sizeSub (a b : Nat) : Option Nat := if b ≤ a then some (a - b) else none

theorem sizeSub_eq {a b : Nat} (le : b ≤ a) : sizeSub a b = some (a - b) := if_pos le

/-- Read a slice that must lie inside the list. -/
def loadSegment (xs : List α) (k n : Nat) : Option (List α) :=
  if k + n ≤ xs.length then some (segment xs k n) else none

/-- Replace a slice that must lie inside the list. -/
def storeSegment (xs : List α) (k : Nat) (ys : List α) : Option (List α) :=
  if k + ys.length ≤ xs.length then some (overwrite xs k ys) else none

theorem loadSegment_eq {xs : List α} {k n : Nat} (fits : k + n ≤ xs.length) :
    loadSegment xs k n = some (segment xs k n) := if_pos fits

theorem storeSegment_eq {xs ys : List α} {k : Nat} (fits : k + ys.length ≤ xs.length) :
    storeSegment xs k ys = some (overwrite xs k ys) := if_pos fits

/-- Storing a slice keeps the length. -/
theorem length_storeSegment {xs ys zs : List α} {k : Nat} (stored : storeSegment xs k ys = some zs) :
    zs.length = xs.length := by
  unfold storeSegment at stored
  split at stored
  · cases stored
    exact length_overwrite ‹_›
  · cases stored

/-- A slice stored just after what has been stored before. -/
theorem storeSegment_overwrite (xs ys zs : List α) {k : Nat} (next : k = ys.length)
    (fits : ys.length + zs.length ≤ xs.length) :
    storeSegment (overwrite xs 0 ys) k zs = some (overwrite xs 0 (ys ++ zs)) := by
  have length : (overwrite xs 0 ys).length = xs.length := length_overwrite (by omega)
  have joined := overwrite_overwrite xs ys zs (k := 0) (by omega)
  rw [Nat.zero_add] at joined
  rw [storeSegment_eq (by omega), next, joined]

/-! ## Lanes laid out back to back -/

/-- `n` lanes, one after the other. -/
def lanes (n : Nat) (f : Nat → List α) : List α := (List.range n).flatMap f

@[simp] theorem lanes_zero (f : Nat → List α) : lanes 0 f = [] := rfl

theorem lanes_succ (n : Nat) (f : Nat → List α) : lanes (n + 1) f = lanes n f ++ f n := by
  simp [lanes, List.range_succ, List.flatMap_append]

theorem lanes_congr {n : Nat} {f g : Nat → List α} (same : ∀ b, b < n → f b = g b) :
    lanes n f = lanes n g := by
  induction n with
  | zero => rfl
  | succ n ih =>
    rw [lanes_succ, lanes_succ, ih fun b hb => same b (Nat.lt_succ_of_lt hb),
      same n (Nat.lt_succ_self n)]

theorem length_lanes {n len : Nat} {f : Nat → List α} (width : ∀ b, b < n → (f b).length = len) :
    (lanes n f).length = n * len := by
  induction n with
  | zero => simp
  | succ n ih =>
    rw [lanes_succ, List.length_append, ih fun b hb => width b (Nat.lt_succ_of_lt hb),
      width n (Nat.lt_succ_self n), Nat.succ_mul]

theorem map_lanes {β : Type u} (g : α → β) (n : Nat) (f : Nat → List α) :
    (lanes n f).map g = lanes n fun b => (f b).map g := by
  simp only [lanes, List.map_flatMap]

/-- Lists with the same lane widths are combined lane by lane. -/
theorem zipWith_lanes {β γ : Type u} (g : α → β → γ) {n : Nat} {f : Nat → List α}
    {h : Nat → List β} (width : ∀ b, b < n → (f b).length = (h b).length) :
    List.zipWith g (lanes n f) (lanes n h) = lanes n fun b => List.zipWith g (f b) (h b) := by
  induction n with
  | zero => rfl
  | succ n ih =>
    have before : (lanes n f).length = (lanes n h).length := by
      simp only [lanes, List.length_flatMap]
      congr 1
      exact List.map_congr_left fun b member => width b (by simp at member; omega)
    rw [lanes_succ, lanes_succ, lanes_succ, List.zipWith_append before,
      ih fun b hb => width b (Nat.lt_succ_of_lt hb)]

theorem replicate_eq_lanes (n len : Nat) (v : α) :
    List.replicate (n * len) v = lanes n fun _ => List.replicate len v := by
  induction n with
  | zero => simp
  | succ n ih => rw [lanes_succ, ← ih, Nat.succ_mul, List.replicate_add]

/-- Lane `b` ends inside `n` lanes of one width. -/
theorem lane_end_le {b n : Nat} (len : Nat) (below : b < n) : b * len + len ≤ n * len := by
  rw [← Nat.succ_mul]
  exact Nat.mul_le_mul_right len below

/-- Where `n` lanes have no room, one of them starts inside and ends behind. -/
theorem exists_lane_past {n len count : Nat} (short : count < n * len) :
    ∃ b, b < n ∧ b * len ≤ count ∧ count < b * len + len := by
  have positive : 0 < len := Nat.pos_of_ne_zero fun flat => by
    rw [flat, Nat.mul_zero] at short
    exact Nat.not_lt_zero _ short
  have starts := Nat.div_mul_le_self count len
  refine ⟨count / len, ?_, starts, ?_⟩
  · exact Nat.lt_of_mul_lt_mul_right (Nat.lt_of_le_of_lt starts short)
  · have ends := Nat.lt_mul_div_succ count positive
    rwa [Nat.mul_comm, Nat.succ_mul] at ends

/-- The slice of lane `b` starts at `b` lane widths. -/
theorem segment_lanes {n len b : Nat} {f : Nat → List α}
    (width : ∀ b, b < n → (f b).length = len) (below : b < n) :
    segment (lanes n f) (b * len) len = f b := by
  induction n with
  | zero => omega
  | succ n ih =>
    have widthBefore : ∀ b, b < n → (f b).length = len :=
      fun b hb => width b (Nat.lt_succ_of_lt hb)
    have before : (lanes n f).length = n * len := length_lanes widthBefore
    have last : (f n).length = len := width n (Nat.lt_succ_self n)
    rw [lanes_succ]
    rcases Nat.lt_succ_iff_lt_or_eq.mp below with earlier | rfl
    · rw [← ih widthBefore earlier]
      have inside := lane_end_le len earlier
      apply segment_eq_segment
      intro i small
      rw [List.getElem?_append_left (by omega)]
    · rw [segment, ← before, List.drop_left, ← last, List.take_length]

/-- The `n` slices of width `len` of a list of length `n * len` are its lanes. -/
theorem lanes_segment {xs : List α} {n len : Nat} (size : xs.length = n * len) :
    lanes n (fun b => segment xs (b * len) len) = xs := by
  have width : ∀ b, b < n → (segment xs (b * len) len).length = len := by
    intro b below
    have := lane_end_le len below
    exact length_segment (by omega)
  have prefixes : ∀ m, m ≤ n → lanes m (fun b => segment xs (b * len) len) = xs.take (m * len) := by
    intro m
    induction m with
    | zero => simp
    | succ m ih =>
      intro le
      rw [lanes_succ, ih (by omega), segment, Nat.succ_mul, List.take_add]
  rw [prefixes n (Nat.le_refl n), ← size, List.take_length]

/-- Entry `i` of lane `b`. -/
theorem getElem?_lanes {n len b i : Nat} {f : Nat → List α}
    (width : ∀ b, b < n → (f b).length = len) (below : b < n) (small : i < len) :
    (lanes n f)[b * len + i]? = (f b)[i]? := by
  rw [← segment_lanes width below, getElem?_segment, if_pos small]

/-- Rewriting one lane in place. -/
theorem overwrite_lanes {n len b : Nat} {f : Nat → List α} {ys : List α}
    (width : ∀ b, b < n → (f b).length = len) (below : b < n) (size : ys.length = len) :
    overwrite (lanes n f) (b * len) ys = lanes n (Function.update f b ys) := by
  have total : (lanes n f).length = n * len := length_lanes width
  have inside := lane_end_le len below
  have fits : b * len + ys.length ≤ (lanes n f).length := by omega
  have updated : ∀ c, c < n → (Function.update f b ys c).length = len := by
    intro c hc
    by_cases same : c = b
    · rw [same, Function.update_self, size]
    · rw [Function.update_of_ne same, width c hc]
  have size' : (overwrite (lanes n f) (b * len) ys).length = n * len := by
    rw [length_overwrite fits, total]
  rw [← lanes_segment size']
  apply lanes_congr
  intro c hc
  have insideC := lane_end_le len hc
  rcases Nat.lt_trichotomy c b with before | rfl | after
  · have := lane_end_le len before
    rw [segment_overwrite_of_apart fits (by omega), segment_lanes width hc,
      Function.update_of_ne (by omega)]
  · rw [Function.update_self, ← size, segment_overwrite _ _ (by rw [size]; omega)]
  · have := lane_end_le len after
    rw [segment_overwrite_of_apart fits (by omega), segment_lanes width hc,
      Function.update_of_ne (by omega)]

/-! ## Block memory -/

/-- A pointer: a block and an offset into it, in cells. -/
structure Ptr where
  block : Nat
  offset : Nat
deriving DecidableEq, Repr

/-- Pointer arithmetic. -/
def Ptr.add (p : Ptr) (k : Nat) : Ptr := ⟨p.block, p.offset + k⟩

@[simp] theorem Ptr.add_block (p : Ptr) (k : Nat) : (p.add k).block = p.block := rfl

@[simp] theorem Ptr.add_offset (p : Ptr) (k : Nat) : (p.add k).offset = p.offset + k := rfl

/-- A memory of numbered blocks. -/
@[ext] structure Mem (α : Type u) where
  cells : Nat → List α

/-- The `n` cells from `p` lie inside their block. -/
def Mem.Holds (m : Mem α) (p : Ptr) (n : Nat) : Prop := p.offset + n ≤ (m.cells p.block).length

instance (m : Mem α) (p : Ptr) (n : Nat) : Decidable (m.Holds p n) :=
  inferInstanceAs (Decidable (_ ≤ _))

/-- The contents of the `n` cells from `p`. -/
def Mem.read (m : Mem α) (p : Ptr) (n : Nat) : List α := segment (m.cells p.block) p.offset n

/-- Replace the contents of the cells from `p`. -/
def Mem.write (m : Mem α) (p : Ptr) (ys : List α) : Mem α :=
  ⟨Function.update m.cells p.block (overwrite (m.cells p.block) p.offset ys)⟩

/-- `p[i]` as a value. -/
def Mem.load (m : Mem α) (p : Ptr) (i : Nat) : Option α := (m.cells p.block)[p.offset + i]?

/-- `p[i] = v`. -/
def Mem.store (m : Mem α) (p : Ptr) (i : Nat) (v : α) : Option (Mem α) :=
  if m.Holds p (i + 1) then
    some ⟨Function.update m.cells p.block ((m.cells p.block).set (p.offset + i) v)⟩
  else none

/-- Read `n` cells in one operation, such as `std::copy` from `p`. -/
def Mem.loadRange (m : Mem α) (p : Ptr) (n : Nat) : Option (List α) :=
  if m.Holds p n then some (m.read p n) else none

/-- Write a list of cells in one operation, such as `std::copy` to `p`. -/
def Mem.storeRange (m : Mem α) (p : Ptr) (ys : List α) : Option (Mem α) :=
  if m.Holds p ys.length then some (m.write p ys) else none

/-- The `n` cells from `p` and the `k` cells from `q` have no cell in common. -/
def Apart (p : Ptr) (n : Nat) (q : Ptr) (k : Nat) : Prop :=
  p.block ≠ q.block ∨ p.offset + n ≤ q.offset ∨ q.offset + k ≤ p.offset

instance (p : Ptr) (n : Nat) (q : Ptr) (k : Nat) : Decidable (Apart p n q k) :=
  inferInstanceAs (Decidable (_ ∨ _))

theorem Apart.symm {p q : Ptr} {n k : Nat} (apart : Apart p n q k) : Apart q k p n := by
  rcases apart with blocks | before | after
  · exact Or.inl blocks.symm
  · exact Or.inr (Or.inr before)
  · exact Or.inr (Or.inl after)

/-- Parts of buffers that are apart are apart. -/
theorem Apart.mono {p q : Ptr} {n k i n' j k' : Nat} (apart : Apart p n q k)
    (left : i + n' ≤ n) (right : j + k' ≤ k) : Apart (p.add i) n' (q.add j) k' := by
  rcases apart with blocks | before | after
  · exact Or.inl blocks
  · exact Or.inr (Or.inl (by simp only [Ptr.add_offset]; omega))
  · exact Or.inr (Or.inr (by simp only [Ptr.add_offset]; omega))

theorem Mem.Holds.mono {m : Mem α} {p : Ptr} {n i k : Nat} (holds : m.Holds p n)
    (inside : i + k ≤ n) : m.Holds (p.add i) k := by
  simp only [Mem.Holds, Ptr.add_offset, Ptr.add_block] at holds ⊢
  omega

theorem Mem.length_read {m : Mem α} {p : Ptr} {n : Nat} (holds : m.Holds p n) :
    (m.read p n).length = n := length_segment holds

theorem Mem.loadRange_eq {m : Mem α} {p : Ptr} {n : Nat} (holds : m.Holds p n) :
    m.loadRange p n = some (m.read p n) := if_pos holds

theorem Mem.storeRange_eq {m : Mem α} {p : Ptr} {ys : List α} (holds : m.Holds p ys.length) :
    m.storeRange p ys = some (m.write p ys) := if_pos holds

theorem Mem.getElem?_read (m : Mem α) (p : Ptr) (n i : Nat) :
    (m.read p n)[i]? = if i < n then m.load p i else none :=
  getElem?_segment _ _ _ _

theorem Mem.load_add (m : Mem α) (p : Ptr) (k i : Nat) : m.load (p.add k) i = m.load p (k + i) := by
  simp only [Mem.load, Ptr.add_block, Ptr.add_offset, Nat.add_assoc]

theorem Mem.store_add (m : Mem α) (p : Ptr) (k i : Nat) (v : α) :
    m.store (p.add k) i v = m.store p (k + i) v := by
  simp only [Mem.store, Mem.Holds, Ptr.add_block, Ptr.add_offset, Nat.add_assoc]

/-- A part of a buffer is a slice of its contents. -/
theorem Mem.read_add (m : Mem α) (p : Ptr) {k i n : Nat} (inside : i + k ≤ n) :
    m.read (p.add i) k = segment (m.read p n) i k := by
  rw [Mem.read, Mem.read, Ptr.add_block, Ptr.add_offset, segment_segment inside]

theorem segment_map {β : Type u} (f : α → β) (xs : List α) (k n : Nat) :
    segment (xs.map f) k n = (segment xs k n).map f := by
  rw [segment, segment, ← List.map_drop, ← List.map_take]

/-! ### Writing -/

theorem Mem.cells_write_of_ne {m : Mem α} {p : Ptr} (ys : List α) {b : Nat} (other : b ≠ p.block) :
    (m.write p ys).cells b = m.cells b := Function.update_of_ne other _ _

theorem Mem.cells_write_self (m : Mem α) (p : Ptr) (ys : List α) :
    (m.write p ys).cells p.block = overwrite (m.cells p.block) p.offset ys :=
  Function.update_self _ _ _

/-- A write inside a block keeps the size of every block. -/
theorem Mem.length_cells_write {m : Mem α} {p : Ptr} {ys : List α} (holds : m.Holds p ys.length)
    (b : Nat) : ((m.write p ys).cells b).length = (m.cells b).length := by
  by_cases same : b = p.block
  · subst same
    rw [Mem.cells_write_self, length_overwrite holds]
  · rw [Mem.cells_write_of_ne ys same]

theorem Mem.holds_write {m : Mem α} {p q : Ptr} {ys : List α} {n : Nat}
    (holds : m.Holds p ys.length) : (m.write p ys).Holds q n ↔ m.Holds q n := by
  rw [Mem.Holds, Mem.Holds, Mem.length_cells_write holds]

theorem Mem.write_nil (m : Mem α) (p : Ptr) : m.write p [] = m := by
  ext1
  simp only [Mem.write, overwrite_nil, Function.update_eq_self]

theorem Mem.read_write {m : Mem α} {p : Ptr} {ys : List α} (holds : m.Holds p ys.length) :
    (m.write p ys).read p ys.length = ys := by
  rw [Mem.read, Mem.cells_write_self, segment_overwrite _ _ holds]

/-- A write at the front of a range leaves the rest of it. -/
theorem Mem.read_write_front {m : Mem α} {p : Ptr} {ys : List α} {n : Nat} (holds : m.Holds p n)
    (short : ys.length ≤ n) :
    (m.write p ys).read p n = ys ++ (m.read p n).drop ys.length := by
  obtain ⟨l, rfl⟩ := Nat.exists_eq_add_of_le short
  have fits : p.offset + ys.length ≤ (m.cells p.block).length := by
    simp only [Mem.Holds] at holds
    omega
  have front : (segment (m.cells p.block) p.offset ys.length).length = ys.length :=
    length_segment fits
  rw [Mem.read, Mem.read, Mem.cells_write_self, ← segment_append, ← segment_append,
    segment_overwrite _ _ fits, segment_overwrite_of_apart fits (.inr (Nat.le_refl _)),
    List.drop_left' front]

/-- A cell outside the written range is unchanged. -/
theorem Mem.load_write_of_apart {m : Mem α} {p q : Ptr} (ys : List α) {n i : Nat}
    (holds : m.Holds p ys.length) (apart : Apart q n p ys.length) (small : i < n) :
    (m.write p ys).load q i = m.load q i := by
  simp only [Mem.load]
  by_cases same : q.block = p.block
  · rw [same, Mem.cells_write_self, getElem?_overwrite holds]
    rcases apart with blocks | before | after
    · exact absurd same blocks
    · rw [if_neg (by omega)]
    · rw [if_neg (by omega)]
  · rw [Mem.cells_write_of_ne ys same]

theorem Mem.read_write_of_apart {m : Mem α} {p q : Ptr} {ys : List α} {n : Nat}
    (holds : m.Holds p ys.length) (apart : Apart q n p ys.length) :
    (m.write p ys).read q n = m.read q n := by
  apply segment_eq_segment
  intro i small
  exact Mem.load_write_of_apart ys holds apart small

/-- Writing the same cells again. -/
theorem Mem.write_again {m : Mem α} {p : Ptr} {ys zs : List α} (holds : m.Holds p ys.length)
    (same : zs.length = ys.length) : (m.write p ys).write p zs = m.write p zs := by
  ext1
  have fits : p.offset + ys.length ≤ (m.cells p.block).length := holds
  have twice : overwrite (overwrite (m.cells p.block) p.offset ys) p.offset zs =
      overwrite (m.cells p.block) p.offset zs := by
    apply List.ext_getElem?
    intro i
    have inner : p.offset + zs.length ≤ (overwrite (m.cells p.block) p.offset ys).length := by
      rw [length_overwrite fits, same]
      exact fits
    rw [getElem?_overwrite inner, getElem?_overwrite fits,
      getElem?_overwrite (by rw [same]; exact fits), same]
    split
    · rfl
    · rfl
  simp only [Mem.write, Function.update_self, Function.update_idem, twice]

/-- Writing back what is there. -/
theorem Mem.write_read {m : Mem α} {p : Ptr} {n : Nat} (holds : m.Holds p n) :
    m.write p (m.read p n) = m := by
  ext1
  have length := Mem.length_read holds
  have same : overwrite (m.cells p.block) p.offset (m.read p n) = m.cells p.block := by
    apply List.ext_getElem?
    intro i
    rw [getElem?_overwrite (by rw [length]; exact holds), length]
    split
    · rename_i inside
      rw [Mem.getElem?_read, if_pos (by omega), Mem.load]
      congr 1
      omega
    · rfl
  simp only [Mem.write, same, Function.update_eq_self]

/-- Memories with equal cells are equal. -/
theorem Mem.ext_cells {m m' : Mem α}
    (same : ∀ block (off : Nat), (m.cells block)[off]? = (m'.cells block)[off]?) : m = m' := by
  ext1
  funext block
  exact List.ext_getElem? (same block)

theorem Mem.getElem?_cells_write {m : Mem α} {p : Ptr} {ys : List α}
    (holds : m.Holds p ys.length) (block off : Nat) :
    ((m.write p ys).cells block)[off]? =
      if block = p.block ∧ p.offset ≤ off ∧ off < p.offset + ys.length then ys[off - p.offset]?
      else (m.cells block)[off]? := by
  by_cases same : block = p.block
  · subst same
    rw [Mem.cells_write_self, getElem?_overwrite holds]
    simp only [true_and]
  · rw [Mem.cells_write_of_ne ys same, if_neg (by tauto)]

/-- Writes to ranges with no cell in common commute. -/
theorem Mem.write_comm {m : Mem α} {p q : Ptr} {ys zs : List α} (holdsP : m.Holds p ys.length)
    (holdsQ : m.Holds q zs.length) (apart : Apart p ys.length q zs.length) :
    (m.write p ys).write q zs = (m.write q zs).write p ys := by
  apply Mem.ext_cells
  intro block off
  rw [Mem.getElem?_cells_write ((Mem.holds_write holdsP).mpr holdsQ),
    Mem.getElem?_cells_write holdsP,
    Mem.getElem?_cells_write ((Mem.holds_write holdsQ).mpr holdsP),
    Mem.getElem?_cells_write holdsQ]
  by_cases inQ : block = q.block ∧ q.offset ≤ off ∧ off < q.offset + zs.length
  · have outP : ¬ (block = p.block ∧ p.offset ≤ off ∧ off < p.offset + ys.length) := by
      intro inside
      rcases inside with ⟨same, start, stop⟩
      rcases apart with blocks | before | after
      · exact blocks (same.symm.trans inQ.1)
      · omega
      · omega
    rw [if_pos inQ, if_neg outP, if_pos inQ]
  · rw [if_neg inQ, if_neg inQ]

/-- Two adjacent writes are one write. -/
theorem Mem.write_write {m : Mem α} {p : Ptr} {ys zs : List α}
    (holds : m.Holds p (ys.length + zs.length)) :
    (m.write p ys).write (p.add ys.length) zs = m.write p (ys ++ zs) := by
  ext1
  have fits : p.offset + ys.length + zs.length ≤ (m.cells p.block).length := by
    simp only [Mem.Holds] at holds
    omega
  simp only [Mem.write, Ptr.add_block, Ptr.add_offset, Function.update_self,
    Function.update_idem, overwrite_overwrite _ _ _ fits]

/-- A store just after a written range extends the range. -/
theorem Mem.store_write {m : Mem α} {p : Ptr} (ys : List α) (v : α)
    (holds : m.Holds p (ys.length + 1)) :
    (m.write p ys).store p ys.length v = some (m.write p (ys ++ [v])) := by
  have inner : m.Holds p ys.length := by
    simp only [Mem.Holds] at holds ⊢
    omega
  have fits : p.offset + ys.length < (m.cells p.block).length := by
    simp only [Mem.Holds] at holds
    omega
  rw [Mem.store, if_pos ((Mem.holds_write inner).mpr holds)]
  simp only [Mem.write, Function.update_self, Function.update_idem, set_overwrite v fits]

/-- A store inside a block leaves all blocks as long as they were. -/
theorem Mem.exists_store {m : Mem α} {p : Ptr} {i : Nat} (v : α) (holds : m.Holds p (i + 1)) :
    ∃ m', m.store p i v = some m' ∧ ∀ q n, m'.Holds q n ↔ m.Holds q n := by
  refine ⟨_, if_pos holds, fun q n => ?_⟩
  unfold Mem.Holds
  dsimp only
  by_cases same : q.block = p.block
  · rw [same, Function.update_self, List.length_set]
  · rw [Function.update_of_ne same]

/-- Two stores to adjacent cells. -/
theorem Mem.store_first {m : Mem α} {p : Ptr} {k : Nat} (v : α) (holds : m.Holds p (k + 1)) :
    m.store p k v = some (m.write (p.add k) [v]) := by
  have stored := Mem.store_write (m := m) (p := p.add k) [] v (holds.mono (Nat.le_refl _))
  rwa [Mem.write_nil, List.length_nil, Mem.store_add, Nat.add_zero, List.nil_append] at stored

theorem Mem.store_second {m : Mem α} {p : Ptr} {k : Nat} (v w : α) (holds : m.Holds p (k + 2)) :
    (m.write (p.add k) [v]).store p (k + 1) w = some (m.write (p.add k) [v, w]) := by
  have stored := Mem.store_write (m := m) (p := p.add k) [v] w (holds.mono (Nat.le_refl _))
  rwa [List.length_singleton, Mem.store_add, List.singleton_append] at stored

end Kit
