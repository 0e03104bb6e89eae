import DspDispatch.Pocketfft.GeneralNd

/-!
# Lanes back to back

The backend calls the library with the shape `{batch, n}` and the axis `1`; the elements of a
lane are adjacent, and so are the lanes. Elements may be real or complex, and the lanes of
the two buffers may have different numbers of them.
-/

namespace DspDispatch.Pocketfft

open Kit

section Batches

variable {rb batch n d w i k : Nat} {p q : Ptr}

/-- An array of `batch` lanes with `n` elements of `w` cells each on the axis; the lanes are
`d` elements apart. -/
def rowArr (rb batch n d w : Nat) : ArrInfo := ⟨[batch, n], [d * (w * rb), w * rb]⟩

/-- Element `i` of lane `k`. -/
def elementAt (d w : Nat) (p : Ptr) (k i : Nat) : Ptr := (p.add (k * (d * w))).add (i * w)

theorem elementAt_eq : elementAt d w p k i = p.add (k * (d * w) + i * w) := by
  simp only [elementAt, Ptr.add, Nat.add_assoc]

/-- The elements of two buffers. -/
def rowLayout (batch ni wi no wo : Nat) (p q : Ptr) : Layout :=
  ⟨batch, ni, wi, no, wo, elementAt ni wi p, elementAt no wo q⟩

theorem lanes_rowArr (rb d w n' d' w' : Nat) (positive : 0 < batch * n)
    (small : batch * n < 2 ^ 64) :
    MultiIter.Lanes (rowArr rb batch n d w) (rowArr rb batch n' d' w') 1 where
  inside := Nat.one_lt_two
  positive d member := by
    rw [rowArr, List.mem_cons, List.mem_singleton] at member
    rcases member with rfl | rfl
    · exact Nat.pos_of_mul_pos_right positive
    · exact Nat.pos_of_mul_pos_left positive
  small := by
    change batch * (n * 1) < 2 ^ 64
    rwa [Nat.mul_one]
  same i inside other := by
    have two : i < 2 := inside
    obtain rfl : i = 0 := by omega
    rfl

theorem total_rowArr : MultiIter.total (rowArr rb batch n d w) 1 = batch := by
  change ∏ j ∈ Finset.Ico 0 2, MultiIter.radix (rowArr rb batch n d w) 1 j = batch
  rw [Finset.prod_Ico_eq_prod_range, Finset.prod_range_succ, Finset.prod_range_one]
  exact Nat.mul_one batch

/-- The lanes are as far apart as their elements are many. -/
theorem laneOfs_rowArr (a : ArrInfo) (below : k < batch) :
    MultiIter.laneOfs (rowArr rb batch n d w) 1 a k = k * a.step 0 := by
  have slow : digit (MultiIter.radix (rowArr rb batch n d w) 1) 2 k 0 = k := by
    have unit : span (MultiIter.radix (rowArr rb batch n d w) 1) 2 1 = 1 := by
      rw [span_eq (by decide), span_self]
      rfl
    rw [digit, unit, Nat.div_one]
    exact Nat.mod_eq_of_lt below
  have fast : digit (MultiIter.radix (rowArr rb batch n d w) 1) 2 k 1 = 0 := digit_of_one rfl
  have axes : (rowArr rb batch n d w).shape.length = 2 := rfl
  rw [MultiIter.laneOfs, MultiIter.weigh, axes, Finset.sum_range_succ, Finset.sum_range_one, slow,
    fast, Nat.cast_zero, Int.zero_mul, Int.add_zero]

theorem address_element (positive : 0 < rb) (k i : Nat) :
    address rb p (k * (d * (w * rb) : Nat) + i * (w * rb : Nat)) = some (elementAt d w p k i) := by
  have unit : (rb : Int) ≠ 0 := by omega
  have place : (k : Int) * (d * (w * rb) : Nat) + i * (w * rb : Nat) =
      rb * ((k * (d * w) + i * w : Nat) : Int) := by
    push_cast
    ring
  rw [address, place, Int.mul_ediv_cancel_left _ unit, if_pos ⟨Int.dvd_mul_right _ _, by omega⟩,
    Ptr.shift_natCast, elementAt_eq]

theorem addressed_rows {si so ni wi no wo : Nat} (positive : 0 < rb) :
    Addressed (rowLayout batch ni wi no wo p q) ⟨rb, p, q⟩ (rowArr rb batch si ni wi)
      (rowArr rb batch so no wo) 1 where
  input k i lane _ := by
    have below : k < batch := lane
    rw [laneOfs_rowArr _ below]
    exact address_element positive k i
  output k i lane _ := by
    have below : k < batch := lane
    rw [laneOfs_rowArr _ below]
    exact address_element positive k i

/-- The last element ends with the buffer. -/
theorem element_end_le (lane : k < batch) (inside : i < n) :
    k * (n * w) + i * w + w ≤ batch * (n * w) := by
  have lanes := lane_end_le (n * w) lane
  have elements := lane_end_le w inside
  omega

end Batches

/-! ## Elements of two buffers -/

section Buffers

variable {α : Type} {batch ni wi no wo : Nat} {p q : Ptr} {m m' : Mem α}

/-- Buffers that have no cell in common, or the same one for lanes of the same kind. -/
theorem fits_rows (holdsIn : m.Holds p (batch * (ni * wi)))
    (holdsOut : m.Holds q (batch * (no * wo)))
    (overlap : (p = q ∧ ni = no ∧ wi = wo) ∨
      Apart p (batch * (ni * wi)) q (batch * (no * wo))) :
    (rowLayout batch ni wi no wo p q).Fits m := by
  have elements : ∀ {n w : Nat} {r : Ptr} {k i k' i' : Nat}, k < batch → i < n → k' < batch →
      i' < n → (k ≠ k' ∨ i ≠ i') → Apart (elementAt n w r k i) w (elementAt n w r k' i') w := by
    intro n w r k i k' i' lane inside lane' inside' different
    have order : ∀ {k i k' i' : Nat}, i < n → (k < k' ∨ k = k' ∧ i < i') →
        k * (n * w) + i * w + w ≤ k' * (n * w) + i' * w := by
      intro k i k' i' inside before
      rcases before with lanes | ⟨rfl, cells⟩
      · have last := lane_end_le (n * w) lanes
        have inner := lane_end_le w inside
        omega
      · have inner := lane_end_le w cells
        omega
    rw [elementAt_eq, elementAt_eq]
    by_cases before : k < k' ∨ k = k' ∧ i < i'
    · have le := order inside before
      exact .inr (.inl (by simp only [Ptr.add_offset]; omega))
    · have le := order (k := k') (i := i') inside' (by omega : k' < k ∨ k' = k ∧ i' < i)
      exact .inr (.inr (by simp only [Ptr.add_offset]; omega))
  have room : ∀ {n w : Nat} {r : Ptr} {k i : Nat}, m.Holds r (batch * (n * w)) → k < batch →
      i < n → m.Holds (elementAt n w r k i) w := by
    intro n w r k i holds lane inside
    rw [elementAt_eq]
    exact holds.mono (element_end_le lane inside)
  have across : ∀ {k i k' i' : Nat}, Apart p (batch * (ni * wi)) q (batch * (no * wo)) →
      k < batch → i < no → k' < batch → i' < ni →
      Apart (elementAt no wo q k i) wo (elementAt ni wi p k' i') wi := by
    intro k i k' i' apart lane inside lane' inside'
    rw [elementAt_eq, elementAt_eq]
    exact (apart.mono (element_end_le lane' inside') (element_end_le lane inside)).symm
  refine ⟨fun k i lane inside => room holdsIn lane inside,
    fun k i lane inside => room holdsOut lane inside,
    fun k i k' i' lane inside lane' inside' => elements lane inside lane' inside', ?_, ?_⟩
  · intro k i k' i' lane inside lane' inside' other
    rcases overlap with ⟨rfl, rfl, rfl⟩ | apart
    · exact elements lane inside lane' inside' (.inl other)
    · exact across apart lane inside lane' inside'
  · rcases overlap with ⟨rfl, rfl, rfl⟩ | apart
    · exact .inl ⟨rfl, rfl, fun _ _ _ _ => rfl⟩
    · exact .inr fun k i i' lane inside inside' => across apart lane inside lane inside'

/-- A lane is read element by element. -/
theorem read_elements {n w : Nat} {r : Ptr} (holds : m.Holds r (n * w)) :
    m.read r (n * w) = Kit.lanes n fun i => m.read (r.add (i * w)) w := by
  rw [← lanes_segment (Mem.length_read holds)]
  refine lanes_congr fun i inside => ?_
  rw [← Mem.read_add m r (lane_end_le w inside)]

/-- A cell of an element is one of the lane. -/
theorem getElem?_element {n w i c : Nat} {r : Ptr} (inside : i < n) (cell : c < w) :
    (m.read (r.add (i * w)) w)[c]? = (m.read r (n * w))[i * w + c]? := by
  have last := lane_end_le w inside
  rw [Mem.getElem?_read, if_pos cell, Mem.getElem?_read, if_pos (by omega), Mem.load_add]

/-- Elements that are written where nothing else changes. -/
theorem eq_write_of_elements {y : Nat → Nat → List α} (holdsOut : m.Holds q (batch * (no * wo)))
    (within : m.Within ((rowLayout batch ni wi no wo p q).Outputs 0 batch) m')
    (written : ∀ k, k < batch → ∀ i, i < no → m'.read (elementAt no wo q k i) wo = y k i) :
    m' = m.write q (Kit.lanes batch fun k => Kit.lanes no (y k)) := by
  have holds' : m'.Holds q (batch * (no * wo)) := within.holds.mpr holdsOut
  have size := Mem.length_read holds'
  have result : m'.read q (batch * (no * wo)) = Kit.lanes batch fun k => Kit.lanes no (y k) := by
    rw [read_elements holds']
    refine lanes_congr fun k lane => ?_
    rw [read_elements (holds'.mono (lane_end_le (no * wo) lane))]
    exact lanes_congr fun i inside => written k lane i inside
  rw [← result]
  apply Mem.ext_cells
  intro block off
  rw [Mem.getElem?_cells_write (by rw [size]; exact holdsOut), size]
  split
  · rename_i inside
    obtain ⟨rfl, start, stop⟩ := inside
    rw [Mem.getElem?_read, if_pos (by omega), Mem.load, Nat.add_sub_cancel' start]
  · rename_i outside
    refine within.kept block off ?_
    rintro ⟨k, lane, i, inside, same, start, stop⟩
    have last : k * (no * wo) + i * wo + wo ≤ batch * (no * wo) := element_end_le lane inside
    rw [Nat.zero_add] at same start stop
    change off < q.offset + k * (no * wo) + i * wo + wo at stop
    change q.offset + k * (no * wo) + i * wo ≤ off at start
    exact outside ⟨same, by omega, by omega⟩

end Buffers

end DspDispatch.Pocketfft
