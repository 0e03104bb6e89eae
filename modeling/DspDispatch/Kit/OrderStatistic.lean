import Mathlib.Data.List.Sort

/-!
# Order statistics

`orderStatistic xs k` is the element at index `k` of the sorted list. It depends
on the samples and not on their order, it grows with `k`, and `k + 1` samples are
not above it: exactly so many where no sample occurs twice.
-/

namespace Kit

universe u

variable {α : Type u} [LinearOrder α] {xs ys : List α} {k l : Nat} {x y : α}

/-- The element at index `k` of the sorted samples. -/
def orderStatistic (xs : List α) (k : Nat) : Option α := (xs.mergeSort (· ≤ ·))[k]?

theorem exists_orderStatistic (inside : k < xs.length) :
    ∃ x, orderStatistic xs k = some x ∧ x ∈ xs := by
  rw [← (List.mergeSort_perm xs (· ≤ ·)).length_eq] at inside
  refine ⟨(xs.mergeSort (· ≤ ·))[k], List.getElem?_eq_getElem inside, ?_⟩
  exact List.mem_mergeSort.mp (List.getElem_mem inside)

/-- The order of the samples does not matter. -/
theorem orderStatistic_perm (same : xs.Perm ys) (k : Nat) :
    orderStatistic xs k = orderStatistic ys k := by
  have sorted : xs.mergeSort (· ≤ ·) = ys.mergeSort (· ≤ ·) := by
    refine List.Perm.eq_of_pairwise' (List.pairwise_mergeSort' (· ≤ ·) xs)
      (List.pairwise_mergeSort' (· ≤ ·) ys) ?_
    exact ((List.mergeSort_perm xs _).trans same).trans (List.mergeSort_perm ys _).symm
  rw [orderStatistic, orderStatistic, sorted]

theorem orderStatistic_le (order : k ≤ l) (found : orderStatistic xs k = some x)
    (found' : orderStatistic xs l = some y) : x ≤ y := by
  obtain ⟨inside, rfl⟩ := List.getElem?_eq_some_iff.mp found
  obtain ⟨inside', rfl⟩ := List.getElem?_eq_some_iff.mp found'
  exact List.sortedLE_mergeSort.getElem_le_getElem_of_le order

/-- In a sorted list the first `k + 1` elements are not above the one at `k`. -/
theorem countP_take_of_sorted {s : List α} (sorted : s.SortedLE) (inside : k < s.length) :
    (s.take (k + 1)).countP (· ≤ s[k]) = k + 1 := by
  have all : ∀ z ∈ s.take (k + 1), decide (z ≤ s[k]) = true := by
    intro z member
    obtain ⟨j, below, rfl⟩ := List.mem_take_iff_getElem.mp member
    exact decide_eq_true (sorted.getElem_le_getElem_of_le (by omega))
  rw [List.countP_eq_length.mpr all, List.length_take]
  omega

/-- Without duplicates the elements after it are all above. -/
theorem countP_drop_of_sorted {s : List α} (sorted : s.SortedLE) (distinct : s.Nodup)
    (inside : k < s.length) : (s.drop (k + 1)).countP (· ≤ s[k]) = 0 := by
  refine List.countP_eq_zero.mpr ?_
  intro z member small
  obtain ⟨j, below, rfl⟩ := List.mem_drop_iff_getElem.mp member
  have above : s[k] ≤ s[k + 1 + j] := sorted.getElem_le_getElem_of_le (by omega)
  have same := le_antisymm above (of_decide_eq_true small)
  have place := (List.Nodup.getElem_inj_iff distinct).mp same
  omega

/-- At least `k + 1` samples are not above the one at `k`. -/
theorem lt_countP_le (found : orderStatistic xs k = some x) : k < xs.countP (· ≤ x) := by
  obtain ⟨inside, rfl⟩ := List.getElem?_eq_some_iff.mp found
  have front := countP_take_of_sorted (List.sortedLE_mergeSort (l := xs)) inside
  have sub := (List.take_sublist (k + 1) (xs.mergeSort (· ≤ ·))).countP_le
    (p := (· ≤ (xs.mergeSort (· ≤ ·))[k]))
  rw [← (List.mergeSort_perm xs (· ≤ ·)).countP_eq]
  omega

theorem countP_le_of_nodup (distinct : xs.Nodup) (found : orderStatistic xs k = some x) :
    xs.countP (· ≤ x) = k + 1 := by
  obtain ⟨inside, rfl⟩ := List.getElem?_eq_some_iff.mp found
  have sorted := List.sortedLE_mergeSort (l := xs)
  have front := countP_take_of_sorted sorted inside
  have back := countP_drop_of_sorted sorted
    ((List.mergeSort_perm xs (· ≤ ·)).nodup_iff.mpr distinct) inside
  rw [← (List.mergeSort_perm xs (· ≤ ·)).countP_eq]
  generalize (xs.mergeSort (· ≤ ·))[k] = x at front back ⊢
  rw [← List.take_append_drop (k + 1) (xs.mergeSort (· ≤ ·)), List.countP_append, front, back]

end Kit
