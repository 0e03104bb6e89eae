import DspDispatch.Kit.OrderStatistic
import Mathlib.Algebra.Order.Floor.Semiring
import Mathlib.Data.Rat.Floor

/-!
# Percentiles of the benchmark harness (`bench/bench_fft.cpp`, `bench/bench_fir.cpp`)

Both harnesses have the same `percentile`, here over exact rational arithmetic. Its
index is `p * (size - 1)` without its fraction: of the fifteen repetitions of a
benchmark fourteen are at or below the 95th percentile.
-/

namespace DspDispatch.Bench

open Kit

/-- `static_cast<std::size_t>` of a number; `none` is one no `size_t` is near. -/
def truncate (q : ℚ) : Option Nat := if -1 < q then some ⌊q⌋₊ else none

/-- `percentile`; `none` is an index outside the samples. -/
def percentile (v : List ℚ) (p : ℚ) : Option ℚ :=
  if v.isEmpty then some 0
  else
    let s := v.mergeSort (· ≤ ·)
    (truncate (p * (s.length - 1 : Nat))).bind fun index => s[index]?

def statP95 (v : List ℚ) : Option ℚ := percentile v (95 / 100)

def statP99 (v : List ℚ) : Option ℚ := percentile v (99 / 100)

variable {v v' : List ℚ} {p q : ℚ}

/-- The index of the percentile. -/
def rank (v : List ℚ) (p : ℚ) : Nat := ⌊p * (v.length - 1 : Nat)⌋₊

theorem percentile_eq (nonempty : v ≠ []) (nonneg : 0 ≤ p) :
    percentile v p = orderStatistic v (rank v p) := by
  have product : (-1 : ℚ) < p * (v.length - 1 : Nat) := by
    have := mul_nonneg nonneg (Nat.cast_nonneg (α := ℚ) (v.length - 1))
    linarith
  rw [percentile, if_neg (by simpa using nonempty)]
  simp only [List.length_mergeSort, truncate, if_pos product, Option.bind_some]
  rfl

theorem rank_lt (nonempty : v ≠ []) (le_one : p ≤ 1) : rank v p < v.length := by
  have size := List.length_pos_iff.mpr nonempty
  have product : p * (v.length - 1 : Nat) ≤ (v.length - 1 : Nat) :=
    mul_le_of_le_one_left (Nat.cast_nonneg _) le_one
  have bound := Nat.floor_le_of_le product
  unfold rank
  omega

theorem rank_mono (order : p ≤ q) (v : List ℚ) : rank v p ≤ rank v q :=
  Nat.floor_mono (mul_le_mul_of_nonneg_right order (Nat.cast_nonneg _))

/-- The percentile of samples is one of them, does not depend on their order and
grows with `p`. At least `⌊p * (size - 1)⌋ + 1` of the samples, hence more than
`p * (size - 1)`, are not above it, and just so many if all are distinct. -/
theorem percentile_covers (v : List ℚ) (p : ℚ) (nonempty : v ≠ []) (nonneg : 0 ≤ p)
    (le_one : p ≤ 1) :
    ∃ x, percentile v p = some x ∧ x ∈ v ∧ (∀ v', v.Perm v' → percentile v' p = some x) ∧
      (∀ q, p ≤ q → q ≤ 1 → ∃ y, percentile v q = some y ∧ x ≤ y) ∧
      ⌊p * (v.length - 1 : Nat)⌋₊ + 1 ≤ v.countP (· ≤ x) ∧
      p * (v.length - 1 : Nat) < v.countP (· ≤ x) ∧
      (v.Nodup → v.countP (· ≤ x) = ⌊p * (v.length - 1 : Nat)⌋₊ + 1) := by
  obtain ⟨x, found, member⟩ := exists_orderStatistic (rank_lt nonempty le_one)
  have covered := lt_countP_le found
  refine ⟨x, (percentile_eq nonempty nonneg).trans found, member, ?_, ?_, covered, ?_, ?_⟩
  · intro v' same
    have nonempty' : v' ≠ [] := fun empty => nonempty (List.Perm.eq_nil (empty ▸ same))
    rw [percentile_eq nonempty' nonneg, rank, ← same.length_eq, ← orderStatistic_perm same]
    exact found
  · intro q order le_one'
    have nonneg' := nonneg.trans order
    obtain ⟨y, found', -⟩ := exists_orderStatistic (rank_lt nonempty le_one')
    refine ⟨y, (percentile_eq nonempty nonneg').trans found', ?_⟩
    exact orderStatistic_le (rank_mono order v) found found'
  · calc p * (v.length - 1 : Nat) < rank v p + 1 := Nat.lt_floor_add_one _
      _ ≤ v.countP (· ≤ x) := by exact_mod_cast covered
  · intro distinct
    exact countP_le_of_nodup distinct found

/-- Three samples and their median. -/
theorem percentile_covers_three :
    ∃ x, percentile [3, 1, 2] (1 / 2) = some x ∧ x ∈ [3, 1, (2 : ℚ)] ∧
      ⌊(1 / 2 : ℚ) * 2⌋₊ + 1 ≤ [3, 1, (2 : ℚ)].countP (· ≤ x) := by
  obtain ⟨x, found, member, -, -, covered, -⟩ :=
    percentile_covers [3, 1, 2] (1 / 2) (by decide) (by norm_num) (by norm_num)
  exact ⟨x, found, member, covered⟩

/-- The repetitions of a benchmark. -/
def fifteen : List ℚ := (List.range 15).map (Nat.cast : Nat → ℚ)

/-- Of fifteen distinct samples only fourteen are at or below the 95th percentile,
and `0.95 * 15` is more than fourteen. -/
theorem statP95_fifteen :
    ∃ x, statP95 fifteen = some x ∧ fifteen.countP (· ≤ x) = 14 ∧
      (fifteen.countP (· ≤ x) : ℚ) < 95 / 100 * fifteen.length := by
  have length : fifteen.length = 15 := by rw [fifteen, List.length_map, List.length_range]
  have nonempty : fifteen ≠ [] := List.length_pos_iff.mp (by omega)
  have distinct : fifteen.Nodup := List.nodup_range.map Nat.cast_injective
  have index : rank fifteen (95 / 100) = 13 := by
    rw [rank, length, Nat.floor_eq_iff (by norm_num)]
    norm_num
  obtain ⟨x, found, -⟩ := @exists_orderStatistic ℚ _ fifteen 13 (by omega)
  have count := countP_le_of_nodup distinct found
  refine ⟨x, ?_, count, ?_⟩
  · rw [statP95, percentile_eq nonempty (by norm_num), index, found]
  · rw [count, length]
    norm_num

end DspDispatch.Bench
