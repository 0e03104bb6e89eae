import DspDispatch.Kit.TapFilter
import Mathlib.Algebra.BigOperators.NatAntidiagonal
import Mathlib.Data.List.GetD
import Mathlib.RingTheory.PowerSeries.NoZeroDivisors

/-!
# Filters that read their own output

A filter whose output overwrites its input sees, at each stream position, the
current sample and its own earlier outputs. `feedback taps ys xs` are the outputs
`ys` followed by the outputs for the samples `xs`; no law of the arithmetic is
assumed.

Over an integral domain such a filter is the convolution with its taps for every
stream only if all taps but the first are zero (`feedback_eq_convolve_iff`): on an
impulse, agreement makes a product of power series vanish.
-/

namespace Kit

universe u v

variable {S : Type u} {T : Type v}

section Feedback

variable [Zero S] [Add S] [HMul S T S] {taps : List T}

/-- The outputs `ys` and after them the outputs for the samples `xs`. -/
def feedback (taps : List T) (ys xs : List S) : List S :=
  xs.foldl (fun ys x => ys ++ [convolveAt taps (ys ++ [x]) ys.length]) ys

/-- The outputs for the samples `xs` after the outputs `ys`. -/
def feedbackBlock (taps : List T) (ys xs : List S) : List S :=
  (feedback taps ys xs).drop ys.length

@[simp] theorem feedback_nil (ys : List S) : feedback taps ys [] = ys := rfl

theorem feedback_append (ys xs zs : List S) :
    feedback taps ys (xs ++ zs) = feedback taps (feedback taps ys xs) zs :=
  List.foldl_append

theorem feedback_singleton (ys : List S) (x : S) :
    feedback taps ys [x] = ys ++ [convolveAt taps (ys ++ [x]) ys.length] := rfl

@[simp] theorem length_feedback (ys xs : List S) :
    (feedback taps ys xs).length = ys.length + xs.length := by
  induction xs using List.reverseRecOn with
  | nil => rfl
  | append_singleton xs x ih =>
    rw [feedback_append, feedback_singleton, List.length_append, ih, List.length_append,
      List.length_singleton, Nat.add_assoc, List.length_singleton]

/-- Outputs stay. -/
theorem prefix_feedback (taps : List T) (ys xs : List S) : ys <+: feedback taps ys xs := by
  induction xs using List.reverseRecOn with
  | nil => exact List.prefix_rfl
  | append_singleton xs x ih =>
    rw [feedback_append, feedback_singleton]
    exact ih.trans (List.prefix_append _ _)

theorem append_feedbackBlock (ys xs : List S) :
    ys ++ feedbackBlock taps ys xs = feedback taps ys xs := by
  obtain ⟨zs, later⟩ := prefix_feedback taps ys xs
  rw [feedbackBlock, ← later, List.drop_left]

@[simp] theorem length_feedbackBlock (ys xs : List S) :
    (feedbackBlock taps ys xs).length = xs.length := by
  rw [feedbackBlock, List.length_drop, length_feedback]
  omega

theorem feedbackBlock_snoc (ys xs : List S) (x : S) :
    feedbackBlock taps ys (xs ++ [x]) = feedbackBlock taps ys xs ++
      [convolveAt taps (ys ++ feedbackBlock taps ys xs ++ [x]) (ys.length + xs.length)] := by
  rw [append_feedbackBlock, feedbackBlock, feedback_append, feedback_singleton, length_feedback,
    List.drop_append_of_le_length (by rw [length_feedback]; omega)]
  rfl

theorem feedback_snoc (ys xs : List S) (x : S) :
    feedback taps ys (xs ++ [x]) = feedback taps ys xs ++
      [convolveAt taps (feedback taps ys xs ++ [x]) (ys.length + xs.length)] := by
  rw [feedback_append, feedback_singleton, length_feedback]

/-- The output at a position is the convolution of the taps with the earlier outputs
and the current sample. -/
theorem getElem?_feedback (xs : List S) {n : Nat} (inside : n < xs.length) :
    (feedback taps [] xs)[n]? =
      some (convolveAt taps ((feedback taps [] xs).take n ++ [xs.getD n 0]) n) := by
  induction xs using List.reverseRecOn with
  | nil => exact absurd inside (Nat.not_lt_zero n)
  | append_singleton xs x ih =>
    have size : (feedback taps [] xs).length = xs.length := by
      rw [length_feedback, List.length_nil, Nat.zero_add]
    rw [List.length_append, List.length_singleton] at inside
    rw [feedback_snoc, List.length_nil, Nat.zero_add]
    rcases Nat.lt_succ_iff_lt_or_eq.mp inside with earlier | rfl
    · rw [List.getElem?_append_left (by omega), List.take_append_of_le_length (by omega),
        ih earlier, List.getD_append _ _ _ _ earlier]
    · rw [List.getElem?_append_right (Nat.le_of_eq size), size, Nat.sub_self,
        List.take_append_of_le_length (Nat.le_of_eq size.symm),
        List.take_of_length_le (Nat.le_of_eq size), List.getD_append_right _ _ _ _ (Nat.le_refl _),
        Nat.sub_self]
      rfl

/-- Outputs do not depend on what follows in the stream. -/
theorem getElem?_feedback_append_left (xs zs : List S) {n : Nat} (inside : n < xs.length) :
    (feedback taps [] (xs ++ zs))[n]? = (feedback taps [] xs)[n]? := by
  obtain ⟨rest, later⟩ := prefix_feedback taps (feedback taps [] xs) zs
  rw [feedback_append, ← later, List.getElem?_append_left]
  rw [length_feedback]
  omega

/-- Outputs that are convolutions make blocks of convolutions. -/
theorem feedbackBlock_eq_convolve
    (same : ∀ (xs : List S) n, n < xs.length →
      (feedback taps [] xs).getD n 0 = convolveAt taps xs n) (xs ys : List S) :
    feedbackBlock taps (feedback taps [] xs) ys =
      (List.range ys.length).map fun i => convolveAt taps (xs ++ ys) (xs.length + i) := by
  have length : (feedback taps [] xs).length = xs.length := by
    rw [length_feedback, List.length_nil, Nat.zero_add]
  apply List.ext_getElem
  · rw [length_feedbackBlock, List.length_map, List.length_range]
  · intro i inLeft inRight
    have inBlock : i < ys.length := by
      rwa [length_feedbackBlock] at inLeft
    have position : xs.length + i < (xs ++ ys).length := by
      rw [List.length_append]
      omega
    have output := same (xs ++ ys) (xs.length + i) position
    rw [List.getD_eq_getElem _ _ (by rw [length_feedback, List.length_nil]; omega)] at output
    simp only [feedbackBlock, ← feedback_append, List.getElem_drop, length, output,
      List.getElem_map, List.getElem_range]

end Feedback

/-! ## Over a commutative ring -/

section Ring

open Finset

variable {R : Type u} [CommRing R] {taps : List R}

theorem convolveAt_eq_sum (xs : List R) (n : Nat) :
    convolveAt taps xs n =
      ∑ k ∈ range taps.length, taps.getD k 0 * sampleAt xs ((n : Int) - k) := by
  rw [convolveAt, tapSum_eq_sum, Finset.sum_range]
  apply Finset.sum_congr rfl
  intro k _
  rw [List.getD_eq_getElem?_getD, List.getElem?_eq_getElem k.isLt, Option.getD_some, mul_comm]
  rfl

/-- The first tap and the others. -/
theorem convolveAt_eq_add_sum (xs : List R) (n : Nat) :
    convolveAt taps xs n = taps.getD 0 0 * xs.getD n 0 +
      ∑ k ∈ Ico 1 taps.length, taps.getD k 0 * sampleAt xs ((n : Int) - k) := by
  rw [convolveAt_eq_sum]
  cases taps with
  | nil => simp
  | cons t ts =>
    rw [Finset.sum_range_eq_add_Ico _ (by simp), Nat.cast_zero, sub_zero, sampleAt_natCast]

/-- The recurrence of the outputs. -/
theorem feedback_recurrence (taps xs : List R) {n : Nat} (inside : n < xs.length) :
    (feedback taps [] xs).getD n 0 = taps.getD 0 0 * xs.getD n 0 +
      ∑ k ∈ Ico 1 taps.length, taps.getD k 0 * sampleAt (feedback taps [] xs) ((n : Int) - k) := by
  have size : ((feedback taps [] xs).take n).length = n := by
    rw [List.length_take, length_feedback, List.length_nil]
    omega
  have now : ((feedback taps [] xs).take n ++ [xs.getD n 0]).getD n 0 = xs.getD n 0 := by
    rw [List.getD_append_right _ _ _ _ (Nat.le_of_eq size), size, Nat.sub_self]
    rfl
  rw [List.getD_eq_getElem?_getD, getElem?_feedback xs inside, Option.getD_some,
    convolveAt_eq_add_sum, now]
  congr 1
  apply Finset.sum_congr rfl
  intro k member
  have later := (Finset.mem_Ico.mp member).1
  have before : ((n : Int) - k) < ((feedback taps [] xs).take n).length := by
    rw [size]
    omega
  conv_rhs => rw [← List.take_append_drop n (feedback taps [] xs)]
  rw [sampleAt_append_left _ _ before, sampleAt_append_left _ _ before]

/-- The taps with a zero for the first one. -/
def laterTaps (taps : List R) : List R := 0 :: taps.tail

theorem getD_laterTaps_succ (taps : List R) (k : Nat) :
    (laterTaps taps).getD (k + 1) 0 = taps.getD (k + 1) 0 := by
  cases taps with
  | nil => rfl
  | cons t ts => rfl

theorem sum_laterTaps (xs : List R) (n : Nat) :
    ∑ k ∈ Ico 1 taps.length, taps.getD k 0 * sampleAt xs ((n : Int) - k) =
      convolveAt (laterTaps taps) xs n := by
  rw [convolveAt_eq_add_sum]
  cases taps with
  | nil => simp [laterTaps]
  | cons t ts =>
    have first : (laterTaps (t :: ts)).getD 0 0 = 0 := rfl
    rw [first, zero_mul, zero_add]
    apply Finset.sum_congr rfl
    intro k member
    obtain ⟨j, rfl⟩ := Nat.exists_eq_add_of_le' (Finset.mem_Ico.mp member).1
    rw [getD_laterTaps_succ]

/-- A convolution as the coefficient of a product. -/
theorem convolveAt_eq_antidiagonal (xs : List R) (n : Nat) :
    convolveAt taps xs n = ∑ p ∈ antidiagonal n, taps.getD p.1 0 * xs.getD p.2 0 := by
  let term := fun k : Nat => taps.getD k 0 * sampleAt xs ((n : Int) - k)
  have behindTaps : ∑ k ∈ range taps.length, term k = ∑ k ∈ range (taps.length + (n + 1)), term k := by
    apply Finset.sum_subset (Finset.range_mono (Nat.le_add_right _ _))
    intro k _ outside
    have late : taps.length ≤ k := Nat.le_of_not_lt fun below => outside (Finset.mem_range.mpr below)
    simp only [term]
    rw [List.getD_eq_default _ _ late, zero_mul]
  have beforeStart : ∑ k ∈ range (n + 1), term k = ∑ k ∈ range (taps.length + (n + 1)), term k := by
    apply Finset.sum_subset (Finset.range_mono (Nat.le_add_left _ _))
    intro k _ outside
    have late : n + 1 ≤ k := Nat.le_of_not_lt fun below => outside (Finset.mem_range.mpr below)
    simp only [term]
    rw [sampleAt_of_neg _ (by omega), mul_zero]
  rw [convolveAt_eq_sum, behindTaps, ← beforeStart,
    Finset.Nat.sum_antidiagonal_eq_sum_range_succ (fun i j => taps.getD i 0 * xs.getD j 0)]
  apply Finset.sum_congr rfl
  intro k member
  have early := Finset.mem_range.mp member
  have position : (n : Int) - k = ((n - k : Nat) : Int) := by omega
  simp only [term]
  rw [position, sampleAt_natCast]

/-- The convolution with an impulse gives the taps. -/
theorem convolveAt_impulse {n j : Nat} (inside : j ≤ n) :
    convolveAt taps (1 :: List.replicate n 0) j = taps.getD j 0 := by
  rw [convolveAt_eq_antidiagonal, Finset.sum_eq_single (j, 0)]
  · rw [List.getD_cons_zero, mul_one]
  · intro p member other
    have total := Finset.HasAntidiagonal.mem_antidiagonal.mp member
    obtain ⟨i, l⟩ := p
    cases l with
    | zero => exact (other (Prod.ext total rfl)).elim
    | succ l =>
      have zero : (1 :: List.replicate n (0 : R)).getD (l + 1) 0 = 0 := by
        rw [List.getD_cons_succ, List.getD_replicate _ (by omega)]
      rw [zero, mul_zero]
  · intro absent
    exact absurd (Finset.HasAntidiagonal.mem_antidiagonal.mpr (Nat.add_zero j)) absent

/-- If the outputs are the convolutions, the taps without the first keep their power
series when multiplied by that of all taps. -/
theorem laterTaps_mul_taps
    (same : ∀ (xs : List R) n, n < xs.length →
      (feedback taps [] xs).getD n 0 = convolveAt taps xs n) :
    PowerSeries.mk (fun i => (laterTaps taps).getD i 0) * PowerSeries.mk (fun i => taps.getD i 0) =
      PowerSeries.mk fun i => (laterTaps taps).getD i 0 := by
  ext n
  let xs : List R := 1 :: List.replicate n 0
  have size : xs.length = n + 1 := by
    rw [List.length_cons, List.length_replicate]
  have response : ∀ j, j ≤ n → (feedback taps [] xs).getD j 0 = taps.getD j 0 := by
    intro j inside
    rw [same xs j (by omega), convolveAt_impulse inside]
  have product : convolveAt (laterTaps taps) (feedback taps [] xs) n =
      ∑ p ∈ antidiagonal n, (laterTaps taps).getD p.1 0 * taps.getD p.2 0 := by
    rw [convolveAt_eq_antidiagonal]
    apply Finset.sum_congr rfl
    intro p member
    have total := Finset.HasAntidiagonal.mem_antidiagonal.mp member
    rw [response p.2 (by omega)]
  have step := feedback_recurrence taps xs (n := n) (by omega)
  rw [sum_laterTaps, product, response n (Nat.le_refl n)] at step
  simp only [PowerSeries.coeff_mul, PowerSeries.coeff_mk]
  cases n with
  | zero =>
    rw [Finset.Nat.antidiagonal_zero, Finset.sum_singleton]
    exact zero_mul _
  | succ n =>
    have silent : xs.getD (n + 1) 0 = 0 := by
      rw [List.getD_cons_succ, List.getD_replicate _ (by omega)]
    rw [silent, mul_zero, zero_add] at step
    rw [← step, getD_laterTaps_succ]

/-- Over an integral domain the outputs of every stream are the convolutions with the
taps only if no tap reaches back. -/
theorem feedback_eq_convolve_iff [IsDomain R] :
    (∀ (xs : List R) n, n < xs.length →
      (feedback taps [] xs).getD n 0 = convolveAt taps xs n) ↔
      ∀ k, 1 ≤ k → taps.getD k 0 = 0 := by
  constructor
  · intro same k later
    obtain ⟨j, rfl⟩ := Nat.exists_eq_add_of_le' later
    have product := laterTaps_mul_taps same
    rcases mul_right_eq_self₀.mp product with unit | flat
    · have coefficient := congrArg (PowerSeries.coeff (j + 1)) unit
      rwa [PowerSeries.coeff_mk, PowerSeries.coeff_one, if_neg (Nat.succ_ne_zero j)] at coefficient
    · have coefficient := congrArg (PowerSeries.coeff (j + 1)) flat
      rwa [PowerSeries.coeff_mk, getD_laterTaps_succ, map_zero] at coefficient
  · intro zero xs n inside
    have silent : ∀ zs : List R,
        ∑ k ∈ Ico 1 taps.length, taps.getD k 0 * sampleAt zs ((n : Int) - k) = 0 := by
      intro zs
      apply Finset.sum_eq_zero
      intro k member
      rw [zero k (Finset.mem_Ico.mp member).1, zero_mul]
    rw [feedback_recurrence taps xs inside, convolveAt_eq_add_sum, silent, silent]

end Ring

end Kit
