import DspDispatch.Kit.MixedRadix

/-!
# Convolutions by Fourier transforms

The transform of a cyclic convolution is the product of the transforms (`dft_convolve`), so
the transform back gives the convolution (`dft_mul_dft`).

With `2 * j * k = j ^ 2 + k ^ 2 - (k - j) ^ 2` a transform of any length `n` is a
convolution with a chirp: `dft_chirp` states it for signals padded to any length from
`2 * n - 1` on.
-/

namespace Kit

open Finset

section Cyclic

variable {forward : Bool} {n : Nat}

/-- A sum over all residues, shifted. -/
theorem sum_range_shift {M : Type*} [AddCommMonoid M] (n c : Nat) (g : Nat → M) :
    ∑ j ∈ range n, g ((j + c) % n) = ∑ j ∈ range n, g j := by
  induction c generalizing g with
  | zero =>
    refine sum_congr rfl fun j member => ?_
    rw [Nat.add_zero, Nat.mod_eq_of_lt (mem_range.mp member)]
  | succ c ih =>
    refine Eq.trans ?_ (ih g)
    rcases n with _ | n
    · rfl
    · rw [sum_range_succ, sum_range_succ' fun j => g ((j + c) % (n + 1))]
      refine congrArg₂ _ (sum_congr rfl fun j _ => ?_) ?_
      · rw [Nat.add_right_comm, Nat.add_assoc]
      · have around : n + (c + 1) = 0 + c + (n + 1) := by omega
        rw [around, Nat.add_mod_right]

/-- The cyclic convolution of two signals of length `n`. -/
noncomputable def convolve (n : Nat) (a b : Nat → ℂ) (k : Nat) : ℂ :=
  ∑ j ∈ range n, a j * b ((k + (n - j)) % n)

theorem dft_convolve (a b : Nat → ℂ) (k : Nat) :
    dft forward n (convolve n a b) k = dft forward n a k * dft forward n b k := by
  have shift : ∀ j, j < n → ∑ i ∈ range n, b ((i + (n - j)) % n) * twiddle forward n (i * k) =
      twiddle forward n (j * k) * dft forward n b k := by
    intro j below
    have all := sum_range_shift n (n - j) fun i => b i * twiddle forward n (i * k)
    rw [dft, ← all, mul_sum]
    refine sum_congr rfl fun i _ => ?_
    have around : twiddle forward n (i * k) =
        twiddle forward n (j * k) * twiddle forward n ((i + (n - j)) % n * k) := by
      rw [twiddle_mul forward n ((i + (n - j)) % n), twiddle_mod (by omega), ← twiddle_mul,
        ← twiddle_add]
      have whole : j * k + (i + (n - j)) * k = i * k + n * k := by
        rw [← Nat.add_mul, ← Nat.add_mul]
        congr 1
        omega
      rw [whole, twiddle_add, twiddle_multiple (by omega), mul_one]
    rw [around]
    ring
  rw [dft, dft, sum_mul]
  simp only [convolve, sum_mul]
  rw [sum_comm]
  refine sum_congr rfl fun j member => ?_
  rw [mul_assoc, ← shift j (mem_range.mp member), mul_sum]
  exact sum_congr rfl fun i _ => mul_assoc _ _ _

/-- Transform, multiply, transform back. -/
theorem dft_mul_dft (forward : Bool) (a b : Nat → ℂ) {k : Nat} (below : k < n) :
    dft (!forward) n (fun m => dft forward n a m * dft forward n b m) k =
      n * convolve n a b k := by
  rw [← dft_dft forward _ below]
  exact dft_congr (fun m _ => (dft_convolve a b m).symm) k

/-- A sum over all residues but zero, backwards. -/
theorem sum_range_negate {M : Type*} [AddCommMonoid M] (n : Nat) (g : Nat → M) :
    ∑ j ∈ range n, g (if j = 0 then 0 else n - j) = ∑ j ∈ range n, g j := by
  rcases n with _ | n
  · rfl
  · rw [sum_range_succ', sum_range_succ' g, if_pos rfl, ← sum_range_reflect fun j => g (j + 1)]
    refine congrArg (· + g 0) (sum_congr rfl fun j member => ?_)
    have below := mem_range.mp member
    rw [if_neg (Nat.succ_ne_zero j)]
    congr 1
    omega

/-- The transform of a symmetric signal does not depend on the direction. -/
theorem dft_symmetric (forward : Bool) {b : Nat → ℂ}
    (symmetric : ∀ m, 0 < m → m < n → b (n - m) = b m) (k : Nat) :
    dft (!forward) n b k = dft forward n b k := by
  rw [dft, ← sum_range_negate n fun m => b m * twiddle (!forward) n (m * k)]
  refine sum_congr rfl fun j member => ?_
  have below := mem_range.mp member
  split
  · rename_i first
    rw [first, Nat.zero_mul, twiddle_zero, twiddle_zero]
  · rename_i other
    have turns : (n - j) * k + j * k = n * k := by
      rw [← Nat.add_mul, Nat.sub_add_cancel (Nat.le_of_lt below)]
    rw [symmetric j (by omega) below, twiddle_opposite (by omega) turns, Bool.not_not]

/-- And it is symmetric itself. -/
theorem dft_sub_of_symmetric {b : Nat → ℂ} (symmetric : ∀ m, 0 < m → m < n → b (n - m) = b m)
    {k : Nat} (positive : 0 < n) (le : k ≤ n) : dft forward n b (n - k) = dft forward n b k := by
  have turned : dft forward n b (n - k) = dft (!forward) n b k := by
    refine sum_congr rfl fun j _ => ?_
    have turns : j * (n - k) + j * k = n * j := by
      rw [← Nat.mul_add, Nat.sub_add_cancel le, Nat.mul_comm]
    rw [twiddle_opposite positive turns]
  rw [turned, dft_symmetric forward symmetric]

end Cyclic

/-! ## Chirps -/

/-- Half a turn for every `n`, with the square of the index. -/
noncomputable def chirp (forward : Bool) (n m : Nat) : ℂ := twiddle forward (2 * n) (m * m)

section Chirp

variable {forward : Bool} {n : Nat}

theorem chirp_mul_chirp (m : Nat) : chirp forward n m * chirp (!forward) n m = 1 :=
  twiddle_mul_twiddle forward (2 * n) (m * m)

/-- The product of two indices from three squares. -/
theorem twiddle_of_chirps {j k d : Nat} (distance : j + d = k ∨ k + d = j) :
    twiddle forward n (j * k) =
      chirp forward n k * (chirp forward n j * chirp (!forward) n d) := by
  have squares : j * j + k * k = 2 * (j * k) + d * d := by
    rcases distance with rfl | rfl
    · ring
    · ring
  have split : chirp forward n j * chirp forward n k =
      twiddle forward n (j * k) * chirp forward n d := by
    rw [chirp, chirp, chirp, ← twiddle_add, squares, twiddle_add, twiddle_cancel (by omega)]
  calc twiddle forward n (j * k)
      = twiddle forward n (j * k) * (chirp forward n d * chirp (!forward) n d) := by
        rw [chirp_mul_chirp, mul_one]
    _ = chirp forward n j * chirp forward n k * chirp (!forward) n d := by
        rw [split, mul_assoc]
    _ = chirp forward n k * (chirp forward n j * chirp (!forward) n d) := by ring

/-- A signal times the chirp, padded with zeros. -/
noncomputable def chirpInput (forward : Bool) (n : Nat) (z : Nat → ℂ) (m : Nat) : ℂ :=
  if m < n then z m * chirp forward n m else 0

/-- The opposite chirp at both ends of an array of length `size`, zero between. -/
noncomputable def chirpKernel (forward : Bool) (n size m : Nat) : ℂ :=
  if m < n then chirp (!forward) n m
  else if size - m < n then chirp (!forward) n (size - m)
  else 0

theorem chirpKernel_symmetric {size m : Nat} (room : 2 * n ≤ size + 1) (positive : 0 < m)
    (below : m < size) : chirpKernel forward n size (size - m) = chirpKernel forward n size m := by
  have back : size - (size - m) = m := by omega
  rw [chirpKernel, chirpKernel, back]
  rcases Nat.lt_or_ge m n with left | middle
  · rw [if_neg (by omega), if_pos left, if_pos left]
  · rw [if_neg (by omega : ¬ m < n), if_neg (by omega : ¬ m < n)]

/-- The kernel at the distance of two indices. -/
theorem chirpKernel_distance {size j k : Nat} (room : 2 * n ≤ size + 1) (hj : j < n)
    (hk : k < n) :
    twiddle forward n (j * k) = chirp forward n k *
      (chirp forward n j * chirpKernel forward n size ((k + (size - j)) % size)) := by
  rcases Nat.lt_or_ge k j with before | after
  · have place : (k + (size - j)) % size = size - (j - k) := by
      rw [Nat.mod_eq_of_lt (by omega)]
      omega
    have back : size - (size - (j - k)) = j - k := by omega
    rw [place, chirpKernel, if_neg (by omega), back, if_pos (by omega)]
    exact twiddle_of_chirps (.inr (by omega))
  · have place : (k + (size - j)) % size = k - j := by
      have around : k + (size - j) = k - j + size := by omega
      rw [around, Nat.add_mod_right, Nat.mod_eq_of_lt (by omega)]
    rw [place, chirpKernel, if_pos (by omega)]
    exact twiddle_of_chirps (.inl (by omega))

/-- A transform of length `n` is a cyclic convolution of any length from `2 * n - 1` on. -/
theorem dft_chirp {size k : Nat} (room : 2 * n ≤ size + 1) (z : Nat → ℂ) (below : k < n) :
    dft forward n z k = chirp forward n k *
      convolve size (chirpInput forward n z) (chirpKernel forward n size) k := by
  have few : range n ⊆ range size := range_subset_range.mpr (by omega)
  rw [convolve, ← sum_subset few, mul_sum]
  · refine sum_congr rfl fun j member => ?_
    have inside := mem_range.mp member
    rw [chirpKernel_distance room inside below, chirpInput, if_pos inside]
    ring
  · intro j _ outside
    rw [chirpInput, if_neg (mt mem_range.mpr outside), zero_mul]

end Chirp

end Kit
