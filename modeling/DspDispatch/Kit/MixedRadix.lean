import DspDispatch.Kit.Dft

/-!
# Mixed-radix decomposition of the discrete Fourier transform

A transform of length `n = l * m` is made in stages. After the stages of the factors
with product `l`, the value `stage forward n l z i k` is bin `k` of the transform of the
`l` samples `i`, `i + m`, `i + 2 * m`, ..., times the twiddle factor `i * k` of length
`n`. Before the first stage these are the samples (`stage_one`), after the last one the
bins (`stage_self`), and the stage of one more factor `p` is a butterfly of radix `p`
followed by a multiplication (`stage_mul`).
-/

namespace Kit

open Finset

section Twiddles

variable {forward : Bool} {n m c : Nat}

/-- A common factor of length and index cancels. -/
theorem twiddle_cancel (positive : 0 < c) :
    twiddle forward (c * n) (c * m) = twiddle forward n m := by
  have nonzero : (c : ℂ) ≠ 0 := Nat.cast_ne_zero.mpr positive.ne'
  rw [twiddle, twiddle]
  congr 2
  push_cast
  rw [mul_left_comm, mul_div_mul_left _ _ nonzero]

/-- Whole turns do not count. -/
theorem twiddle_multiple (positive : 0 < n) (m : Nat) : twiddle forward n (n * m) = 1 := by
  rw [twiddle_mul, twiddle_self positive, one_pow]

theorem twiddle_mod (positive : 0 < n) (m : Nat) :
    twiddle forward n (m % n) = twiddle forward n m := by
  conv_rhs => rw [← Nat.mod_add_div m n]
  rw [twiddle_add, twiddle_multiple positive, mul_one]

/-- Indices that add up to whole turns give opposite factors. -/
theorem twiddle_opposite {a b : Nat} (positive : 0 < n) (whole : a + b = n * c) :
    twiddle forward n a = twiddle (!forward) n b := by
  have product : twiddle forward n a * twiddle forward n b = 1 := by
    rw [← twiddle_add, whole, twiddle_multiple positive]
  calc twiddle forward n a
      = twiddle forward n a * (twiddle forward n b * twiddle (!forward) n b) := by
        rw [twiddle_mul_twiddle, mul_one]
    _ = twiddle (!forward) n b := by rw [← mul_assoc, product, one_mul]

end Twiddles

/-- A sum over `n * c` indices in blocks of `c`. -/
theorem sum_range_mul {M : Type*} [AddCommMonoid M] (n c : Nat) (f : Nat → M) :
    ∑ q ∈ range (n * c), f q = ∑ b ∈ range n, ∑ j ∈ range c, f (j + c * b) := by
  induction n with
  | zero => rw [Nat.zero_mul, sum_range_zero, sum_range_zero]
  | succ n ih =>
    rw [Nat.succ_mul, sum_range_add, ih, sum_range_succ]
    refine congrArg _ (sum_congr rfl fun j _ => ?_)
    rw [Nat.mul_comm n, Nat.add_comm]

/-- The values after the stages of factors with product `l`. -/
noncomputable def stage (forward : Bool) (n l : Nat) (z : Nat → ℂ) (i k : Nat) : ℂ :=
  dft forward l (fun q => z (i + n / l * q)) k * twiddle forward n (i * k)

section Stage

variable {forward : Bool} {n l : Nat} {z : Nat → ℂ}

/-- At first there are the samples. -/
theorem stage_one (i : Nat) : stage forward n 1 z i 0 = z i := by
  rw [stage, dft_zero, sum_range_one, Nat.mul_zero, Nat.mul_zero, twiddle_zero, mul_one,
    Nat.add_zero]

/-- In the end there are the bins. -/
theorem stage_self (positive : 0 < n) (k : Nat) :
    stage forward n n z 0 k = dft forward n z k := by
  rw [stage, Nat.zero_mul, twiddle_zero, mul_one, Nat.div_self positive]
  refine dft_congr ?_ k
  intro q _
  rw [Nat.zero_add, Nat.one_mul]

/-- The stage of a factor `p`: a butterfly of radix `p` and a multiplication. -/
theorem stage_mul {p ido : Nat} (factored : n = l * p * ido) (positive : 0 < n) (i k m : Nat) :
    (∑ j ∈ range p, stage forward n l z (i + ido * j) k * twiddle forward p (j * m)) *
        twiddle forward n (m * l * i) =
      stage forward n (l * p) z i (k + l * m) := by
  have hl : 0 < l := Nat.pos_of_ne_zero (by rintro rfl; simp at factored; omega)
  have hp : 0 < p := Nat.pos_of_ne_zero (by rintro rfl; simp at factored; omega)
  have hido : 0 < ido := Nat.pos_of_ne_zero (by rintro rfl; simp at factored; omega)
  have wide : n / l = ido * p := by
    rw [factored, Nat.mul_assoc, Nat.mul_div_cancel_left _ hl, Nat.mul_comm]
  have narrow : n / (l * p) = ido := by
    rw [factored, Nat.mul_div_cancel_left _ (Nat.mul_pos hl hp)]
  -- sample `j + p * b` of the longer transforms is sample `b` of the shorter one at `j`
  have index : ∀ b j, twiddle forward (l * p) ((j + p * b) * (k + l * m)) =
      twiddle forward l (b * k) * twiddle forward p (j * m) * twiddle forward (l * p) (j * k) := by
    intro b j
    have expand : (j + p * b) * (k + l * m) =
        p * (b * k) + l * (j * m) + j * k + l * p * (b * m) := by ring
    rw [expand, twiddle_add, twiddle_add, twiddle_add, twiddle_multiple (Nat.mul_pos hl hp),
      twiddle_cancel hl, Nat.mul_comm l p, twiddle_cancel hp, mul_one]
  have outer : ∀ j, twiddle forward n ((i + ido * j) * k) * twiddle forward n (m * l * i) =
      twiddle forward (l * p) (j * k) * twiddle forward n (i * (k + l * m)) := by
    intro j
    have expand : (i + ido * j) * k + m * l * i = ido * (j * k) + i * (k + l * m) := by ring
    rw [← twiddle_add, expand, twiddle_add, factored, Nat.mul_comm (l * p) ido,
      twiddle_cancel hido]
  rw [stage, narrow, dft, sum_range_mul, sum_comm, sum_mul, sum_mul]
  refine sum_congr rfl fun j _ => ?_
  rw [stage, dft, wide, sum_mul, sum_mul, sum_mul, sum_mul]
  refine sum_congr rfl fun b _ => ?_
  rw [index b j]
  have place : i + ido * j + ido * p * b = i + ido * (j + p * b) := by ring
  rw [place]
  calc z (i + ido * (j + p * b)) * twiddle forward l (b * k) *
          twiddle forward n ((i + ido * j) * k) * twiddle forward p (j * m) *
          twiddle forward n (m * l * i)
      = z (i + ido * (j + p * b)) * twiddle forward l (b * k) * twiddle forward p (j * m) *
          (twiddle forward n ((i + ido * j) * k) * twiddle forward n (m * l * i)) := by ring
    _ = _ := by
      rw [outer j]
      ring

end Stage

end Kit
