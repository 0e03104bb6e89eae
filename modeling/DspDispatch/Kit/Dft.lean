import Mathlib.RingTheory.RootsOfUnity.Complex
import Mathlib.Algebra.Field.GeomSum
import Mathlib.Analysis.Complex.Basic
import DspDispatch.Kit.Memory

/-!
# Discrete Fourier transforms

`dft forward n z` is the plain sum over `n` samples with the negative sign in
the exponent for the forward direction and the positive one for the inverse, and
no scale. Composing the two directions gives `n` times the input
(`dft_dft`).

The spectrum of a real signal is determined by its bins up to `n / 2`.
`hermitian n X` extends such bins to a whole spectrum, for odd and even `n`
alike, and gives back the spectrum of a real signal (`hermitian_dft`).

`DftKind.lane` is a transform of one lane of scalars, complex values stored as
pairs: complex to complex, real to bins, or bins to real. Its round trips are
`lane_c2c_c2c` and `lane_c2r_r2c`.
-/

namespace Kit

open Complex Finset

/-- `exp(-2πi m / n)` for the forward direction, `exp(2πi m / n)` for the
inverse. -/
noncomputable def twiddle (forward : Bool) (n m : Nat) : ℂ :=
  exp ((if forward then -1 else 1) * (2 * Real.pi * I * m / n))

/-- The unscaled transform of `n` samples, at bin `k`. -/
noncomputable def dft (forward : Bool) (n : Nat) (z : Nat → ℂ) (k : Nat) : ℂ :=
  ∑ j ∈ range n, z j * twiddle forward n (j * k)

theorem dft_congr {forward : Bool} {n : Nat} {z z' : Nat → ℂ} (same : ∀ j, j < n → z j = z' j)
    (k : Nat) : dft forward n z k = dft forward n z' k :=
  Finset.sum_congr rfl fun j member => by rw [same j (Finset.mem_range.mp member)]

/-- Bin zero is the sum of the samples. -/
theorem dft_zero (forward : Bool) (n : Nat) (z : Nat → ℂ) :
    dft forward n z 0 = ∑ j ∈ range n, z j := by
  simp [dft, twiddle]

@[simp] theorem twiddle_zero (forward : Bool) (n : Nat) : twiddle forward n 0 = 1 := by
  simp [twiddle]

theorem twiddle_add (forward : Bool) (n a b : Nat) :
    twiddle forward n (a + b) = twiddle forward n a * twiddle forward n b := by
  rw [twiddle, twiddle, twiddle, ← exp_add]
  congr 1
  push_cast
  ring

theorem twiddle_mul (forward : Bool) (n a k : Nat) :
    twiddle forward n (a * k) = twiddle forward n a ^ k := by
  rw [twiddle, twiddle, ← exp_nat_mul]
  congr 1
  push_cast
  ring

/-- Opposite directions cancel. -/
theorem twiddle_mul_twiddle (forward : Bool) (n m : Nat) :
    twiddle forward n m * twiddle (!forward) n m = 1 := by
  rw [twiddle, twiddle, ← exp_add]
  cases forward <;> simp

theorem twiddle_self {n : Nat} (positive : 0 < n) (forward : Bool) : twiddle forward n n = 1 := by
  have nonzero : (n : ℂ) ≠ 0 := Nat.cast_ne_zero.mpr positive.ne'
  rw [twiddle, mul_div_assoc, div_self nonzero, mul_one]
  cases forward
  · simp [exp_two_pi_mul_I]
  · simp [exp_neg, exp_two_pi_mul_I]

/-- Conjugation turns one direction into the other. -/
theorem conj_twiddle (forward : Bool) (n m : Nat) :
    (starRingEnd ℂ) (twiddle forward n m) = twiddle (!forward) n m := by
  rw [twiddle, twiddle, ← exp_conj]
  congr 1
  cases forward <;> simp [Complex.conj_ofReal, Complex.conj_ofNat, neg_div]

/-- A twiddle factor of an index strictly between `0` and `n` is not one. -/
theorem twiddle_ne_one {n m : Nat} (forward : Bool) (positive : 0 < m) (below : m < n) :
    twiddle forward n m ≠ 1 := by
  have root := Complex.isPrimitiveRoot_exp n (by omega)
  have inverse : twiddle false n m ≠ 1 := by
    have power : twiddle false n m = exp (2 * Real.pi * I / n) ^ m := by
      rw [twiddle, ← exp_nat_mul]
      congr 1
      simp only [Bool.false_eq_true, if_false]
      ring
    rw [power]
    exact root.pow_ne_one_of_pos_of_lt positive.ne' below
  cases forward with
  | false => exact inverse
  | true =>
    intro one
    have product := twiddle_mul_twiddle true n m
    rw [one, one_mul] at product
    exact inverse product

/-- The powers of a twiddle factor of a proper index sum to zero. -/
theorem sum_twiddle {n m : Nat} (forward : Bool) (positive : 0 < m) (below : m < n) :
    ∑ k ∈ range n, twiddle forward n (m * k) = 0 := by
  have cycle : twiddle forward n m ^ n = 1 := by
    rw [← twiddle_mul, Nat.mul_comm, twiddle_mul, twiddle_self (by omega), one_pow]
  calc ∑ k ∈ range n, twiddle forward n (m * k)
      = ∑ k ∈ range n, twiddle forward n m ^ k :=
        Finset.sum_congr rfl fun k _ => twiddle_mul forward n m k
    _ = 0 := by
        rw [geom_sum_eq (twiddle_ne_one forward positive below), cycle, sub_self, zero_div]

/-- Orthogonality of the rows of the two directions. -/
theorem sum_twiddle_mul_twiddle {n j l : Nat} (forward : Bool) (hj : j < n) (hl : l < n) :
    ∑ k ∈ range n, twiddle forward n (j * k) * twiddle (!forward) n (k * l) =
      if j = l then (n : ℂ) else 0 := by
  -- the common factor of the two rows cancels
  have cancel : ∀ (direction : Bool) (a b k : Nat), a ≤ b →
      twiddle direction n (a * k) * twiddle (!direction) n (b * k) =
        twiddle (!direction) n ((b - a) * k) := by
    intro direction a b k le
    have split : b * k = a * k + (b - a) * k := by
      rw [← Nat.add_mul]
      congr 1
      omega
    rw [split, twiddle_add, ← mul_assoc, twiddle_mul_twiddle, one_mul]
  rcases Nat.lt_trichotomy j l with before | rfl | after
  · rw [if_neg (by omega), ← sum_twiddle (!forward) (m := l - j) (n := n) (by omega) (by omega)]
    refine Finset.sum_congr rfl fun k _ => ?_
    rw [Nat.mul_comm k l, cancel forward j l k (by omega)]
  · rw [if_pos rfl]
    have ones : ∀ k ∈ range n, twiddle forward n (j * k) * twiddle (!forward) n (k * j) = 1 := by
      intro k _
      rw [Nat.mul_comm k j, twiddle_mul_twiddle]
    rw [Finset.sum_congr rfl ones, Finset.sum_const, Finset.card_range, nsmul_eq_mul, mul_one]
  · rw [if_neg (by omega), ← sum_twiddle forward (m := j - l) (n := n) (by omega) (by omega)]
    refine Finset.sum_congr rfl fun k _ => ?_
    have swapped := cancel (!forward) l j k (by omega)
    rw [Bool.not_not] at swapped
    rw [Nat.mul_comm k l, mul_comm, swapped]

/-- Transforming back gives `n` times the input. -/
theorem dft_dft {n : Nat} (forward : Bool) (z : Nat → ℂ) {l : Nat} (hl : l < n) :
    dft (!forward) n (dft forward n z) l = n * z l := by
  calc dft (!forward) n (dft forward n z) l
      = ∑ k ∈ range n, ∑ j ∈ range n,
          z j * (twiddle forward n (j * k) * twiddle (!forward) n (k * l)) := by
        refine Finset.sum_congr rfl fun k _ => ?_
        rw [dft, Finset.sum_mul]
        exact Finset.sum_congr rfl fun j _ => mul_assoc _ _ _
    _ = ∑ j ∈ range n, z j *
          ∑ k ∈ range n, twiddle forward n (j * k) * twiddle (!forward) n (k * l) := by
        rw [Finset.sum_comm]
        exact Finset.sum_congr rfl fun j _ => (Finset.mul_sum _ _ _).symm
    _ = ∑ j ∈ range n, z j * if j = l then (n : ℂ) else 0 := by
        refine Finset.sum_congr rfl fun j member => ?_
        rw [sum_twiddle_mul_twiddle forward (Finset.mem_range.mp member) hl]
    _ = n * z l := by
        simp only [mul_ite, mul_zero]
        rw [Finset.sum_ite_eq' (range n) l, if_pos (Finset.mem_range.mpr hl), mul_comm]

/-- The transform is linear in a scale of its input. -/
theorem dft_smul (forward : Bool) (n : Nat) (c : ℂ) (z : Nat → ℂ) (k : Nat) :
    dft forward n (fun j => c * z j) k = c * dft forward n z k := by
  rw [dft, dft, Finset.mul_sum]
  exact Finset.sum_congr rfl fun j _ => mul_assoc _ _ _

/-! ## Real signals -/

/-- The spectrum with the given bins up to `n / 2` whose other bins are their
conjugates. -/
noncomputable def hermitian (n : Nat) (X : Nat → ℂ) (k : Nat) : ℂ :=
  if k ≤ n / 2 then X k else (starRingEnd ℂ) (X (n - k))

/-- The bins a real signal cannot have an imaginary part in. -/
def RealEnds (n : Nat) (X : Nat → ℂ) : Prop :=
  (X 0).im = 0 ∧ (n % 2 = 0 → (X (n / 2)).im = 0)

/-- The spectrum of a real signal is conjugate symmetric. -/
theorem conj_dft_ofReal (forward : Bool) {n k : Nat} (x : Nat → ℝ) (le : k ≤ n) :
    (starRingEnd ℂ) (dft forward n (fun j => x j) (n - k)) = dft forward n (fun j => x j) k := by
  rw [dft, dft, map_sum]
  refine Finset.sum_congr rfl fun j member => ?_
  have positive : 0 < n := Nat.zero_lt_of_lt (Finset.mem_range.mp member)
  have whole : twiddle forward n (j * (n - k)) * twiddle forward n (j * k) = 1 := by
    rw [← twiddle_add, ← Nat.mul_add, Nat.sub_add_cancel le, Nat.mul_comm, twiddle_mul,
      twiddle_self positive, one_pow]
  have opposite := twiddle_mul_twiddle forward n (j * (n - k))
  have nonzero : twiddle forward n (j * (n - k)) ≠ 0 := left_ne_zero_of_mul_eq_one whole
  rw [map_mul, conj_ofReal, conj_twiddle, mul_left_cancel₀ nonzero (opposite.trans whole.symm)]

theorem hermitian_dft {n k : Nat} (forward : Bool) (x : Nat → ℝ) (below : k < n) :
    hermitian n (dft forward n fun j => x j) k = dft forward n (fun j => x j) k := by
  unfold hermitian
  split
  · rfl
  · exact conj_dft_ofReal forward x (Nat.le_of_lt below)

/-- The end bins of the spectrum of a real signal are real. -/
theorem realEnds_dft {n : Nat} (forward : Bool) (x : Nat → ℝ) :
    RealEnds n (dft forward n fun j => x j) := by
  refine ⟨?_, fun even => ?_⟩
  · have zero : dft forward n (fun j => x j) 0 = ((∑ j ∈ range n, x j : ℝ) : ℂ) := by
      rw [dft, ofReal_sum]
      exact Finset.sum_congr rfl fun j _ => by rw [Nat.mul_zero, twiddle_zero, mul_one]
    rw [zero, ofReal_im]
  · have symmetric := conj_dft_ofReal (n := n) forward x (Nat.div_le_self n 2)
    have half : n - n / 2 = n / 2 := by omega
    rw [half] at symmetric
    exact conj_eq_iff_im.mp symmetric

/-- The bins without the imaginary parts a real signal cannot have. -/
noncomputable def realBins (n : Nat) (X : Nat → ℂ) (k : Nat) : ℂ :=
  if k = 0 ∨ 2 * k = n then ((X k).re : ℂ) else X k

theorem realBins_re (n : Nat) (X : Nat → ℂ) (k : Nat) : (realBins n X k).re = (X k).re := by
  rw [realBins]
  split
  · exact ofReal_re _
  · rfl

theorem realBins_eq {n k : Nat} (X : Nat → ℂ) (inner : k ≠ 0) (proper : 2 * k ≠ n) :
    realBins n X k = X k :=
  if_neg (not_or.mpr ⟨inner, proper⟩)

theorem realEnds_realBins (n : Nat) (X : Nat → ℂ) : RealEnds n (realBins n X) := by
  refine ⟨?_, fun even => ?_⟩
  · rw [realBins, if_pos (.inl rfl), ofReal_im]
  · rw [realBins, if_pos (.inr (by omega)), ofReal_im]

theorem hermitian_realBins_re (n : Nat) (X : Nat → ℂ) (k : Nat) :
    (hermitian n (realBins n X) k).re = (hermitian n X k).re := by
  rw [hermitian, hermitian]
  split
  · exact realBins_re n X k
  · rw [conj_re, conj_re, realBins_re]

theorem hermitian_realBins {n k : Nat} (X : Nat → ℂ) (below : k < n) (inner : k ≠ 0)
    (proper : 2 * k ≠ n) : hermitian n (realBins n X) k = hermitian n X k := by
  rw [hermitian, hermitian]
  split
  · exact realBins_eq X inner proper
  · rw [realBins_eq X (by omega) (by omega)]

/-- Half a turn and its multiples are real. -/
theorem twiddle_half_im {n q : Nat} (forward : Bool) (positive : 0 < n) (half : 2 * q = n)
    (k : Nat) : (twiddle forward n (q * k)).im = 0 := by
  have turn : twiddle forward n (q * k) * twiddle forward n (q * k) = 1 := by
    have whole : q * k + q * k = n * k := by rw [← Nat.two_mul, ← Nat.mul_assoc, half]
    rw [← twiddle_add, whole, twiddle_mul, twiddle_self positive, one_pow]
  rcases mul_self_eq_one_iff.mp turn with one | minus
  · rw [one, one_im]
  · rw [minus, neg_im, one_im, neg_zero]

/-- The real parts of the transform do not depend on the imaginary parts of the end bins. -/
theorem dft_hermitian_realBins_re (forward : Bool) (n : Nat) (X : Nat → ℂ) (k : Nat) :
    (dft forward n (hermitian n (realBins n X)) k).re = (dft forward n (hermitian n X) k).re := by
  rw [dft, dft, re_sum, re_sum]
  refine Finset.sum_congr rfl fun j member => ?_
  have below := Finset.mem_range.mp member
  by_cases inner : j ≠ 0 ∧ 2 * j ≠ n
  · rw [hermitian_realBins X below inner.1 inner.2]
  · have real : (twiddle forward n (j * k)).im = 0 := by
      rcases Nat.eq_zero_or_pos j with rfl | positive
      · rw [Nat.zero_mul, twiddle_zero, one_im]
      · exact twiddle_half_im forward (by omega) (by omega) k
    rw [mul_re, mul_re, real, mul_zero, mul_zero, hermitian_realBins_re]

/-- Transforming the extended bins of a real signal back gives `n` times the
signal. -/
theorem dft_hermitian_dft {n l : Nat} (forward : Bool) (x : Nat → ℝ) (hl : l < n) :
    dft (!forward) n (hermitian n (dft forward n fun j => x j)) l = ((n * x l : ℝ) : ℂ) := by
  rw [dft_congr fun k below => hermitian_dft forward x below, dft_dft forward _ hl]
  push_cast
  rfl

/-! ## Lanes of scalars -/

/-- The complex values of a lane of interleaved scalars. -/
def complexAt (xs : List ℝ) (j : Nat) : ℂ := ⟨xs.getD (2 * j) 0, xs.getD (2 * j + 1) 0⟩

/-- The first `n` values as interleaved scalars. -/
def interleave (n : Nat) (z : Nat → ℂ) : List ℝ := lanes n fun k => [(z k).re, (z k).im]

@[simp] theorem length_interleave (n : Nat) (z : Nat → ℂ) : (interleave n z).length = n * 2 :=
  length_lanes fun _ _ => rfl

theorem interleave_congr {n : Nat} {z z' : Nat → ℂ} (same : ∀ k, k < n → z k = z' k) :
    interleave n z = interleave n z' :=
  lanes_congr fun k below => by rw [same k below]

/-- The scalars of one value. -/
theorem getElem?_interleave {n k : Nat} (z : Nat → ℂ) (below : k < n) :
    (interleave n z)[k * 2]? = some (z k).re ∧ (interleave n z)[k * 2 + 1]? = some (z k).im := by
  have width : ∀ b, b < n → ([(z b).re, (z b).im] : List ℝ).length = 2 := fun _ _ => rfl
  have first := getElem?_lanes (i := 0) width below (by omega)
  have second := getElem?_lanes (i := 1) width below (by omega)
  rw [Nat.add_zero] at first
  exact ⟨first, second⟩

theorem complexAt_interleave {n k : Nat} (z : Nat → ℂ) (below : k < n) :
    complexAt (interleave n z) k = z k := by
  obtain ⟨first, second⟩ := getElem?_interleave z below
  rw [complexAt, Nat.mul_comm 2 k, List.getD_eq_getElem?_getD, List.getD_eq_getElem?_getD, second,
    first]
  rfl

/-- A lane is the interleaving of its complex values. -/
theorem interleave_complexAt {n : Nat} {xs : List ℝ} (size : xs.length = n * 2) :
    interleave n (complexAt xs) = xs := by
  conv_rhs => rw [← lanes_segment size]
  apply lanes_congr
  intro k below
  have inside := lane_end_le 2 below
  apply List.ext_getElem?
  intro i
  rw [getElem?_segment]
  match i with
  | 0 =>
    have cell : xs[k * 2]? = some xs[k * 2] := List.getElem?_eq_getElem (by omega)
    simp [complexAt, Nat.mul_comm 2 k, List.getD_eq_getElem?_getD, cell]
  | 1 =>
    have cell : xs[k * 2 + 1]? = some xs[k * 2 + 1] := List.getElem?_eq_getElem (by omega)
    simp [complexAt, Nat.mul_comm 2 k, List.getD_eq_getElem?_getD, cell]
  | _ + 2 => simp

/-- The transforms of one lane: complex to complex in a direction, real samples
to the bins up to `n / 2`, and such bins to real samples. -/
inductive DftKind
  | c2c (forward : Bool)
  | r2c
  | c2r
deriving DecidableEq

/-- Scalars of an input element. -/
def DftKind.inWidth : DftKind → Nat
  | .c2c _ => 2
  | .r2c => 1
  | .c2r => 2

/-- Scalars of an output element. -/
def DftKind.outWidth : DftKind → Nat
  | .c2c _ => 2
  | .r2c => 2
  | .c2r => 1

theorem DftKind.inWidth_pos (kind : DftKind) : 0 < kind.inWidth := by
  cases kind <;> exact Nat.succ_pos _

theorem DftKind.outWidth_pos (kind : DftKind) : 0 < kind.outWidth := by
  cases kind <;> exact Nat.succ_pos _

/-- Scalars of an input lane of a transform of length `n`. -/
def DftKind.inLen (n : Nat) : DftKind → Nat
  | .c2c _ => n * 2
  | .r2c => n
  | .c2r => (n / 2 + 1) * 2

/-- Scalars of an output lane. -/
def DftKind.outLen (n : Nat) : DftKind → Nat
  | .c2c _ => n * 2
  | .r2c => (n / 2 + 1) * 2
  | .c2r => n

theorem DftKind.inLen_pos (kind : DftKind) {n : Nat} (positive : 0 < n) : 0 < kind.inLen n := by
  cases kind with
  | c2c forward => exact Nat.mul_pos positive Nat.two_pos
  | r2c => exact positive
  | c2r => exact Nat.mul_pos (Nat.succ_pos _) Nat.two_pos

theorem DftKind.outLen_pos (kind : DftKind) {n : Nat} (positive : 0 < n) : 0 < kind.outLen n := by
  cases kind with
  | c2c forward => exact Nat.mul_pos positive Nat.two_pos
  | r2c => exact Nat.mul_pos (Nat.succ_pos _) Nat.two_pos
  | c2r => exact positive

theorem DftKind.outLen_mono (kind : DftKind) {n k : Nat} (le : n ≤ k) :
    kind.outLen n ≤ kind.outLen k := by
  cases kind with
  | c2c forward => exact Nat.mul_le_mul_right 2 le
  | r2c => exact Nat.mul_le_mul_right 2 (Nat.succ_le_succ (Nat.div_le_div_right le))
  | c2r => exact le

/-- The output lane: the plain sums times `scale`. -/
noncomputable def DftKind.lane (n : Nat) (scale : ℝ) (xs : List ℝ) : DftKind → List ℝ
  | .c2c forward => interleave n fun k => scale * dft forward n (complexAt xs) k
  | .r2c => interleave (n / 2 + 1) fun k => scale * dft true n (fun j => (xs.getD j 0 : ℝ)) k
  | .c2r => (List.range n).map fun j => scale * (dft false n (hermitian n (complexAt xs)) j).re

/-- The inputs the transform is defined on: the end bins of a real signal are
real. -/
def DftKind.Input (n : Nat) (xs : List ℝ) : DftKind → Prop
  | .c2r => RealEnds n (complexAt xs)
  | _ => True

theorem DftKind.length_lane (kind : DftKind) (n : Nat) (scale : ℝ) (xs : List ℝ) :
    (kind.lane n scale xs).length = kind.outLen n := by
  cases kind with
  | c2c forward => exact length_interleave _ _
  | r2c => exact length_interleave _ _
  | c2r => simp [DftKind.lane, DftKind.outLen]

theorem interleave_map_mul (n : Nat) (z : Nat → ℂ) (c : ℝ) :
    (interleave n z).map (· * c) = interleave n fun k => c * z k := by
  simp only [interleave, lanes, List.map_flatMap]
  congr 1
  funext k
  simp [mul_comm c]

/-- Scaling the plain output is the scaled transform. -/
theorem DftKind.lane_map_mul (kind : DftKind) (n : Nat) (xs : List ℝ) (c : ℝ) :
    (kind.lane n 1 xs).map (· * c) = kind.lane n c xs := by
  cases kind with
  | c2c forward => simp only [DftKind.lane, interleave_map_mul, ofReal_one, one_mul]
  | r2c => simp only [DftKind.lane, interleave_map_mul, ofReal_one, one_mul]
  | c2r =>
    simp only [DftKind.lane, List.map_map]
    congr 1
    funext j
    simp [mul_comm c]

/-- The first output of a complex lane of ones. -/
theorem DftKind.lane_c2c_ones {n : Nat} (positive : 0 < n) (forward : Bool) (scale : ℝ) :
    (DftKind.lane n scale (List.replicate (n * 2) 1) (.c2c forward))[0]? = some (scale * n) := by
  have sum : dft forward n (complexAt (List.replicate (n * 2) 1)) 0 = n * (⟨1, 1⟩ : ℂ) := by
    rw [dft_zero, ← Finset.card_range n, ← nsmul_eq_mul, ← Finset.sum_const, Finset.card_range]
    refine Finset.sum_congr rfl fun j member => ?_
    have below := Finset.mem_range.mp member
    simp only [complexAt, List.getD_eq_getElem?_getD, List.getElem?_replicate]
    rw [if_pos (by omega), if_pos (by omega)]
    rfl
  have first := (getElem?_interleave (fun k => (scale : ℂ) * dft forward n
    (complexAt (List.replicate (n * 2) 1)) k) positive).1
  rw [Nat.zero_mul] at first
  rw [DftKind.lane, first, sum]
  simp

/-- Bin zero of a real lane is real. -/
theorem DftKind.lane_r2c_im {n : Nat} (scale : ℝ) (xs : List ℝ) :
    (DftKind.lane n scale xs .r2c)[1]? = some 0 := by
  have second := (getElem?_interleave (fun k => (scale : ℂ) * dft true n
    (fun j => (xs.getD j 0 : ℝ)) k) (Nat.succ_pos (n / 2))).2
  rw [Nat.zero_mul, Nat.zero_add] at second
  rw [DftKind.lane, second, dft_zero, ← ofReal_sum, ← ofReal_mul, ofReal_im]

/-- A complex transform followed by the opposite one, the two scales having the
product `1 / n`, gives back the lane. -/
theorem DftKind.lane_c2c_c2c {n : Nat} (forward : Bool) {scale scale' : ℝ}
    (product : scale * scale' * n = 1) {xs : List ℝ} (size : xs.length = n * 2) :
    DftKind.lane n scale' (DftKind.lane n scale xs (.c2c forward)) (.c2c (!forward)) = xs := by
  simp only [DftKind.lane]
  conv_rhs => rw [← interleave_complexAt size]
  apply interleave_congr
  intro l below
  rw [dft_congr fun k small => complexAt_interleave _ small, dft_smul, dft_dft forward _ below,
    ← mul_assoc, ← mul_assoc]
  have factor : (scale' : ℂ) * scale * n = 1 := by
    rw [mul_comm (scale' : ℂ)]
    exact_mod_cast product
  rw [factor, one_mul]

/-- A real transform followed by the transform back with the scale `1 / n` gives
back the real lane. -/
theorem DftKind.lane_c2r_r2c {n : Nat} (positive : 0 < n) {xs : List ℝ} (size : xs.length = n) :
    DftKind.lane n (1 / n) (DftKind.lane n 1 xs .r2c) .c2r = xs := by
  have nonzero : (n : ℝ) ≠ 0 := Nat.cast_ne_zero.mpr positive.ne'
  have bins : ∀ k, k < n → hermitian n
      (complexAt (interleave (n / 2 + 1) fun k => dft true n (fun j => (xs.getD j 0 : ℝ)) k)) k =
        hermitian n (dft true n fun j => (xs.getD j 0 : ℝ)) k := by
    intro k below
    unfold hermitian
    split
    · rw [complexAt_interleave _ (by omega)]
    · rw [complexAt_interleave _ (by omega)]
  apply List.ext_getElem
  · simp [DftKind.lane, size]
  · intro l below below'
    simp only [DftKind.lane, List.getElem_map, List.getElem_range, ofReal_one, one_mul]
    rw [dft_congr bins]
    have back := dft_hermitian_dft true (fun j => xs.getD j 0) (show l < n by omega)
    rw [Bool.not_true] at back
    rw [back, ofReal_re, ← mul_assoc, one_div, inv_mul_cancel₀ nonzero, one_mul,
      List.getD_eq_getElem?_getD, List.getElem?_eq_getElem below', Option.getD_some]

/-- The bins of a real lane are an input of the transform back. -/
theorem DftKind.input_c2r {n : Nat} (xs : List ℝ) :
    DftKind.Input n (DftKind.lane n 1 xs .r2c) .c2r := by
  have ends := realEnds_dft (n := n) true fun j => xs.getD j 0
  simp only [DftKind.Input, DftKind.lane, ofReal_one, one_mul, RealEnds]
  rw [complexAt_interleave _ (by omega), complexAt_interleave _ (by omega)]
  exact ends

end Kit
