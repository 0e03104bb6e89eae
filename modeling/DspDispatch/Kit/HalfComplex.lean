import DspDispatch.Kit.MixedRadix

/-!
# Spectra of real signals in half-complex order

The spectrum of a real signal is conjugate symmetric, and half of it is kept in as many real
cells as the signal has: the real part of bin zero, then the real and imaginary parts of the
bins one, two, ... (`halfCell`). If the length is even, the last cell is the real part of the
bin in the middle.

A transform of length `ido * ip` is made from transforms of length `ido`, or taken apart into
such. In rows of `ido` cells its half-complex order looks like this: the bins `i + ido * m` of
one butterfly are in row `2 * m` going up and, conjugated, in the rows `2 * m - 1` going down
(`foldCell`, `folded`); the real ones are at the ends of the rows (`endCell`, `midCell`).
-/

namespace Kit

open Finset

/-- The value in cell `p` of a spectrum in half-complex order. -/
def halfCell (X : Nat → ℂ) (p : Nat) : ℝ :=
  if p % 2 = 1 then (X (p / 2 + 1)).re else if p = 0 then (X 0).re else (X (p / 2)).im

section HalfCell

variable {X : Nat → ℂ} {q : Nat}

@[simp] theorem halfCell_zero : halfCell X 0 = (X 0).re := rfl

theorem halfCell_re (positive : 0 < q) : halfCell X (2 * q - 1) = (X q).re := by
  have half : (2 * q - 1) / 2 + 1 = q := by omega
  rw [halfCell, if_pos (by omega), half]

theorem halfCell_im (positive : 0 < q) : halfCell X (2 * q) = (X q).im := by
  have half : 2 * q / 2 = q := by omega
  rw [halfCell, if_neg (by omega), if_neg (by omega), half]

theorem halfCell_mul (X : Nat → ℂ) (c : ℝ) (p : Nat) :
    halfCell (fun q => X q * c) p = c * halfCell X p := by
  simp only [halfCell]
  split
  · rw [Complex.re_mul_ofReal, mul_comm]
  · split
    · rw [Complex.re_mul_ofReal, mul_comm]
    · rw [Complex.im_mul_ofReal, mul_comm]

end HalfCell

/-- Symmetry of a spectrum of length `n`; the index `n` stands for bin zero again. -/
structure Conjugate (n : Nat) (X : Nat → ℂ) : Prop where
  last : X n = X 0
  flip : ∀ q, q ≤ n → X (n - q) = (starRingEnd ℂ) (X q)

section Conjugate

variable {n q : Nat} {X : Nat → ℂ}

theorem Conjugate.real (conjugate : Conjugate n X) : (X 0).im = 0 := by
  have turned := conjugate.flip n (Nat.le_refl n)
  rw [Nat.sub_self, conjugate.last] at turned
  exact Complex.conj_eq_iff_im.mp turned.symm

theorem Conjugate.mul (conjugate : Conjugate n X) (c : ℝ) : Conjugate n fun q => X q * c where
  last := by rw [conjugate.last]
  flip q le := by rw [conjugate.flip q le, map_mul, Complex.conj_ofReal]

/-- The spectrum of a real signal. -/
theorem conjugate_dft (fwd : Bool) (n : Nat) (x : Nat → ℝ) :
    Conjugate n (dft fwd n fun j => x j) where
  last := by
    refine Finset.sum_congr rfl fun j member => ?_
    have positive : 0 < n := Nat.zero_lt_of_lt (Finset.mem_range.mp member)
    rw [Nat.mul_comm, twiddle_multiple positive, Nat.mul_zero, twiddle_zero]
  flip q le := by
    have symmetric := conj_dft_ofReal (n := n) fwd x le
    rw [← symmetric, Complex.conj_conj]

end Conjugate

/-! ## Decimation -/

/-- The transform of a signal from those of its parts of every `ip`-th sample. -/
theorem dft_decimate {fwd : Bool} {ido ip : Nat} (wide : 0 < ip)
    (y : Nat → ℂ) (q : Nat) :
    dft fwd (ido * ip) y q = ∑ c ∈ range ip,
      dft fwd ido (fun m => y (c + ip * m)) q * twiddle fwd (ido * ip) (c * q) := by
  rw [dft, sum_range_mul, sum_comm]
  refine sum_congr rfl fun c _ => ?_
  rw [dft, sum_mul]
  refine sum_congr rfl fun b _ => ?_
  have expand : (c + ip * b) * q = ip * (b * q) + c * q := by ring
  rw [expand, twiddle_add, Nat.mul_comm ido ip, twiddle_cancel wide, mul_assoc]

theorem dft_add_multiple {fwd : Bool} {n : Nat} (z : Nat → ℂ) (q m : Nat) :
    dft fwd n z (q + n * m) = dft fwd n z q := by
  refine sum_congr rfl fun j member => ?_
  have positive : 0 < n := Nat.zero_lt_of_lt (Finset.mem_range.mp member)
  have expand : j * (q + n * m) = j * q + n * (j * m) := by ring
  rw [expand, twiddle_add, twiddle_multiple positive, mul_one]

/-- The bins that belong to one butterfly of radix `ip`. -/
theorem dft_butterfly {fwd : Bool} {ido ip : Nat} (positive : 0 < ido) (wide : 0 < ip)
    (y : Nat → ℂ) (i m : Nat) :
    dft fwd (ido * ip) y (i + ido * m) =
      dft fwd ip (fun c => dft fwd ido (fun m => y (c + ip * m)) i *
        twiddle fwd (ido * ip) (c * i)) m := by
  rw [dft_decimate wide, dft]
  refine sum_congr rfl fun c _ => ?_
  have expand : c * (i + ido * m) = c * i + ido * (c * m) := by ring
  rw [dft_add_multiple, expand, twiddle_add, twiddle_cancel positive, mul_assoc]

/-! ## Stages of a symmetric spectrum -/

section Stages

variable {n l w : Nat} {X : Nat → ℂ}

/-- The values of a stage as one sum. -/
theorem stage_sum {fwd : Bool} (factored : n = l * w) (positive : 0 < n) (i k : Nat) :
    stage fwd n l X i k =
      ∑ s ∈ range l, X (i + w * s) * twiddle fwd n ((i + w * s) * k) := by
  subst factored
  have wide := Nat.pos_of_mul_pos_left positive
  rw [stage, Nat.mul_div_cancel_left _ (Nat.pos_of_mul_pos_right positive), dft, sum_mul]
  refine sum_congr rfl fun s _ => ?_
  have expand : (i + w * s) * k = w * (s * k) + i * k := by ring
  rw [expand, twiddle_add, Nat.mul_comm l w, twiddle_cancel wide, mul_assoc]

/-- The stages of the transform of a symmetric spectrum are symmetric spectra. -/
theorem conjugate_stage {fwd : Bool} (conjugate : Conjugate n X) (factored : n = l * w)
    (positive : 0 < n) (k : Nat) : Conjugate w fun q => stage fwd n l X q k where
  last := by
    rw [stage_sum factored positive, stage_sum factored positive]
    have next : ∀ s, w + w * s = 0 + w * (s + 1) := fun s => by ring
    simp only [next]
    have shifted := sum_range_succ' (fun s => X (0 + w * s) * twiddle fwd n ((0 + w * s) * k)) l
    rw [sum_range_succ] at shifted
    have turn : X (0 + w * l) * twiddle fwd n ((0 + w * l) * k) =
        X (0 + w * 0) * twiddle fwd n ((0 + w * 0) * k) := by
      rw [Nat.zero_add, Nat.mul_comm w l, ← factored, conjugate.last, twiddle_multiple positive,
        Nat.mul_zero, Nat.zero_add, Nat.zero_mul, twiddle_zero]
    rw [turn] at shifted
    exact (add_right_cancel shifted).symm
  flip q le := by
    rw [stage_sum factored positive, stage_sum factored positive, map_sum,
      ← sum_range_reflect fun s => X (w - q + w * s) * twiddle fwd n ((w - q + w * s) * k)]
    refine sum_congr rfl fun s member => ?_
    have below := mem_range.mp member
    have rows : w * (l - 1 - s) + w * s + w = n := by
      rw [factored, ← Nat.mul_add, ← Nat.mul_succ, Nat.mul_comm l w]
      congr 1
      omega
    have place : w - q + w * (l - 1 - s) = n - (q + w * s) := by omega
    have whole : (n - (q + w * s)) * k + (q + w * s) * k = n * k := by
      rw [← Nat.add_mul]
      congr 1
      omega
    rw [place, conjugate.flip _ (by omega), map_mul, conj_twiddle, twiddle_opposite positive whole]

end Stages

/-! ## Rows of a spectrum -/

/-- The column of row `b` with a value of the bins `ido * m`. -/
def endCell (ido b : Nat) : Nat := if b % 2 = 0 then 0 else ido - 1

/-- The column of row `b` with a value of the bins `ido / 2 + ido * m`, for an even `ido`. -/
def midCell (ido b : Nat) : Nat := if b % 2 = 0 then ido - 1 else 0

/-- The column of row `b` with an imaginary part of the bins `i / 2 + ido * m`; the real part
is to the left of it. -/
def foldCell (ido i b : Nat) : Nat := if b % 2 = 0 then i else ido - i

/-- The values of a butterfly in the order of the rows: the odd rows have the second half,
conjugated. -/
noncomputable def folded (ip : Nat) (Z : Nat → ℂ) (b : Nat) : ℂ :=
  if b % 2 = 0 then Z (b / 2) else (starRingEnd ℂ) (Z (ip - b / 2 - 1))

/-- Real and imaginary parts of the first half, in turn. -/
def midPart (Z : Nat → ℂ) (b : Nat) : ℝ := if b % 2 = 0 then (Z (b / 2)).re else (Z (b / 2)).im

section Rows

variable {ido ip b i a : Nat} {H : Nat → ℂ}

theorem endCell_lt (positive : 0 < ido) : endCell ido b < ido := by
  rw [endCell]
  split <;> omega

theorem midCell_lt (positive : 0 < ido) : midCell ido b < ido := by
  rw [midCell]
  split <;> omega

theorem foldCell_lt (positive : 0 < i) (below : i < ido) : foldCell ido i b < ido := by
  rw [foldCell]
  split <;> omega

theorem foldCell_pos (positive : 0 < i) (below : i < ido) : 0 < foldCell ido i b := by
  rw [foldCell]
  split <;> omega

/-- Every column of a row is one of these. -/
theorem exists_column (column : a < ido) (b : Nat) :
    a = endCell ido b ∨ (ido % 2 = 0 ∧ a = midCell ido b) ∨
      ∃ t, t < (ido - 1) / 2 ∧
        (a = foldCell ido (2 * t + 2) b - 1 ∨ a = foldCell ido (2 * t + 2) b) := by
  by_cases even : b % 2 = 0
  · simp only [endCell, midCell, foldCell, if_pos even]
    rcases Nat.eq_zero_or_pos a with first | inner
    · exact .inl first
    · by_cases last : ido % 2 = 0 ∧ a = ido - 1
      · exact .inr (.inl last)
      · exact .inr (.inr ⟨(a - 1) / 2, by omega, by omega⟩)
  · simp only [endCell, midCell, foldCell, if_neg even]
    by_cases first : a = ido - 1
    · exact .inl first
    · by_cases last : ido % 2 = 0 ∧ a = 0
      · exact .inr (.inl last)
      · exact .inr (.inr ⟨(ido - a) / 2 - 1, by omega, by omega⟩)

theorem halfCell_endCell (positive : 0 < ido) (b : Nat) :
    halfCell H (endCell ido b + ido * b) = halfCell (fun m => H (ido * m)) b := by
  rcases Nat.even_or_odd' b with ⟨m, rfl | rfl⟩
  · rw [endCell, if_pos (by omega)]
    have place : 0 + ido * (2 * m) = 2 * (ido * m) := by ring
    rw [place]
    rcases Nat.eq_zero_or_pos m with rfl | other
    · rw [Nat.mul_zero, Nat.mul_zero, halfCell_zero, halfCell_zero, Nat.mul_zero]
    · rw [halfCell_im (Nat.mul_pos positive other), halfCell_im other]
  · rw [endCell, if_neg (by omega)]
    have place : ido - 1 + ido * (2 * m + 1) = 2 * (ido * (m + 1)) - 1 := by
      have expand : ido * (2 * m + 1) = 2 * (ido * m) + ido := by ring
      have expand' : ido * (m + 1) = ido * m + ido := by ring
      omega
    have index : 2 * m + 1 = 2 * (m + 1) - 1 := by omega
    rw [place, index, halfCell_re (Nat.mul_pos positive (Nat.succ_pos m)),
      halfCell_re (Nat.succ_pos m)]

theorem halfCell_midCell {e : Nat} (positive : 0 < e) (b : Nat) :
    halfCell H (midCell (2 * e) b + 2 * e * b) = midPart (fun m => H (e + 2 * e * m)) b := by
  rcases Nat.even_or_odd' b with ⟨m, rfl | rfl⟩
  · have half : 2 * m / 2 = m := by omega
    have place : 2 * e - 1 + 2 * e * (2 * m) = 2 * (e + 2 * e * m) - 1 := by
      have expand : 2 * e * (2 * m) = 2 * (2 * e * m) := by ring
      omega
    rw [midCell, if_pos (by omega), midPart, if_pos (by omega), half, place,
      halfCell_re (Nat.lt_add_right _ positive)]
  · have half : (2 * m + 1) / 2 = m := by omega
    have place : 0 + 2 * e * (2 * m + 1) = 2 * (e + 2 * e * m) := by ring
    rw [midCell, if_neg (by omega), midPart, if_neg (by omega), half, place,
      halfCell_im (Nat.lt_add_right _ positive)]

/-- A symmetric spectrum has the values of a butterfly in the columns of the folded rows. -/
theorem halfCell_foldCell {f : Nat} (conjugate : Conjugate (ido * ip) H) (positive : 0 < f)
    (below : 2 * f < ido) (row : b < ip) :
    halfCell H (foldCell ido (2 * f) b - 1 + ido * b) =
        (folded ip (fun m => H (f + ido * m)) b).re ∧
      halfCell H (foldCell ido (2 * f) b + ido * b) =
        (folded ip (fun m => H (f + ido * m)) b).im := by
  rcases Nat.even_or_odd' b with ⟨m, rfl | rfl⟩
  · have half : 2 * m / 2 = m := by omega
    have expand : ido * (2 * m) = 2 * (ido * m) := by ring
    have left : 2 * f - 1 + ido * (2 * m) = 2 * (f + ido * m) - 1 := by omega
    have right : 2 * f + ido * (2 * m) = 2 * (f + ido * m) := by omega
    rw [foldCell, if_pos (by omega), folded, if_pos (by omega), half, left, right,
      halfCell_re (Nat.lt_add_right _ positive), halfCell_im (Nat.lt_add_right _ positive)]
    exact ⟨rfl, rfl⟩
  · have half : (2 * m + 1) / 2 = m := by omega
    have expand : ido * (2 * m + 1) = 2 * (ido * m) + ido := by ring
    have expand' : ido * (m + 1) = ido * m + ido := by ring
    have left : ido - 2 * f - 1 + ido * (2 * m + 1) = 2 * (ido * (m + 1) - f) - 1 := by omega
    have right : ido - 2 * f + ido * (2 * m + 1) = 2 * (ido * (m + 1) - f) := by omega
    have inner : 0 < ido * (m + 1) - f := by omega
    -- the bin on the other side of the spectrum
    have rows := Nat.mul_le_mul_left ido (by omega : m + 1 ≤ ip)
    have split : ido * ip = ido * (ip - m - 1) + ido * (m + 1) := by
      rw [← Nat.mul_add]
      congr 1
      omega
    have mirrored : H (ido * (m + 1) - f) = (starRingEnd ℂ) (H (f + ido * (ip - m - 1))) := by
      rw [← conjugate.flip _ (by omega)]
      congr 1
      omega
    rw [foldCell, if_neg (by omega), folded, if_neg (by omega), half, left, right,
      halfCell_re inner, halfCell_im inner, mirrored]
    exact ⟨rfl, rfl⟩

end Rows

end Kit
