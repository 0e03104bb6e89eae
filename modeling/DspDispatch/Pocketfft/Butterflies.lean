import DspDispatch.Kit.Cells
import DspDispatch.Kit.MixedRadix
import DspDispatch.Pocketfft.SinCos

/-!
# Butterflies of pocketfft (`cfftp`, the bodies of `pass2` to `pass11`)

Each hard-coded pass makes short transforms of 2, 3, 4, 5, 7, 8 or 11 values. The odd ones
add and subtract the values in pairs and combine them with cosines and sines
(`POCKETFFT_PREP` and `POCKETFFT_PARTSTEP`); the constants of the source, decimals there, are
`Trig.cosOf k ip` and `Trig.sinOf k ip`. The radix of eight has two bodies, one of which is
followed by multiplications.

Over the real numbers each is a discrete Fourier transform (`Radix`).
-/

namespace DspDispatch.Pocketfft

open Kit

section Butterflies

variable {K : Type} [Field K] (t : Trig K) (fwd : Bool)

/-- The cosine of `k / n` turns. -/
def Trig.cosOf (t : Trig K) (k n : Nat) : K := t.cos (k / n)

/-- The sine of `k / n` turns. -/
def Trig.sinOf (t : Trig K) (k n : Nat) : K := t.sin (k / n)

/-- `(fwd ? -1 : 1)`. -/
def dirSign : K := if fwd then -1 else 1

/-- The body of `pass2`. -/
def butterfly2 (cc : Nat → Cmplx K) : List (Cmplx K) := [cc 0 + cc 1, cc 0 - cc 1]

/-- `POCKETFFT_PARTSTEP`: sum and difference of `ca` and `cb`, from the sums `ts` and the
differences `us` of the pairs. -/
def partstep (t0 : Cmplx K) (ts us : List (Cmplx K)) (xs ys : List K) : Cmplx K × Cmplx K :=
  let ca := (ts.zip xs).foldl (fun c p => c + p.1.scale p.2) t0
  let s := (us.zip ys).foldl (fun c p => c + p.1.scale p.2) 0
  pm ca ⟨-s.i, s.r⟩

/-- The body of `pass3`. -/
def butterfly3 (cc : Nat → Cmplx K) : List (Cmplx K) :=
  let tw1r : K := (-1 / 2 : ℚ)
  let tw1i : K := dirSign fwd * t.sinOf 1 3
  let t0 := cc 0
  let (t1, t2) := pm (cc 1) (cc 2)
  let a := partstep t0 [t1] [t2] [tw1r] [tw1i]
  [t0 + t1, a.1, a.2]

/-- The body of `pass4`. -/
def butterfly4 (cc : Nat → Cmplx K) : List (Cmplx K) :=
  let (t2, t1) := pm (cc 0) (cc 2)
  let (t3, t4) := pm (cc 1) (cc 3)
  let t4 := t4.rotx90 fwd
  [t2 + t3, t1 + t4, t2 - t3, t1 - t4]

/-- The body of `pass5`. -/
def butterfly5 (cc : Nat → Cmplx K) : List (Cmplx K) :=
  let tw1r := t.cosOf 1 5
  let tw1i := dirSign fwd * t.sinOf 1 5
  let tw2r := t.cosOf 2 5
  let tw2i := dirSign fwd * t.sinOf 2 5
  let t0 := cc 0
  let (t1, t4) := pm (cc 1) (cc 4)
  let (t2, t3) := pm (cc 2) (cc 3)
  let step := partstep t0 [t1, t2] [t4, t3]
  let a := step [tw1r, tw2r] [tw1i, tw2i]
  let b := step [tw2r, tw1r] [tw2i, -tw1i]
  [t0 + t1 + t2, a.1, b.1, b.2, a.2]

/-- The body of `pass7`. -/
def butterfly7 (cc : Nat → Cmplx K) : List (Cmplx K) :=
  let tw1r := t.cosOf 1 7
  let tw1i := dirSign fwd * t.sinOf 1 7
  let tw2r := t.cosOf 2 7
  let tw2i := dirSign fwd * t.sinOf 2 7
  let tw3r := t.cosOf 3 7
  let tw3i := dirSign fwd * t.sinOf 3 7
  let t1 := cc 0
  let (t2, t7) := pm (cc 1) (cc 6)
  let (t3, t6) := pm (cc 2) (cc 5)
  let (t4, t5) := pm (cc 3) (cc 4)
  let step := partstep t1 [t2, t3, t4] [t7, t6, t5]
  let a := step [tw1r, tw2r, tw3r] [tw1i, tw2i, tw3i]
  let b := step [tw2r, tw3r, tw1r] [tw2i, -tw3i, -tw1i]
  let c := step [tw3r, tw1r, tw2r] [tw3i, -tw1i, tw2i]
  [t1 + t2 + t3 + t4, a.1, b.1, c.1, c.2, b.2, a.2]

/-- The body of `pass8` where no multiplications follow. -/
def butterfly8 (cc : Nat → Cmplx K) : List (Cmplx K) :=
  let (a1, a5) := pm (cc 1) (cc 5)
  let (a3, a7) := pm (cc 3) (cc 7)
  let (a1, a3) := pm a1 a3
  let a3 := a3.rotx90 fwd
  let a7 := a7.rotx90 fwd
  let (a5, a7) := pm a5 a7
  let a5 := a5.rotx45 t fwd
  let a7 := a7.rotx135 t fwd
  let (a0, a4) := pm (cc 0) (cc 4)
  let (a2, a6) := pm (cc 2) (cc 6)
  let (ch0, ch4) := pm (a0 + a2) a1
  let (ch2, ch6) := pm (a0 - a2) a3
  let a6 := a6.rotx90 fwd
  let (ch1, ch5) := pm (a4 + a6) a5
  let (ch3, ch7) := pm (a4 - a6) a7
  [ch0, ch1, ch2, ch3, ch4, ch5, ch6, ch7]

/-- The other body of `pass8`. -/
def twiddled8 (cc : Nat → Cmplx K) : List (Cmplx K) :=
  let (a1, a5) := pm (cc 1) (cc 5)
  let (a3, a7) := pm (cc 3) (cc 7)
  let a7 := a7.rotx90 fwd
  let (a1, a3) := pm a1 a3
  let a3 := a3.rotx90 fwd
  let (a5, a7) := pm a5 a7
  let a5 := a5.rotx45 t fwd
  let a7 := a7.rotx135 t fwd
  let (a0, a4) := pm (cc 0) (cc 4)
  let (a2, a6) := pm (cc 2) (cc 6)
  let (a0, a2) := pm a0 a2
  let a6 := a6.rotx90 fwd
  let (a4, a6) := pm a4 a6
  [a0 + a1, a4 + a5, a2 + a3, a6 + a7, a0 - a1, a4 - a5, a2 - a3, a6 - a7]

/-- The body of `pass11`. -/
def butterfly11 (cc : Nat → Cmplx K) : List (Cmplx K) :=
  let tw1r := t.cosOf 1 11
  let tw1i := dirSign fwd * t.sinOf 1 11
  let tw2r := t.cosOf 2 11
  let tw2i := dirSign fwd * t.sinOf 2 11
  let tw3r := t.cosOf 3 11
  let tw3i := dirSign fwd * t.sinOf 3 11
  let tw4r := t.cosOf 4 11
  let tw4i := dirSign fwd * t.sinOf 4 11
  let tw5r := t.cosOf 5 11
  let tw5i := dirSign fwd * t.sinOf 5 11
  let t1 := cc 0
  let (t2, t11) := pm (cc 1) (cc 10)
  let (t3, t10) := pm (cc 2) (cc 9)
  let (t4, t9) := pm (cc 3) (cc 8)
  let (t5, t8) := pm (cc 4) (cc 7)
  let (t6, t7) := pm (cc 5) (cc 6)
  let step := partstep t1 [t2, t3, t4, t5, t6] [t11, t10, t9, t8, t7]
  let a := step [tw1r, tw2r, tw3r, tw4r, tw5r] [tw1i, tw2i, tw3i, tw4i, tw5i]
  let b := step [tw2r, tw4r, tw5r, tw3r, tw1r] [tw2i, tw4i, -tw5i, -tw3i, -tw1i]
  let c := step [tw3r, tw5r, tw2r, tw1r, tw4r] [tw3i, -tw5i, -tw2i, tw1i, tw4i]
  let d := step [tw4r, tw3r, tw1r, tw5r, tw2r] [tw4i, -tw3i, tw1i, tw5i, -tw2i]
  let e := step [tw5r, tw1r, tw4r, tw2r, tw3r] [tw5i, -tw1i, tw4i, -tw2i, tw3i]
  [t1 + t2 + t3 + t4 + t5 + t6, a.1, b.1, c.1, d.1, e.1, e.2, d.2, c.2, b.2, a.2]

end Butterflies

/-! ## Twiddle factors of small lengths -/

section Fold

variable {fwd : Bool} {n e b : Nat}

/-- Indices that add up to whole turns give conjugate factors. -/
theorem twiddle_eq_conj {c : Nat} (positive : 0 < n) (whole : e + b = n * c) :
    twiddle fwd n e = (starRingEnd ℂ) (twiddle fwd n b) := by
  rw [conj_twiddle, twiddle_opposite positive whole]

theorem twiddle_re (fwd : Bool) (n b : Nat) : (twiddle fwd n b).re = Trig.real.cosOf b n := by
  have inverse : (twiddle false n b).re = Trig.real.cosOf b n :=
    congrArg Cmplx.r (twiddle_inverse_eq n b)
  cases fwd with
  | false => exact inverse
  | true =>
    have conj := conj_twiddle false n b
    rw [Bool.not_false] at conj
    rw [← conj, Complex.conj_re, inverse]

theorem twiddle_im (fwd : Bool) (n b : Nat) :
    (twiddle fwd n b).im = dirSign fwd * Trig.real.sinOf b n := by
  have inverse : (twiddle false n b).im = Trig.real.sinOf b n :=
    congrArg Cmplx.i (twiddle_inverse_eq n b)
  cases fwd with
  | false => rw [inverse, dirSign, if_neg Bool.false_ne_true, one_mul]
  | true =>
    have conj := conj_twiddle false n b
    rw [Bool.not_false] at conj
    rw [← conj, Complex.conj_im, inverse, dirSign, if_pos rfl, neg_one_mul]

/-- The index in the first half of the circle with the same cosine, and whether it has the
same sine. -/
def foldIndex (n e : Nat) : Nat × Bool :=
  if 2 * (e % n) ≤ n then (e % n, true) else (n - e % n, false)

/-- The sine of a folded index, in the direction of the transform. -/
def foldedSine {K : Type} [Field K] (t : Trig K) (fwd : Bool) (n : Nat) (p : Nat × Bool) : K :=
  match p.2 with
  | true => dirSign fwd * t.sinOf p.1 n
  | false => -(dirSign fwd * t.sinOf p.1 n)

theorem twiddle_re_fold (positive : 0 < n) (fwd : Bool) (e : Nat) :
    (twiddle fwd n e).re = Trig.real.cosOf (foldIndex n e).1 n := by
  rw [foldIndex]
  split
  · rw [← twiddle_mod positive, twiddle_re]
  · have below := Nat.mod_lt e positive
    have whole : e % n + (n - e % n) = n * 1 := by omega
    rw [← twiddle_mod positive, twiddle_eq_conj positive whole, Complex.conj_re, twiddle_re]

theorem twiddle_im_fold (positive : 0 < n) (fwd : Bool) (e : Nat) :
    (twiddle fwd n e).im = foldedSine Trig.real fwd n (foldIndex n e) := by
  rw [foldIndex]
  split
  · rw [← twiddle_mod positive, twiddle_im]
    rfl
  · have below := Nat.mod_lt e positive
    have whole : e % n + (n - e % n) = n * 1 := by omega
    rw [← twiddle_mod positive, twiddle_eq_conj positive whole, Complex.conj_im, twiddle_im]
    rfl

end Fold

/-! ## Odd radices -/

/-- The body of a pass is a transform of `ip` values. -/
def Radix (fwd : Bool) (ip : Nat) (body : (Nat → Cmplx ℝ) → List (Cmplx ℝ)) : Prop :=
  ∀ (cc : Nat → Cmplx ℝ) (z : Nat → ℂ), (∀ j, j < ip → cc j = ofComplex (z j)) →
    body cc = tabulate ip fun m => ofComplex (dft fwd ip z m)

theorem tabulate_succ {α : Type} (n : Nat) (f : Nat → α) :
    tabulate (n + 1) f = tabulate n f ++ [f n] := by
  rw [tabulate, tabulate, List.range_succ, List.map_append]
  rfl

/-- The sums of a step. -/
theorem foldl_scale (h : Nat) (a : ℂ) (f : Nat → Cmplx ℝ) (F : Nat → ℂ) (g : Nat → ℝ)
    (same : ∀ j, j < h → f j = ofComplex (F j)) :
    ((tabulate h f).zip (tabulate h g)).foldl (fun c p => c + p.1.scale p.2) (ofComplex a) =
      ofComplex (a + ∑ j ∈ Finset.range h, F j * g j) := by
  induction h with
  | zero =>
    rw [Finset.sum_range_zero, add_zero]
    rfl
  | succ h ih =>
    rw [tabulate_succ, tabulate_succ, List.zip_append (by simp), List.foldl_append,
      ih fun j below => same j (Nat.lt_succ_of_lt below), Finset.sum_range_succ, ← add_assoc]
    change ofComplex _ + (f h).scale (g h) = _
    rw [same h (Nat.lt_succ_self h), ofComplex_scale, ofComplex_add]

/-- A sum over an odd number of values, in pairs from both ends. -/
theorem sum_range_pairs {M : Type*} [AddCommMonoid M] (h : Nat) (f : Nat → M) :
    ∑ j ∈ Finset.range (2 * h + 1), f j =
      f 0 + ∑ j ∈ Finset.range h, (f (j + 1) + f (2 * h - j)) := by
  rw [Finset.sum_range_succ', add_comm, Nat.two_mul, Finset.sum_range_add,
    Finset.sum_add_distrib, ← Finset.sum_range_reflect fun j => f (h + j + 1)]
  refine congrArg _ (congrArg _ (Finset.sum_congr rfl fun j member => ?_))
  have below := Finset.mem_range.mp member
  congr 1
  omega

/-- A pair of terms with conjugate factors. -/
theorem pair_conj (a b w : ℂ) :
    a * w + b * (starRingEnd ℂ) w = (a + b) * w.re + Complex.I * ((a - b) * w.im) := by
  have whole := Complex.re_add_im w
  have conj : (starRingEnd ℂ) w = w.re - w.im * Complex.I := by
    rw [Complex.ext_iff]
    simp
  rw [conj]
  calc a * w + b * (w.re - w.im * Complex.I)
      = a * (w.re + w.im * Complex.I) + b * (w.re - w.im * Complex.I) := by rw [whole]
    _ = _ := by ring

/-- A bin of a transform of odd length. -/
theorem dft_pairs {fwd : Bool} {h m : Nat} (z : Nat → ℂ) :
    dft fwd (2 * h + 1) z m = z 0 +
      ∑ j ∈ Finset.range h, (z (j + 1) + z (2 * h - j)) *
        ((twiddle fwd (2 * h + 1) ((j + 1) * m)).re : ℂ) +
      Complex.I * ∑ j ∈ Finset.range h, (z (j + 1) - z (2 * h - j)) *
        ((twiddle fwd (2 * h + 1) ((j + 1) * m)).im : ℂ) := by
  rw [dft, sum_range_pairs, Nat.zero_mul, twiddle_zero, mul_one, add_assoc, Finset.mul_sum,
    ← Finset.sum_add_distrib]
  refine congrArg _ (Finset.sum_congr rfl fun j member => ?_)
  have below := Finset.mem_range.mp member
  have back : (2 * h - j) * m + (j + 1) * m = (2 * h + 1) * m := by
    rw [← Nat.add_mul]
    congr 1
    omega
  rw [twiddle_eq_conj (by omega) back, pair_conj]

/-- The bin as far from the end. -/
theorem dft_pairs_sub {fwd : Bool} {h m : Nat} (z : Nat → ℂ) (le : m ≤ 2 * h + 1) :
    dft fwd (2 * h + 1) z (2 * h + 1 - m) = z 0 +
      ∑ j ∈ Finset.range h, (z (j + 1) + z (2 * h - j)) *
        ((twiddle fwd (2 * h + 1) ((j + 1) * m)).re : ℂ) -
      Complex.I * ∑ j ∈ Finset.range h, (z (j + 1) - z (2 * h - j)) *
        ((twiddle fwd (2 * h + 1) ((j + 1) * m)).im : ℂ) := by
  have back : ∀ j, twiddle fwd (2 * h + 1) ((j + 1) * (2 * h + 1 - m)) =
      (starRingEnd ℂ) (twiddle fwd (2 * h + 1) ((j + 1) * m)) := by
    intro j
    refine twiddle_eq_conj (c := j + 1) (by omega) ?_
    rw [← Nat.mul_add, Nat.sub_add_cancel le, Nat.mul_comm]
  rw [dft_pairs, sub_eq_add_neg, ← mul_neg, ← Finset.sum_neg_distrib]
  simp only [back, Complex.conj_re, Complex.conj_im, Complex.ofReal_neg, mul_neg]

/-- The step for the bins `m` and `ip - m` of an odd radix `ip = 2 * h + 1`, its constants
folded into the first half of the circle. -/
noncomputable def pairStep (fwd : Bool) (h m : Nat) (cc : Nat → Cmplx ℝ) : Cmplx ℝ × Cmplx ℝ :=
  partstep (cc 0) (tabulate h fun j => cc (j + 1) + cc (2 * h - j))
    (tabulate h fun j => cc (j + 1) - cc (2 * h - j))
    (tabulate h fun j => Trig.real.cosOf (foldIndex (2 * h + 1) ((j + 1) * m)).1 (2 * h + 1))
    (tabulate h fun j =>
      foldedSine Trig.real fwd (2 * h + 1) (foldIndex (2 * h + 1) ((j + 1) * m)))

section Pairs

variable {fwd : Bool} {h m : Nat} {cc : Nat → Cmplx ℝ} {z : Nat → ℂ}

theorem pairStep_eq (samples : ∀ j, j < 2 * h + 1 → cc j = ofComplex (z j))
    (le : m ≤ 2 * h + 1) :
    pairStep fwd h m cc =
      (ofComplex (dft fwd (2 * h + 1) z m), ofComplex (dft fwd (2 * h + 1) z (2 * h + 1 - m))) := by
  have sums : ∀ j, j < h →
      cc (j + 1) + cc (2 * h - j) = ofComplex (z (j + 1) + z (2 * h - j)) := by
    intro j below
    rw [samples _ (by omega), samples _ (by omega), ofComplex_add]
  have differences : ∀ j, j < h →
      cc (j + 1) - cc (2 * h - j) = ofComplex (z (j + 1) - z (2 * h - j)) := by
    intro j below
    rw [samples _ (by omega), samples _ (by omega), ofComplex_sub]
  have turned : ∀ s : ℂ, (⟨-(ofComplex s).i, (ofComplex s).r⟩ : Cmplx ℝ) =
      ofComplex (Complex.I * s) := by
    intro s
    ext
    · simp
    · simp
  rw [pairStep, partstep, samples 0 (by omega), foldl_scale h _ _ _ _ sums, ← ofComplex_zero,
    foldl_scale h _ _ _ _ differences, zero_add]
  simp only [← twiddle_re_fold (Nat.succ_pos (2 * h)) fwd, ← twiddle_im_fold (Nat.succ_pos (2 * h))]
  rw [turned, pm, ofComplex_add, ofComplex_sub, dft_pairs, dft_pairs_sub z le]

/-- The first bin is the sum of all. -/
theorem pairSum_eq (samples : ∀ j, j < 2 * h + 1 → cc j = ofComplex (z j)) :
    (tabulate h fun j => cc (j + 1) + cc (2 * h - j)).foldl (· + ·) (cc 0) =
      ofComplex (dft fwd (2 * h + 1) z 0) := by
  have sum : ∀ d, d ≤ h → (tabulate d fun j => cc (j + 1) + cc (2 * h - j)).foldl (· + ·) (cc 0) =
      ofComplex (z 0 + ∑ j ∈ Finset.range d, (z (j + 1) + z (2 * h - j))) := by
    intro d le
    induction d with
    | zero =>
      rw [Finset.sum_range_zero, add_zero]
      exact samples 0 (by omega)
    | succ d ih =>
      rw [tabulate_succ, List.foldl_append, ih (by omega), Finset.sum_range_succ, ← add_assoc]
      change _ + (cc (d + 1) + cc (2 * h - d)) = _
      rw [samples _ (by omega), samples _ (by omega), ofComplex_add, ofComplex_add]
  rw [sum h (Nat.le_refl h), dft_zero, sum_range_pairs]

end Pairs

theorem radix3 (fwd : Bool) : Radix fwd 3 (butterfly3 Trig.real fwd) := by
  intro cc z samples
  have half : ((-1 / 2 : ℚ) : ℝ) = Trig.real.cosOf 1 3 := by
    have angle : 2 * Real.pi * (((1 : Nat) / (3 : Nat) : ℚ) : ℝ) = Real.pi - Real.pi / 3 := by
      push_cast
      ring
    rw [Trig.cosOf, Trig.real_cos, angle, Real.cos_pi_sub, Real.cos_pi_div_three]
    norm_num
  rw [butterfly3, half]
  change [_, (pairStep fwd 1 1 cc).1, (pairStep fwd 1 1 cc).2] = _
  rw [pairStep_eq samples (by omega)]
  exact congrArg (· :: _) (pairSum_eq (h := 1) samples)

theorem radix5 (fwd : Bool) : Radix fwd 5 (butterfly5 Trig.real fwd) := by
  intro cc z samples
  change [_, (pairStep fwd 2 1 cc).1, (pairStep fwd 2 2 cc).1, (pairStep fwd 2 2 cc).2,
    (pairStep fwd 2 1 cc).2] = _
  rw [pairStep_eq samples (by omega), pairStep_eq samples (by omega)]
  exact congrArg (· :: _) (pairSum_eq (h := 2) samples)

theorem radix7 (fwd : Bool) : Radix fwd 7 (butterfly7 Trig.real fwd) := by
  intro cc z samples
  change [_, (pairStep fwd 3 1 cc).1, (pairStep fwd 3 2 cc).1, (pairStep fwd 3 3 cc).1,
    (pairStep fwd 3 3 cc).2, (pairStep fwd 3 2 cc).2, (pairStep fwd 3 1 cc).2] = _
  rw [pairStep_eq samples (by omega), pairStep_eq samples (by omega),
    pairStep_eq samples (by omega)]
  exact congrArg (· :: _) (pairSum_eq (h := 3) samples)

theorem radix11 (fwd : Bool) : Radix fwd 11 (butterfly11 Trig.real fwd) := by
  intro cc z samples
  change [_, (pairStep fwd 5 1 cc).1, (pairStep fwd 5 2 cc).1, (pairStep fwd 5 3 cc).1,
    (pairStep fwd 5 4 cc).1, (pairStep fwd 5 5 cc).1, (pairStep fwd 5 5 cc).2,
    (pairStep fwd 5 4 cc).2, (pairStep fwd 5 3 cc).2, (pairStep fwd 5 2 cc).2,
    (pairStep fwd 5 1 cc).2] = _
  rw [pairStep_eq samples (by omega), pairStep_eq samples (by omega),
    pairStep_eq samples (by omega), pairStep_eq samples (by omega),
    pairStep_eq samples (by omega)]
  exact congrArg (· :: _) (pairSum_eq (h := 5) samples)

/-! ## Powers of two -/

/-- The first factor of length eight lies halfway between the axes. -/
theorem twiddle_eighth (fwd : Bool) :
    twiddle fwd 8 1 = ⟨Trig.real.cos (1 / 8), dirSign fwd * Trig.real.cos (1 / 8)⟩ := by
  have turn : Trig.real.sin (1 / 8) = Trig.real.cos (1 / 8) := by
    have rest : (1 / 8 : ℚ) = 1 / 4 - 1 / 8 := by norm_num
    conv_lhs => rw [rest, sin_quarter_sub]
  refine Complex.ext ?_ ?_
  · rw [twiddle_re, Trig.cosOf]
    norm_num
  · rw [twiddle_im, Trig.sinOf, ← turn]
    norm_num

theorem two_mul_cos_eighth_sq : 2 * Trig.real.cos (1 / 8) ^ 2 = 1 := by
  have angle : 2 * Real.pi * ((1 / 8 : ℚ) : ℝ) = Real.pi / 4 := by
    push_cast
    ring
  rw [Trig.real_cos, angle, Real.cos_pi_div_four, div_pow, Real.sq_sqrt (by norm_num)]
  norm_num

/-- An eighth of a turn twice is a quarter. -/
theorem twiddle_quarter (fwd : Bool) : twiddle fwd 8 1 ^ 2 = ⟨0, dirSign fwd⟩ := by
  have unit := two_mul_cos_eighth_sq
  rw [twiddle_eighth, pow_two]
  refine Complex.ext ?_ ?_
  · cases fwd
    · simp [dirSign]
    · simp [dirSign]
  · simp only [Complex.mul_im]
    linear_combination dirSign fwd * unit

theorem twiddle_half (fwd : Bool) : twiddle fwd 8 1 ^ 4 = -1 := by
  have power : twiddle fwd 8 1 ^ 4 = (twiddle fwd 8 1 ^ 2) ^ 2 := by ring
  rw [power, twiddle_quarter, pow_two]
  refine Complex.ext ?_ ?_
  · cases fwd
    · simp [dirSign]
    · simp [dirSign]
  · simp

/-- An index of length eight: a power of the first factor, with the sign of the half. -/
theorem twiddle_eight (fwd : Bool) (e : Nat) :
    twiddle fwd 8 e = (if e % 8 < 4 then 1 else -1) * twiddle fwd 8 1 ^ (e % 4) := by
  rw [← twiddle_mod (by decide) e, ← twiddle_mul, Nat.one_mul]
  split
  · rw [one_mul]
    congr 1
    omega
  · have split : e % 8 = 4 + e % 4 := by omega
    rw [split, twiddle_add, ← Nat.one_mul 4, twiddle_mul, twiddle_half]

theorem rotx90_eq (fwd : Bool) (z : ℂ) :
    (ofComplex z).rotx90 fwd = ofComplex (z * twiddle fwd 8 1 ^ 2) := by
  rw [twiddle_quarter]
  cases fwd
  · ext
    · simp [Cmplx.rotx90, dirSign]
    · simp [Cmplx.rotx90, dirSign]
  · ext
    · simp [Cmplx.rotx90, dirSign]
    · simp [Cmplx.rotx90, dirSign]

theorem rotx45_eq (fwd : Bool) (z : ℂ) :
    (ofComplex z).rotx45 Trig.real fwd = ofComplex (z * twiddle fwd 8 1) := by
  rw [twiddle_eighth]
  cases fwd
  · ext
    · simp [Cmplx.rotx45, dirSign]
      ring
    · simp [Cmplx.rotx45, dirSign]
      ring
  · ext
    · simp [Cmplx.rotx45, dirSign]
      ring
    · simp [Cmplx.rotx45, dirSign]
      ring

theorem rotx135_eq (fwd : Bool) (z : ℂ) :
    (ofComplex z).rotx135 Trig.real fwd = ofComplex (z * twiddle fwd 8 1 ^ 3) := by
  rw [pow_succ, twiddle_quarter, twiddle_eighth]
  cases fwd
  · ext
    · simp [Cmplx.rotx135, dirSign]
      ring
    · simp [Cmplx.rotx135, dirSign]
      ring
  · ext
    · simp [Cmplx.rotx135, dirSign]
      ring
    · simp [Cmplx.rotx135, dirSign]
      ring

theorem radix2 (fwd : Bool) : Radix fwd 2 butterfly2 := by
  intro cc z samples
  have bin : ∀ m, dft fwd 2 z m = ∑ j ∈ Finset.range 2,
      z j * ((if 4 * (j * m) % 8 < 4 then 1 else -1) * twiddle fwd 8 1 ^ (4 * (j * m) % 4)) := by
    intro m
    refine Finset.sum_congr rfl fun j _ => ?_
    rw [← twiddle_cancel (by decide : 0 < 4), twiddle_eight]
  have cells : ∀ f : Nat → Cmplx ℝ, tabulate 2 f = [f 0, f 1] := fun _ => rfl
  simp only [butterfly2, samples 0 (by omega), samples 1 (by omega), ofComplex_add,
    ofComplex_sub, bin, cells, List.cons.injEq, and_true, ofComplex_injective.eq_iff]
  simp only [Finset.sum_range_succ, Finset.sum_range_zero, Nat.reduceMul, Nat.reduceMod,
    Nat.reduceLT, if_true, if_false]
  exact ⟨by ring, by ring⟩

theorem radix4 (fwd : Bool) : Radix fwd 4 (butterfly4 fwd) := by
  intro cc z samples
  have bin : ∀ m, dft fwd 4 z m = ∑ j ∈ Finset.range 4,
      z j * ((if 2 * (j * m) % 8 < 4 then 1 else -1) * twiddle fwd 8 1 ^ (2 * (j * m) % 4)) := by
    intro m
    refine Finset.sum_congr rfl fun j _ => ?_
    rw [← twiddle_cancel (by decide : 0 < 2), twiddle_eight]
  have cells : ∀ f : Nat → Cmplx ℝ, tabulate 4 f = [f 0, f 1, f 2, f 3] := fun _ => rfl
  simp only [butterfly4, pm, samples 0 (by omega), samples 1 (by omega), samples 2 (by omega),
    samples 3 (by omega), ofComplex_add, ofComplex_sub, rotx90_eq, bin, cells,
    List.cons.injEq, and_true, ofComplex_injective.eq_iff]
  simp only [Finset.sum_range_succ, Finset.sum_range_zero, Nat.reduceMul, Nat.reduceMod,
    Nat.reduceLT, if_true, if_false]
  exact ⟨by ring, by ring, by ring, by ring⟩

theorem radix8 (fwd : Bool) : Radix fwd 8 (butterfly8 Trig.real fwd) := by
  intro cc z samples
  have bin : ∀ m, dft fwd 8 z m = ∑ j ∈ Finset.range 8,
      z j * ((if j * m % 8 < 4 then 1 else -1) * twiddle fwd 8 1 ^ (j * m % 4)) :=
    fun m => Finset.sum_congr rfl fun j _ => by rw [twiddle_eight]
  have cells : ∀ f : Nat → Cmplx ℝ,
      tabulate 8 f = [f 0, f 1, f 2, f 3, f 4, f 5, f 6, f 7] := fun _ => rfl
  simp only [butterfly8, pm, samples 0 (by omega), samples 1 (by omega), samples 2 (by omega),
    samples 3 (by omega), samples 4 (by omega), samples 5 (by omega), samples 6 (by omega),
    samples 7 (by omega), ofComplex_add, ofComplex_sub, rotx90_eq, rotx45_eq, rotx135_eq, bin,
    cells, List.cons.injEq, and_true, ofComplex_injective.eq_iff]
  simp only [Finset.sum_range_succ, Finset.sum_range_zero, Nat.reduceMul, Nat.reduceMod,
    Nat.reduceLT, if_true, if_false]
  have half := twiddle_half fwd
  refine ⟨by ring, by ring, by ring, ?_, by ring, by ring, by ring, ?_⟩
  · linear_combination (z 7 - z 3) * twiddle fwd 8 1 * half
  · linear_combination (z 3 - z 7) * twiddle fwd 8 1 * half

/-- The two bodies of the radix of eight do the same. -/
theorem twiddled8_eq (t : Trig ℝ) (fwd : Bool) : twiddled8 t fwd = butterfly8 t fwd := rfl

theorem twiddledRadix8 (fwd : Bool) : Radix fwd 8 (twiddled8 Trig.real fwd) := by
  rw [twiddled8_eq]
  exact radix8 fwd

end DspDispatch.Pocketfft
