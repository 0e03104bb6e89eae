import DspDispatch.Kit.Convolution
import DspDispatch.Pocketfft.Cfftp
import DspDispatch.Pocketfft.Sizes

/-!
# Bluestein's algorithm (`fftblue`)

A transform of any length is a convolution of a larger, smooth length with a chirp. The
constructor computes the chirp, whose angles are kept as remainders in `coeff`, and the
transform of the padded chirp; of that it keeps one half, since the other mirrors it.
`fft` multiplies with the chirp, transforms, multiplies with both halves of the stored
transform, transforms back and multiplies with the chirp again.

`exec_eq` says that this computes the discrete Fourier transform times the factor.
-/

namespace DspDispatch.Pocketfft

open Kit

/-- `fftblue<T0>`. -/
structure Fftblue (K : Type) where
  n : Nat
  n2 : Nat
  plan : Cfftp K
  bk : List (Cmplx K)
  bkf : List (Cmplx K)

namespace Fftblue

section Model

variable {K : Type} [Field K]

/-- `coeff += 2 * m - 1; if (coeff >= 2 * n) coeff -= 2 * n;`. -/
def advance (n m coeff : Nat) : Nat :=
  let coeff := coeff + (2 * m - 1)
  if 2 * n ≤ coeff then coeff - 2 * n else coeff

/-- The body of the loop over `b_k`; the state is `bk` and `coeff`. -/
def bkStep (n : Nat) (tmp : SinCos K) (m : Nat) (s : List (Cmplx K) × Nat) :
    Option (List (Cmplx K) × Nat) := do
  let coeff := advance n m s.2
  let v ← tmp.get coeff
  let bk ← storeCell s.1 m v
  some (bk, coeff)

/-- The array `b_k`. -/
def makeBk (n : Nat) (tmp : SinCos K) : Option (List (Cmplx K)) := do
  let bk ← storeCell (List.replicate n 0) 0 ⟨1, 0⟩
  let s ← forLoop (n - 1) (fun i => bkStep n tmp (i + 1)) (bk, 0)
  some s.1

/-- `b_k`, normalised, at both ends of an array of zeros. -/
def padBk (n n2 : Nat) (bk : List (Cmplx K)) : Option (List (Cmplx K)) := do
  let xn2 : K := 1 / n2
  let b0 ← bk[0]?
  let tbkf ← storeCell (List.replicate n2 0) 0 (b0.scale xn2)
  let tbkf ← forLoop (n - 1) (fun i tbkf => do
    let m := i + 1
    let b ← bk[m]?
    let tbkf ← storeCell tbkf (n2 - m) (b.scale xn2)
    storeCell tbkf m (b.scale xn2)) tbkf
  forLoop (n2 - n + 1 - n) (fun i tbkf => storeCell tbkf (n + i) ⟨0, 0⟩) tbkf

/-- The constructor; `none` is an exception. -/
def make [DecidableEq K] (t : Trig K) (length : Nat) : Option (Fftblue K) := do
  let n2 ← goodSizeCmplx (length * 2 - 1)
  let plan ← Cfftp.make t n2
  let tmp ← SinCos.make t (2 * length)
  let bk ← makeBk length tmp
  let tbkf ← padBk length n2 bk
  let tbkf ← plan.exec t tbkf 1 true
  let bkf ← forLoop (n2 / 2 + 1) (fun i bkf => do
    let v ← tbkf[i]?
    storeCell bkf i v) (List.replicate (n2 / 2 + 1) 0)
  some ⟨length, n2, plan, bk, bkf⟩

/-- `akf[i] = akf[i].special_mul<dir>(bkf[m])`. -/
def mulCell (dir : Bool) (bkf : List (Cmplx K)) (i m : Nat) (akf : List (Cmplx K)) :
    Option (List (Cmplx K)) := do
  let v ← akf[i]?
  let b ← bkf[m]?
  storeCell akf i (Cmplx.specialMul dir v b)

/-- The multiplications of the convolution. -/
def mulBkf (dir : Bool) (n2 : Nat) (bkf akf : List (Cmplx K)) : Option (List (Cmplx K)) := do
  let akf ← mulCell dir bkf 0 0 akf
  let akf ← forLoop ((n2 + 1) / 2 - 1) (fun i akf => do
    let m := i + 1
    let akf ← mulCell dir bkf m m akf
    mulCell dir bkf (n2 - m) m akf) akf
  if n2 % 2 = 0 then mulCell dir bkf (n2 / 2) (n2 / 2) akf else some akf

/-- The signal times `b_k`, padded with zeros. -/
def padInput (fwd : Bool) (n n2 : Nat) (bk cc : List (Cmplx K)) : Option (List (Cmplx K)) := do
  let akf ← forLoop n (fun m akf => do
    let v ← cc[m]?
    let b ← bk[m]?
    storeCell akf m (Cmplx.specialMul fwd v b)) (List.replicate n2 0)
  let a0 ← akf[0]?
  let zero := a0.scale 0
  forLoop (n2 - n) (fun i akf => storeCell akf (n + i) zero) akf

/-- `fft` and `exec`: the array `c` afterwards. -/
def exec [DecidableEq K] (t : Trig K) (s : Fftblue K) (c : List (Cmplx K)) (fct : K)
    (fwd : Bool) : Option (List (Cmplx K)) := do
  -- initialize a_k and FFT it
  let akf ← padInput fwd s.n s.n2 s.bk c
  let akf ← s.plan.exec t akf 1 true
  -- do the convolution
  let akf ← mulBkf (!fwd) s.n2 s.bkf akf
  -- inverse FFT
  let akf ← s.plan.exec t akf 1 false
  -- multiply by b_k
  forLoop s.n (fun m c => do
    let v ← akf[m]?
    let b ← s.bk[m]?
    storeCell c m ((Cmplx.specialMul fwd v b).scale fct)) c

end Model

/-! ## The chirp -/

section Chirp

variable {n : Nat}

/-- `coeff` is the square of the index, modulo `2 * n`. -/
theorem advance_eq {m : Nat} (positive : 0 < n) (below : m + 1 < n) :
    advance n (m + 1) (m * m % (2 * n)) = (m + 1) * (m + 1) % (2 * n) := by
  have part := Nat.mod_lt (m * m) (by omega : 0 < 2 * n)
  have square : (m + 1) * (m + 1) = m * m + (2 * (m + 1) - 1) := by
    have expand : (m + 1) * (m + 1) = m * m + 2 * m + 1 := by ring
    omega
  rw [advance, square, ← Nat.mod_add_mod]
  generalize m * m % (2 * n) = x at part ⊢
  split
  · rw [Nat.mod_eq_sub_mod (by omega), Nat.mod_eq_of_lt (by omega)]
  · rw [Nat.mod_eq_of_lt (by omega)]

theorem makeBk_eq (positive : 0 < n) {tmp : SinCos ℝ} (table : Cfftp.Table (2 * n) tmp) :
    makeBk n tmp = some (Cfftp.samples n (chirp false n)) := by
  have one : (⟨1, 0⟩ : Cmplx ℝ) = ofComplex (chirp false n 0) := by
    rw [chirp, Nat.mul_zero, twiddle_zero]
    rfl
  have empty : Settled n (fun m => ofComplex (chirp false n m)) (fun _ => False)
      (List.replicate n 0) := settled_none List.length_replicate
  obtain ⟨bk, first, settled⟩ := empty.store positive
  obtain ⟨s, run, -, filled⟩ := forLoop_total (n - 1) (fun i => bkStep n tmp (i + 1))
    (fun m s => s.2 = m * m % (2 * n) ∧
      Settled n (fun m => ofComplex (chirp false n m)) (· ≤ m) s.1)
    (s := (bk, 0)) ⟨(Nat.zero_mod _).symm, settled.mono fun p le => .inr (Nat.le_zero.mp le)⟩
    (by
      rintro m below ⟨bk, coeff⟩ ⟨remainder, settled⟩
      dsimp only at remainder settled
      have next := advance_eq positive (by omega : m + 1 < n)
      have inside := Nat.mod_lt ((m + 1) * (m + 1)) (by omega : 0 < 2 * n)
      have entry := table _ (Nat.le_of_lt inside)
      rw [twiddle_mod (by omega)] at entry
      change _ = some (ofComplex (chirp false n (m + 1))) at entry
      obtain ⟨bk', stored, settled'⟩ := settled.store (by omega : m + 1 < n)
      refine ⟨(bk', (m + 1) * (m + 1) % (2 * n)), ?_, rfl, settled'.mono fun p le => by omega⟩
      simp only [bkStep, remainder, next, entry, stored, Option.bind_eq_bind, Option.bind_some])
  rw [← one] at first
  have all := filled.eq_tabulate fun p below => (by omega : p ≤ n - 1)
  simp only [makeBk, first, run, all, Option.bind_eq_bind, Option.bind_some]
  rfl

theorem padBk_eq (positive : 0 < n) {n2 : Nat} (room : 2 * n ≤ n2 + 1) :
    padBk n n2 (Cfftp.samples n (chirp false n)) =
      some (Cfftp.samples n2 fun m => chirpKernel true n n2 m * ((1 / n2 : ℝ) : ℂ)) := by
  have cell : ∀ m, m < n →
      (Cfftp.samples n (chirp false n))[m]? = some (ofComplex (chirp false n m)) :=
    fun m below => getElem?_tabulate below
  have low : ∀ m, m < n → chirpKernel true n n2 m = chirp false n m :=
    fun m below => if_pos below
  have fills : Fills n2 (fun m => ofComplex (chirpKernel true n n2 m * ((1 / n2 : ℝ) : ℂ)))
      (fun p => (p = 0 ∨ ∃ i, i < n - 1 ∧ (p = n2 - (i + 1) ∨ p = i + 1)) ∨
        ∃ i, i < n2 - n + 1 - n ∧ p = n + i)
      fun tbkf => ((storeCell tbkf 0 ((ofComplex (chirp false n 0)).scale (1 / n2 : ℝ))).bind
        (forLoop (n - 1) fun i tbkf => do
          let m := i + 1
          let b ← (Cfftp.samples n (chirp false n))[m]?
          let tbkf ← storeCell tbkf (n2 - m) (b.scale (1 / n2 : ℝ))
          storeCell tbkf m (b.scale (1 / n2 : ℝ)))).bind
        (forLoop (n2 - n + 1 - n) fun i tbkf => storeCell tbkf (n + i) ⟨0, 0⟩) := by
    refine Fills.bind (Fills.bind (fills_storeCell (by omega) ?_) (fills_forLoop fun i below => ?_))
      (fills_forLoop fun i below => fills_storeCell (by omega) ?_)
    · rw [ofComplex_scale, low 0 positive]
    · simp only [cell (i + 1) (by omega), Option.bind_eq_bind, Option.bind_some, ofComplex_scale]
      refine Fills.bind (fills_storeCell (by omega) ?_) (fills_storeCell (by omega) ?_)
      · rw [chirpKernel_symmetric room (by omega) (by omega), low (i + 1) (by omega)]
      · rw [low (i + 1) (by omega)]
    · rw [chirpKernel, if_neg (by omega), if_neg (by omega), zero_mul]
      rfl
  have run := fills.eq (by
    intro p below
    rcases Nat.lt_or_ge p n with left | middle
    · rcases Nat.eq_zero_or_pos p with rfl | other
      · exact .inl (.inl rfl)
      · exact .inl (.inr ⟨p - 1, by omega, .inr (by omega)⟩)
    · rcases Nat.lt_or_ge (n2 - p) n with right | between
      · exact .inl (.inr ⟨n2 - p - 1, by omega, .inl (by omega)⟩)
      · exact .inr ⟨p - n, by omega, by omega⟩) (List.replicate n2 0) List.length_replicate
  rw [Option.bind_assoc] at run
  rw [padBk, cell 0 positive]
  exact run

end Chirp

/-! ## The convolution -/

section Convolution

variable {n2 : Nat} {B : Nat → ℂ}

/-- The second factor of a multiplication, conjugated in the forward direction. -/
theorem specialMul_eq (dir : Bool) (v w : ℂ) :
    Cmplx.specialMul dir (ofComplex v) (ofComplex w) =
      ofComplex (v * if dir then (starRingEnd ℂ) w else w) := by
  cases dir with
  | false => rfl
  | true =>
    ext
    · simp [Cmplx.specialMul]
    · simp [Cmplx.specialMul]
      ring

/-- The product of two spectra, the second one conjugated in the forward direction. -/
noncomputable def multiplied (dir : Bool) (A B : Nat → ℂ) (m : Nat) : ℂ :=
  A m * if dir then (starRingEnd ℂ) (B m) else B m

theorem mulCell_eq (dir : Bool) {A : Nat → ℂ} {f : Nat → Cmplx ℝ} {i m : Nat} (inside : i < n2)
    (half : m < n2 / 2 + 1) (old : f i = ofComplex (A i)) (factor : B m = B i) :
    mulCell dir (Cfftp.samples (n2 / 2 + 1) B) i m (tabulate n2 f) =
      some (tabulate n2 (Function.update f i (ofComplex (multiplied dir A B i)))) := by
  have cell : (Cfftp.samples (n2 / 2 + 1) B)[m]? = some (ofComplex (B m)) := getElem?_tabulate half
  simp only [mulCell, getElem?_tabulate inside, cell, old, factor, specialMul_eq,
    storeCell_tabulate _ inside, Option.bind_eq_bind, Option.bind_some, multiplied]

/-- The products up to `t` from both ends. -/
noncomputable def bothEnds (A G : Nat → ℂ) (n2 t : Nat) : List (Cmplx ℝ) :=
  tabulate n2 fun p => if p ≤ t ∨ n2 - t ≤ p then ofComplex (G p) else ofComplex (A p)

theorem mulBkf_step (dir : Bool) {A : Nat → ℂ} {t : Nat} (below : 2 * (t + 1) < n2)
    (symmetric : ∀ m, 0 < m → m < n2 → B (n2 - m) = B m) :
    ((mulCell dir (Cfftp.samples (n2 / 2 + 1) B) (t + 1) (t + 1)
        (bothEnds A (multiplied dir A B) n2 t)).bind
      (mulCell dir (Cfftp.samples (n2 / 2 + 1) B) (n2 - (t + 1)) (t + 1))) =
      some (bothEnds A (multiplied dir A B) n2 (t + 1)) := by
  have mirrored := symmetric (t + 1) (by omega) (by omega)
  have apart : n2 - (t + 1) ≠ t + 1 := by omega
  rw [bothEnds, mulCell_eq dir (A := A) (by omega) (by omega) (if_neg (by omega)) rfl,
    Option.bind_some, mulCell_eq dir (A := A) (by omega) (by omega) ?_ mirrored.symm]
  · refine congrArg some (tabulate_congr fun p inside => ?_)
    by_cases back : p = n2 - (t + 1)
    · rw [back, Function.update_self, if_pos (by omega)]
    · rw [Function.update_of_ne back]
      by_cases front : p = t + 1
      · rw [front, Function.update_self, if_pos (by omega)]
      · rw [Function.update_of_ne front]
        by_cases done : p ≤ t ∨ n2 - t ≤ p
        · rw [if_pos done, if_pos (by omega)]
        · rw [if_neg done, if_neg (by omega)]
  · rw [Function.update_of_ne apart, if_neg (by omega)]

/-- The half of a symmetric spectrum that is stored is enough. -/
theorem mulBkf_eq (dir : Bool) (positive : 0 < n2) (A : Nat → ℂ)
    (symmetric : ∀ m, 0 < m → m < n2 → B (n2 - m) = B m) :
    mulBkf dir n2 (Cfftp.samples (n2 / 2 + 1) B) (Cfftp.samples n2 A) =
      some (Cfftp.samples n2 (multiplied dir A B)) := by
  have first : mulCell dir (Cfftp.samples (n2 / 2 + 1) B) 0 0 (Cfftp.samples n2 A) =
      some (bothEnds A (multiplied dir A B) n2 0) := by
    refine (mulCell_eq dir (f := fun i => ofComplex (A i)) positive (by omega) rfl rfl).trans ?_
    refine congrArg some (tabulate_congr fun p inside => ?_)
    rcases Nat.eq_zero_or_pos p with rfl | other
    · rw [Function.update_self, if_pos (by omega)]
    · rw [Function.update_of_ne other.ne', if_neg (by omega)]
  have pairs := forLoop_trace ((n2 + 1) / 2 - 1)
    (fun i akf => (mulCell dir (Cfftp.samples (n2 / 2 + 1) B) (i + 1) (i + 1) akf).bind
      (mulCell dir (Cfftp.samples (n2 / 2 + 1) B) (n2 - (i + 1)) (i + 1)))
    (bothEnds A (multiplied dir A B) n2) fun t below => mulBkf_step dir (by omega) symmetric
  rw [mulBkf, first]
  refine (congrArg (Option.bind · _) pairs).trans ?_
  rw [Option.bind_some]
  split
  · -- the cell in the middle
    rw [bothEnds, mulCell_eq dir (A := A) (by omega) (by omega) (if_neg (by omega)) rfl]
    refine congrArg some (tabulate_congr fun p inside => ?_)
    by_cases middle : p = n2 / 2
    · rw [middle, Function.update_self]
    · rw [Function.update_of_ne middle, if_pos (by omega)]
  · exact congrArg some (tabulate_congr fun p inside => if_pos (by omega))

end Convolution

/-! ## The transform -/

/-- The padded chirp, normalised. -/
noncomputable def kernel (forward : Bool) (n n2 m : Nat) : ℂ :=
  chirpKernel forward n n2 m * ((1 / n2 : ℝ) : ℂ)

/-- A constructed transform. -/
structure Sound (s : Fftblue ℝ) : Prop where
  positive : 0 < s.n
  room : 2 * s.n ≤ s.n2 + 1
  plan : s.plan.Sound
  size : s.plan.length = s.n2
  bk : s.bk = Cfftp.samples s.n (chirp false s.n)
  bkf : s.bkf = Cfftp.samples (s.n2 / 2 + 1) (dft true s.n2 (kernel true s.n s.n2))

theorem copy_eq {n half : Nat} (le : half ≤ n) (f : Nat → ℂ) :
    forLoop half (fun i bkf => do
      let v ← (Cfftp.samples n f)[i]?
      storeCell bkf i v) (List.replicate half 0) = some (Cfftp.samples half f) := by
  have fills : Fills half (fun k => ofComplex (f k)) (fun p => ∃ i, i < half ∧ p = i)
      (forLoop half fun i bkf => do
        let v ← (Cfftp.samples n f)[i]?
        storeCell bkf i v) := by
    refine fills_forLoop fun i below => ?_
    have cell : (Cfftp.samples n f)[i]? = some (ofComplex (f i)) :=
      getElem?_tabulate (below.trans_le le)
    simp only [cell, Option.bind_eq_bind, Option.bind_some]
    exact fills_storeCell below rfl
  exact fills.eq (fun p below => ⟨p, below, rfl⟩) _ List.length_replicate

theorem exists_make {n : Nat} (positive : 0 < n) (small : n * 2 - 1 ≤ (2 ^ 64 - 1) / 11 / 2) :
    ∃ s, make Trig.real n = some s ∧ s.n = n ∧ s.Sound := by
  obtain ⟨n2, found, ⟨-, wide⟩, -⟩ := goodSizeCmplx_isLeast (by omega : 0 < n * 2 - 1) small
  obtain ⟨plan, planned, rfl, sound⟩ := Cfftp.exists_make (by omega : 0 < n2)
  obtain ⟨tmp, made, size, table⟩ := SinCos.exists_make (by omega : 0 < 2 * n)
  have entries : Cfftp.Table (2 * n) tmp := fun idx inside => by
    rw [← size]
    exact table.get_eq (by omega) (by omega)
  have bk := makeBk_eq positive entries
  have padded : padBk n plan.length (Cfftp.samples n (chirp false n)) =
      some (Cfftp.samples plan.length (kernel true n plan.length)) :=
    padBk_eq positive (by omega)
  have transformed := sound.exec_one (kernel true n plan.length) true
  have half : plan.length / 2 + 1 ≤ plan.length := by omega
  refine ⟨⟨n, plan.length, plan, Cfftp.samples n (chirp false n), Cfftp.samples
    (plan.length / 2 + 1) (dft true plan.length (kernel true n plan.length))⟩, ?_, rfl,
    positive, (by omega : 2 * n ≤ plan.length + 1), sound, rfl, rfl, rfl⟩
  simp only [make, found, planned, made, bk, padded, transformed, Option.bind_eq_bind,
    Option.bind_some]
  exact (congrArg (Option.bind · _) (copy_eq half _))

theorem specialMul_chirp (fwd : Bool) (n m : Nat) (v : ℂ) :
    Cmplx.specialMul fwd (ofComplex v) (ofComplex (chirp false n m)) =
      ofComplex (v * chirp fwd n m) :=
  specialMul_twiddle fwd v (2 * n) (m * m)

theorem padInput_eq {n n2 : Nat} (fwd : Bool) (positive : 0 < n) (le : n ≤ n2) (z : Nat → ℂ) :
    padInput fwd n n2 (Cfftp.samples n (chirp false n)) (Cfftp.samples n z) =
      some (Cfftp.samples n2 (chirpInput fwd n z)) := by
  have signal : ∀ m, m < n → (Cfftp.samples n z)[m]? = some (ofComplex (z m)) :=
    fun m below => getElem?_tabulate below
  have angle : ∀ m, m < n →
      (Cfftp.samples n (chirp false n))[m]? = some (ofComplex (chirp false n m)) :=
    fun m below => getElem?_tabulate below
  have fills : Fills n2 (fun m => ofComplex (chirpInput fwd n z m))
      (fun p => ∃ m, m < n ∧ p = m) (forLoop n fun m akf => do
        let v ← (Cfftp.samples n z)[m]?
        let b ← (Cfftp.samples n (chirp false n))[m]?
        storeCell akf m (Cmplx.specialMul fwd v b)) := by
    refine fills_forLoop fun m below => ?_
    simp only [signal m below, angle m below, Option.bind_eq_bind, Option.bind_some,
      specialMul_chirp]
    exact fills_storeCell (below.trans_le le) (by rw [chirpInput, if_pos below])
  obtain ⟨akf, run, settled⟩ := fills _ _ (settled_none List.length_replicate)
  have first := settled.cell 0 (.inr ⟨0, positive, rfl⟩)
  have rest : Fills n2 (fun m => ofComplex (chirpInput fwd n z m))
      (fun p => ∃ i, i < n2 - n ∧ p = n + i)
      (forLoop (n2 - n) fun i akf =>
        storeCell akf (n + i) ((ofComplex (chirpInput fwd n z 0)).scale 0)) := by
    refine fills_forLoop fun i below => fills_storeCell (by omega) ?_
    rw [ofComplex_scale, Complex.ofReal_zero, mul_zero, chirpInput, if_neg (by omega)]
  obtain ⟨akf', run', settled'⟩ := rest _ akf settled
  have all := settled'.eq_tabulate fun p below => by
    rcases Nat.lt_or_ge p n with signal | padding
    · exact .inl (.inr ⟨p, signal, rfl⟩)
    · exact .inr ⟨p - n, by omega, by omega⟩
  rw [padInput]
  refine (congrArg (Option.bind · _) run).trans ?_
  rw [Option.bind_some, first]
  exact run'.trans (congrArg some all)

section Kernel

variable {n n2 m : Nat}

theorem kernel_symmetric (forward : Bool) (room : 2 * n ≤ n2 + 1) (positive : 0 < m)
    (below : m < n2) : kernel forward n n2 (n2 - m) = kernel forward n n2 m := by
  rw [kernel, kernel, chirpKernel_symmetric room positive below]

theorem conj_chirp (forward : Bool) (n m : Nat) :
    (starRingEnd ℂ) (chirp forward n m) = chirp (!forward) n m :=
  conj_twiddle forward (2 * n) (m * m)

theorem conj_kernel (forward : Bool) (n n2 m : Nat) :
    (starRingEnd ℂ) (kernel forward n n2 m) = kernel (!forward) n n2 m := by
  rw [kernel, kernel, map_mul, Complex.conj_ofReal, chirpKernel, chirpKernel]
  congr 1
  split
  · exact conj_chirp (!forward) n m
  · split
    · exact conj_chirp (!forward) n (n2 - m)
    · exact map_zero _

/-- The stored spectrum, conjugated for the inverse direction, is that of the kernel of the
direction. -/
theorem multiplied_kernel (fwd : Bool) (room : 2 * n ≤ n2 + 1) (A : Nat → ℂ) :
    multiplied (!fwd) A (dft true n2 (kernel true n n2)) m =
      A m * dft true n2 (kernel fwd n n2) m := by
  cases fwd with
  | true => rfl
  | false =>
    have conj : (starRingEnd ℂ) (dft true n2 (kernel true n n2) m) =
        dft false n2 (kernel false n n2) m := by
      rw [dft, dft, map_sum]
      refine Finset.sum_congr rfl fun j _ => ?_
      rw [map_mul, conj_kernel, conj_twiddle]
      rfl
    have turned : dft false n2 (kernel false n n2) m = dft true n2 (kernel false n n2) m :=
      dft_symmetric true (fun m positive below => kernel_symmetric false room positive below) m
    rw [multiplied, Bool.not_false, if_pos rfl, conj, turned]

theorem kernel_eq (forward : Bool) (a : Nat → ℂ) (k : Nat) :
    n2 * convolve n2 a (kernel forward n n2) k =
      n2 * (1 / n2 : ℝ) * convolve n2 a (chirpKernel forward n n2) k := by
  rw [mul_assoc]
  congr 1
  rw [convolve, convolve, Finset.mul_sum]
  refine Finset.sum_congr rfl fun j _ => ?_
  rw [kernel]
  ring

end Kernel

/-- A constructed transform computes the transform times the factor. -/
theorem Sound.exec_eq {s : Fftblue ℝ} (sound : s.Sound) (z : Nat → ℂ) (fct : ℝ) (fwd : Bool) :
    s.exec Trig.real (Cfftp.samples s.n z) fct fwd =
      some (Cfftp.samples s.n fun k => dft fwd s.n z k * fct) := by
  have room := sound.room
  have positive := sound.positive
  have plan := sound.plan.exec_one
  rw [sound.size] at plan
  have symmetric : ∀ m, 0 < m → m < s.n2 →
      dft true s.n2 (kernel true s.n s.n2) (s.n2 - m) = dft true s.n2 (kernel true s.n s.n2) m :=
    fun m _ below => dft_sub_of_symmetric
      (fun m positive below => kernel_symmetric true room positive below) (by omega) (by omega)
  -- the signal, transformed and multiplied with the spectrum of the kernel
  have product : mulBkf (!fwd) s.n2 s.bkf
      (Cfftp.samples s.n2 (dft true s.n2 (chirpInput fwd s.n z))) =
      some (Cfftp.samples s.n2 fun m => dft true s.n2 (chirpInput fwd s.n z) m *
        dft true s.n2 (kernel fwd s.n s.n2) m) := by
    rw [sound.bkf, mulBkf_eq (!fwd) (by omega) _ symmetric]
    exact congrArg some (tabulate_congr fun m _ =>
      congrArg ofComplex (multiplied_kernel fwd room _))
  -- and back: the convolution
  have back : ∀ k, k < s.n2 →
      dft false s.n2 (fun m => dft true s.n2 (chirpInput fwd s.n z) m *
        dft true s.n2 (kernel fwd s.n s.n2) m) k =
      convolve s.n2 (chirpInput fwd s.n z) (chirpKernel fwd s.n s.n2) k := by
    intro k below
    have unit : (s.n2 : ℂ) * ((1 / s.n2 : ℝ) : ℂ) = 1 := by
      have nonzero : (s.n2 : ℂ) ≠ 0 := Nat.cast_ne_zero.mpr (by omega)
      rw [Complex.ofReal_div, Complex.ofReal_one, Complex.ofReal_natCast,
        mul_one_div_cancel nonzero]
    have whole := dft_mul_dft true (chirpInput fwd s.n z) (kernel fwd s.n s.n2) below
    rw [kernel_eq, unit, one_mul] at whole
    exact whole
  have last : Fills s.n (fun k => ofComplex (dft fwd s.n z k * fct)) (fun p => ∃ m, m < s.n ∧ p = m)
      (forLoop s.n fun m c => do
        let v ← (Cfftp.samples s.n2 (dft false s.n2 fun m =>
          dft true s.n2 (chirpInput fwd s.n z) m * dft true s.n2 (kernel fwd s.n s.n2) m))[m]?
        let b ← s.bk[m]?
        storeCell c m ((Cmplx.specialMul fwd v b).scale fct)) := by
    refine fills_forLoop fun m below => ?_
    have cell := getElem?_tabulate (f := fun k => ofComplex (dft false s.n2 (fun m =>
      dft true s.n2 (chirpInput fwd s.n z) m * dft true s.n2 (kernel fwd s.n s.n2) m) k))
      (by omega : m < s.n2)
    have angle : s.bk[m]? = some (ofComplex (chirp false s.n m)) := by
      rw [sound.bk]
      exact getElem?_tabulate below
    rw [back m (by omega)] at cell
    simp only [Cfftp.samples, cell, angle, Option.bind_eq_bind, Option.bind_some, specialMul_chirp]
    refine fills_storeCell below ?_
    rw [ofComplex_scale, dft_chirp room z below, mul_comm (chirp fwd s.n m)]
  have run := last.eq (fun p below => ⟨p, below, rfl⟩) (Cfftp.samples s.n z) length_tabulate
  simp only [exec]
  rw [sound.bk, padInput_eq fwd positive (by omega) z]
  simp only [plan, product, Option.bind_eq_bind, Option.bind_some]
  rw [← sound.bk]
  exact run

/-- The constructor succeeds up to a length that is eleven times smaller than half the range
of a machine word, and the transform it gives computes the discrete Fourier transform of
every signal, in both directions and with every factor. -/
theorem make_transforms (n : Nat) (positive : 0 < n)
    (small : n * 2 - 1 ≤ (2 ^ 64 - 1) / 11 / 2) :
    ∃ s, make Trig.real n = some s ∧ ∀ (z : Nat → ℂ) (fct : ℝ) (fwd : Bool),
      s.exec Trig.real (Cfftp.samples n z) fct fwd =
        some (Cfftp.samples n fun k => dft fwd n z k * fct) := by
  obtain ⟨s, made, rfl, sound⟩ := exists_make positive small
  exact ⟨s, made, sound.exec_eq⟩

/-- A prime with no smooth neighbour. -/
theorem make_transforms_prime :
    ∃ s, make Trig.real 1013 = some s ∧ ∀ (z : Nat → ℂ) (fct : ℝ) (fwd : Bool),
      s.exec Trig.real (Cfftp.samples 1013 z) fct fwd =
        some (Cfftp.samples 1013 fun k => dft fwd 1013 z k * fct) :=
  make_transforms 1013 (by decide) (by decide)

end Fftblue

end DspDispatch.Pocketfft
