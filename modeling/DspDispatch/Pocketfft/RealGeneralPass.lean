import DspDispatch.Pocketfft.RealPasses
import DspDispatch.Pocketfft.RealRows

/-!
# Real passes of pocketfft for other prime factors (`radfg`, `radbg`)

The rows of a pass are those of the complex one (`passg`), but a row holds the real and the
imaginary part of a bin in two adjacent columns, and the first column of a row up to the
middle holds a real part, past the middle an imaginary one.

`radfg` multiplies with the twiddle factors first, in place, and takes sums and differences
of the pairs of rows (`foldRows_eq`); it combines the rows from `cc` to `ch` and writes them
back to `cc` in half-complex order. `radbg` reads the half-complex order (`unfoldRows_eq`),
combines the rows from `ch` to `cc`, and takes sums and differences back to `ch`, where the
twiddle factors come last.
-/

namespace DspDispatch.Pocketfft

open Kit

section Model

variable {K : Type} [Field K]

/-- Two adjacent cells. -/
def readPair (xs : List K) (p : Nat) : Option (Cmplx K) := do
  let r ← xs[p]?
  let i ← xs[p + 1]?
  some ⟨r, i⟩

def storePair (xs : List K) (p : Nat) (v : Cmplx K) : Option (List K) := do
  let xs ← storeCell xs p v.r
  storeCell xs (p + 1) v.i

variable (ido ip l1 : Nat)

/-- The loop 114: the twiddle factors, then `PM` on the rows `j` and `jc`. -/
def untwistRows (wa : List K) : List K → Option (List K) :=
  forLoop ((ip + 1) / 2 - 1) (fun j0 => forLoop l1 fun k => forLoop ((ido - 1) / 2) fun t cc => do
    let j := j0 + 1
    let jc := ip - j
    let i := 2 * t + 1
    let u ← readPair wa (2 * t + (j - 1) * (ido - 1))
    let v ← readPair wa (2 * t + (jc - 1) * (ido - 1))
    let x ← readPair cc (i + ido * (k + l1 * j))
    let y ← readPair cc (i + ido * (k + l1 * jc))
    let x12 := mulpm u.r u.i x.r x.i
    let x34 := mulpm v.r v.i y.r y.i
    let cc ← storePair cc (i + ido * (k + l1 * j)) ⟨x34.1 + x12.1, x12.2 + x34.2⟩
    storePair cc (i + ido * (k + l1 * jc)) ⟨x12.2 - x34.2, x34.1 - x12.1⟩)

/-- The loop 123: `MPINPLACE` on the first columns. -/
def foldEnds : List K → Option (List K) :=
  forLoop ((ip + 1) / 2 - 1) (fun j0 => forLoop l1 fun k cc => do
    let j := j0 + 1
    let jc := ip - j
    let a ← cc[0 + ido * (k + l1 * jc)]?
    let b ← cc[0 + ido * (k + l1 * j)]?
    let cc ← storeCell cc (0 + ido * (k + l1 * jc)) (a - b)
    storeCell cc (0 + ido * (k + l1 * j)) (a + b))

/-- The loop 101: `CH2(ik,0) = C2(ik,0)`. -/
def copyRow (idl1 : Nat) (cc ch : List K) : Option (List K) :=
  forLoop idl1 (fun ik ch => do
    let c ← cc[ik + idl1 * 0]?
    storeCell ch (ik + idl1 * 0) c) ch

/-- The loop 128: `CH2(ik,0) += C2(ik,j)`. -/
def addRow (idl1 : Nat) (cc : List K) (j : Nat) (ch : List K) : Option (List K) :=
  forLoop idl1 (fun ik ch => do
    let a ← ch[ik + idl1 * 0]?
    let c ← cc[ik + idl1 * j]?
    storeCell ch (ik + idl1 * 0) (a + c)) ch

/-- The loops 131 to 138: the rows of `ch` in half-complex order. Where the source returns
first, for `ido == 1`, the last loop has no iteration. -/
def halveRows (ch cc : List K) : Option (List K) := do
  let cc ← forLoop l1 (fun k => forLoop ido fun i cc => do
    let c ← ch[i + ido * (k + l1 * 0)]?
    storeCell cc (i + ido * (0 + ip * k)) c) cc
  let cc ← forLoop ((ip + 1) / 2 - 1) (fun j0 => forLoop l1 fun k cc => do
    let j := j0 + 1
    let jc := ip - j
    let j2 := 2 * j - 1
    let a ← ch[0 + ido * (k + l1 * j)]?
    let b ← ch[0 + ido * (k + l1 * jc)]?
    let cc ← storeCell cc (ido - 1 + ido * (j2 + ip * k)) a
    storeCell cc (0 + ido * (j2 + 1 + ip * k)) b) cc
  forLoop ((ip + 1) / 2 - 1) (fun j0 => forLoop l1 fun k => forLoop ((ido - 1) / 2) fun t cc => do
    let j := j0 + 1
    let jc := ip - j
    let j2 := 2 * j - 1
    let i := 2 * t + 1
    let ic := ido - i - 2
    let x ← readPair ch (i + ido * (k + l1 * j))
    let y ← readPair ch (i + ido * (k + l1 * jc))
    let cc ← storePair cc (i + ido * (j2 + 1 + ip * k)) ⟨x.r + y.r, x.i + y.i⟩
    storePair cc (ic + ido * (j2 + ip * k)) ⟨x.r - y.r, y.i - x.i⟩) cc

/-- `radfg`: the arrays `cc` and `ch` afterwards. -/
def radfg (cc ch wa csarr : List K) : Option (List K × List K) := do
  let cc ← untwistRows ido ip l1 wa cc
  let cc ← foldEnds ido ip l1 cc
  let ch ← forLoop ((ip + 1) / 2 - 1) (fun l =>
    combine (fun l iang => if ip ≤ iang + l then iang + l - ip else iang + l)
      (ido * l1) ip csarr cc (l + 1)) ch
  let ch ← copyRow (ido * l1) cc ch
  let ch ← forLoop ((ip + 1) / 2 - 1) (fun j => addRow (ido * l1) cc (j + 1)) ch
  let cc ← halveRows ido ip l1 ch cc
  some (cc, ch)

end Model

/-! ## Pairs of cells -/

section Pairs

variable {n p : Nat} {start final : Nat → ℝ} {cells : Nat → Prop} {xs : List ℝ}

theorem readPair_eq {z : ℂ} (real : xs[p]? = some z.re) (imag : xs[p + 1]? = some z.im) :
    readPair xs p = some (ofComplex z) := by
  rw [readPair, real, imag]
  rfl

/-- Reading two of the cells of a computation in place. -/
theorem rewrites_readPair {z : ℂ} {g : Cmplx ℝ → List ℝ → Option (List ℝ)} (inside : cells p)
    (inside' : cells (p + 1)) (real : start p = z.re) (imag : start (p + 1) = z.im)
    (rest : Rewrites n start final cells (g (ofComplex z))) :
    Rewrites n start final cells fun xs => (readPair xs p).bind fun v => g v xs := by
  intro xs size values
  obtain ⟨ys, run, result⟩ := rest xs size values
  refine ⟨ys, ?_, result⟩
  dsimp only
  rw [readPair_eq (z := z) ((values p inside).trans (congrArg some real))
    ((values (p + 1) inside').trans (congrArg some imag)), Option.bind_some, run]

theorem rewrites_storePair {v : Cmplx ℝ} (below : p + 1 < n) (real : v.r = final p)
    (imag : v.i = final (p + 1)) :
    Rewrites n start final (fun q => q = p ∨ q = p + 1) fun xs => storePair xs p v := by
  refine Rewrites.bind (rewrites_storeCell (by omega) real) (rewrites_storeCell below imag) ?_
  rintro q rfl
  exact Nat.ne_of_lt (Nat.lt_succ_self q)

theorem fills_storePair {v : Cmplx ℝ} (below : p + 1 < n) (real : v.r = final p)
    (imag : v.i = final (p + 1)) :
    Fills n final (fun q => q = p ∨ q = p + 1) fun xs => storePair xs p v :=
  (fills_storeCell (by omega) real).bind (fills_storeCell below imag)

end Pairs

/-! ## Rows -/

section Rows

variable {ido l1 ip i k j : Nat}

theorem row_of (inside : i < ido) (block : k < l1) (j : Nat) :
    (i + ido * (k + l1 * j)) / (ido * l1) = j := by
  rw [rowCell, cell_div (column_lt inside block)]

theorem column_of (inside : i < ido) (block : k < l1) (j : Nat) :
    (i + ido * (k + l1 * j)) % (ido * l1) = i + ido * k := by
  rw [rowCell, cell_mod (column_lt inside block)]

theorem rows_apart {i' k' j' : Nat} (inside : i < ido) (inside' : i' < ido) (block : k < l1)
    (block' : k' < l1) (other : j ≠ j') :
    i + ido * (k + l1 * j) ≠ i' + ido * (k' + l1 * j') := by
  intro same
  have rows := row_of inside block j
  rw [same, row_of inside' block'] at rows
  exact other rows.symm

/-- What a grid has in a cell. -/
def rowsAt {α : Type} (w : Nat) (F : Nat → Nat → α) (p : Nat) : α := F (p / w) (p % w)

theorem grid_rowsAt {α : Type} {n rows w : Nat} (F : Nat → Nat → α) (total : n = rows * w) :
    grid rows w F = tabulate n (rowsAt w F) := by
  rw [total]
  rfl

theorem rowsAt_eq {α : Type} (F : Nat → Nat → α) (inside : i < ido) (block : k < l1) (j : Nat) :
    rowsAt (ido * l1) F (i + ido * (k + l1 * j)) = F j (i + ido * k) := by
  rw [rowsAt, row_of inside block, column_of inside block]

theorem getElem?_row {α : Type} {F : Nat → Nat → α} (inside : i < ido) (block : k < l1)
    (row : j < ip) :
    (grid ip (ido * l1) F)[i + ido * (k + l1 * j)]? = some (F j (i + ido * k)) := by
  rw [rowCell, getElem?_grid row (column_lt inside block)]

theorem row_lt_total (inside : i < ido) (block : k < l1) (row : j < ip) :
    i + ido * (k + l1 * j) < ip * (ido * l1) := by
  rw [rowCell]
  exact cell_lt row (column_lt inside block)

/-- An array of blocks in rows of the pass. -/
theorem grid_rows {α : Type} (F : Nat → Nat → α) :
    grid (l1 * ip) ido F = grid ip (ido * l1) fun r ik => F (ik / ido + l1 * r) (ik % ido) := by
  refine eq_grid ?_ fun j ik row column => ?_
  · rw [length_grid]
    ring
  · rw [Nat.mul_comm ido l1] at column
    obtain ⟨k, i, block, inside, rfl⟩ := exists_cell column
    have range : k + l1 * j < l1 * ip := by
      rw [Nat.mul_comm l1 ip]
      exact cell_lt row block
    rw [← rowCell, getElem?_grid range inside, cell_mod inside, cell_div inside]

end Rows

/-! ## Forward -/

section Forward

variable {n l1 h ido : Nat} {x : Nat → ℝ} {wa csarr : List ℝ}

/-- The values of one butterfly: the bins `f` with their twiddle factors. -/
noncomputable def turnedBins (n l1 ip : Nat) (x : Nat → ℝ) (f k j : Nat) : ℂ :=
  partSpectrum n (l1 * ip) x (k + l1 * j) f * twiddle true n (j * l1 * f)

theorem partSpectrum_turned (x : Nat → ℝ) (factored : n = l1 * (2 * h + 1) * ido)
    (positive : 0 < n) (k f m : Nat) :
    partSpectrum n l1 x k (f + ido * m) =
      dft true (2 * h + 1) (turnedBins n l1 (2 * h + 1) x f k) m :=
  partSpectrum_butterfly x factored positive k f m

/-- The rows after the phase of sums and differences. -/
noncomputable def foldedRows (n l1 h : Nat) (x : Nat → ℝ) (r f k : Nat) : ℂ :=
  if r ≤ h then pairValue h (turnedBins n l1 (2 * h + 1) x f k) r
  else -Complex.I * pairValue h (turnedBins n l1 (2 * h + 1) x f k) r

/-- The row `j0 + 1` and the one across from it. -/
theorem foldedRows_low {j0 : Nat} (below : j0 < h) (f k : Nat) :
    foldedRows n l1 h x (j0 + 1) f k = turnedBins n l1 (2 * h + 1) x f k (j0 + 1) +
      turnedBins n l1 (2 * h + 1) x f k (2 * h - j0) := by
  rw [foldedRows, if_pos (by omega), pairValue_low below]

theorem foldedRows_high {j0 : Nat} (below : j0 < h) (f k : Nat) :
    foldedRows n l1 h x (2 * h - j0) f k =
      -Complex.I * (turnedBins n l1 (2 * h + 1) x f k (j0 + 1) -
        turnedBins n l1 (2 * h + 1) x f k (2 * h - j0)) := by
  rw [foldedRows, if_neg (by omega), pairValue_high below]

/-- The array before a pass, in rows of the pass. -/
noncomputable def spectraRow (n l1 ip ido : Nat) (x : Nat → ℝ) : Nat → Nat → ℝ :=
  halfCells ido fun r f k => partSpectrum n (l1 * ip) x (k + l1 * r) f

theorem spectra_rows (x : Nat → ℝ) (factored : n = l1 * (2 * h + 1) * ido) (positive : 0 < n) :
    spectra n (l1 * (2 * h + 1)) x =
      grid (2 * h + 1) (ido * l1) (spectraRow n l1 (2 * h + 1) ido x) := by
  obtain ⟨-, -, -, narrow⟩ := widths factored positive
  rw [spectra, narrow, grid_rows]
  rfl

/-- The bins without a twiddle factor are real. -/
theorem turnedBins_zero {k j : Nat} :
    turnedBins n l1 (2 * h + 1) x 0 k j =
      ((partSpectrum n (l1 * (2 * h + 1)) x (k + l1 * j) 0).re : ℂ) := by
  rw [turnedBins, Nat.mul_zero, twiddle_zero, mul_one, partSpectrum_real]

/-- The pairs `wa[idij]`, `wa[idij+1]`. -/
theorem readPair_twiddle {ip j t : Nat} (twiddles : RealTwiddles n l1 ip ido wa) (low : 0 < j)
    (row : j < ip) (below : t < (ido - 1) / 2) :
    readPair wa (2 * t + (j - 1) * (ido - 1)) =
      some (ofComplex (twiddle false n (j * l1 * (t + 1)))) := by
  obtain ⟨real, imag⟩ := twiddles (j - 1) t (by omega) below
  rw [Nat.sub_add_cancel low] at real imag
  have place : 2 * t + 1 + (j - 1) * (ido - 1) = 2 * t + (j - 1) * (ido - 1) + 1 := by omega
  rw [place] at imag
  exact readPair_eq real imag

/-- A multiplication with the conjugate. -/
theorem mulpm_twiddle (z : ℂ) (n m : Nat) :
    mulpm (ofComplex (twiddle false n m)).r (ofComplex (twiddle false n m)).i (ofComplex z).r
      (ofComplex z).i = ((z * twiddle true n m).re, (z * twiddle true n m).im) := by
  have conj := conj_twiddle false n m
  rw [Bool.not_false] at conj
  rw [← conj]
  refine Prod.ext ?_ ?_
  · simp [mulpm]
    ring
  · simp [mulpm]
    ring

/-- The cells of the pairs of rows, without the first columns. -/
theorem rewrites_untwistRows (factored : n = l1 * (2 * h + 1) * ido) (odd : ido % 2 = 1)
    (twiddles : RealTwiddles n l1 (2 * h + 1) ido wa) :
    Rewrites n
      (rowsAt (ido * l1) (spectraRow n l1 (2 * h + 1) ido x))
      (rowsAt (ido * l1) (rowCells ido h (foldedRows n l1 h x)))
      (fun p => ∃ j0, j0 < h ∧ ∃ k, k < l1 ∧ ∃ t, t < (ido - 1) / 2 ∧
        ((p = 2 * t + 1 + ido * (k + l1 * (j0 + 1)) ∨
            p = 2 * t + 1 + ido * (k + l1 * (j0 + 1)) + 1) ∨
          (p = 2 * t + 1 + ido * (k + l1 * (2 * h - j0)) ∨
            p = 2 * t + 1 + ido * (k + l1 * (2 * h - j0)) + 1)))
      (untwistRows ido (2 * h + 1) l1 wa) := by
  have half : (2 * h + 1 + 1) / 2 - 1 = h := by omega
  have total : n = (2 * h + 1) * (ido * l1) := by
    rw [factored]
    ring
  have next : ∀ t k j, 2 * t + 1 + ido * (k + l1 * j) + 1 = 2 * t + 1 + 1 + ido * (k + l1 * j) :=
    fun t k j => by omega
  rw [untwistRows, half]
  refine rewrites_forLoop (fun p => if p / (ido * l1) ≤ h then p / (ido * l1) - 1
      else 2 * h - p / (ido * l1)) ?_ fun j0 low => ?_
  · rintro j0 p low ⟨k, block, t, below, (rfl | rfl) | (rfl | rfl)⟩
    · rw [row_of (by omega) block]
      split <;> omega
    · rw [next, row_of (by omega) block]
      split <;> omega
    · rw [row_of (by omega) block]
      split <;> omega
    · rw [next, row_of (by omega) block]
      split <;> omega
  refine rewrites_forLoop (fun p => p % (ido * l1) / ido) ?_ fun k block => ?_
  · rintro k p block ⟨t, below, (rfl | rfl) | (rfl | rfl)⟩
    · rw [column_of (by omega) block, cell_div (by omega)]
    · rw [next, column_of (by omega) block, cell_div (by omega)]
    · rw [column_of (by omega) block, cell_div (by omega)]
    · rw [next, column_of (by omega) block, cell_div (by omega)]
  refine rewrites_forLoop (fun p => (p % ido - 1) / 2) ?_ fun t below => ?_
  · rintro t p below ((rfl | rfl) | (rfl | rfl))
    · rw [cell_mod (by omega)]
      omega
    · rw [next, cell_mod (by omega)]
      omega
    · rw [cell_mod (by omega)]
      omega
    · rw [next, cell_mod (by omega)]
      omega
  have flip : 2 * h + 1 - (j0 + 1) = 2 * h - j0 := by omega
  have column : 2 * t + 1 < ido := by omega
  have column' : 2 * t + 1 + 1 < ido := by omega
  simp only [flip, readPair_twiddle twiddles (Nat.succ_pos j0) (by omega) below,
    readPair_twiddle twiddles (by omega : 0 < 2 * h - j0) (by omega) below, Option.bind_eq_bind,
    Option.bind_some]
  refine rewrites_readPair (z := partSpectrum n (l1 * (2 * h + 1)) x (k + l1 * (j0 + 1)) (t + 1))
    (.inl (.inl rfl)) (.inl (.inr rfl)) ?_ ?_ ?_
  · rw [rowsAt_eq _ column block, spectraRow, halfCells_re column]
  · rw [next, rowsAt_eq _ column' block, spectraRow, halfCells_im column']
  refine rewrites_readPair (z := partSpectrum n (l1 * (2 * h + 1)) x (k + l1 * (2 * h - j0)) (t + 1))
    (.inr (.inl rfl)) (.inr (.inr rfl)) ?_ ?_ ?_
  · rw [rowsAt_eq _ column block, spectraRow, halfCells_re column]
  · rw [next, rowsAt_eq _ column' block, spectraRow, halfCells_im column']
  simp only [mulpm_twiddle]
  refine Rewrites.bind (rewrites_storePair ?_ ?_ ?_) (rewrites_storePair ?_ ?_ ?_) ?_
  · rw [next, total]
    exact row_lt_total column' block (by omega)
  · rw [rowsAt_eq _ column block, rowCells_re column, foldedRows_low low, Complex.add_re, add_comm]
    rfl
  · rw [next, rowsAt_eq _ column' block, rowCells_im column', foldedRows_low low, Complex.add_im]
    rfl
  · rw [next, total]
    exact row_lt_total column' block (by omega)
  · rw [rowsAt_eq _ column block, rowCells_re column, foldedRows_high low]
    simp [turnedBins]
  · rw [next, rowsAt_eq _ column' block, rowCells_im column', foldedRows_high low]
    simp [turnedBins]
  · rintro p (rfl | rfl) (same | same)
    · exact rows_apart column column block block (by omega) same
    · rw [next] at same
      exact rows_apart column column' block block (by omega) same
    · rw [next] at same
      exact rows_apart column' column block block (by omega) same
    · rw [next, next] at same
      exact rows_apart column' column' block block (by omega) same

/-- The first columns of the pairs of rows. -/
theorem rewrites_foldEnds (factored : n = l1 * (2 * h + 1) * ido) (inner : 0 < ido) :
    Rewrites n (rowsAt (ido * l1) (spectraRow n l1 (2 * h + 1) ido x))
      (rowsAt (ido * l1) (rowCells ido h (foldedRows n l1 h x)))
      (fun p => ∃ j0, j0 < h ∧ ∃ k, k < l1 ∧
        (p = 0 + ido * (k + l1 * (2 * h - j0)) ∨ p = 0 + ido * (k + l1 * (j0 + 1))))
      (foldEnds ido (2 * h + 1) l1) := by
  have half : (2 * h + 1 + 1) / 2 - 1 = h := by omega
  have total : n = (2 * h + 1) * (ido * l1) := by
    rw [factored]
    ring
  rw [foldEnds, half]
  refine rewrites_forLoop (fun p => if p / (ido * l1) ≤ h then p / (ido * l1) - 1
      else 2 * h - p / (ido * l1)) ?_ fun j0 low => ?_
  · rintro j0 p low ⟨k, block, rfl | rfl⟩
    · rw [row_of inner block]
      split <;> omega
    · rw [row_of inner block]
      split <;> omega
  refine rewrites_forLoop (fun p => p % (ido * l1) / ido) ?_ fun k block => ?_
  · rintro k p block (rfl | rfl)
    · rw [column_of inner block, cell_div inner]
    · rw [column_of inner block, cell_div inner]
  have flip : 2 * h + 1 - (j0 + 1) = 2 * h - j0 := by omega
  simp only [flip]
  refine Rewrites.read (.inl rfl) (Rewrites.read (.inr rfl) ?_)
  rw [rowsAt_eq _ inner block, rowsAt_eq _ inner block, spectraRow, halfCells_zero inner,
    halfCells_zero inner]
  refine Rewrites.bind (rewrites_storeCell ?_ ?_) (rewrites_storeCell ?_ ?_) ?_
  · rw [total]
    exact row_lt_total inner block (by omega)
  · rw [rowsAt_eq _ inner block, rowCells_high inner (by omega), foldedRows_high low,
      turnedBins_zero, turnedBins_zero]
    simp
  · rw [total]
    exact row_lt_total inner block (by omega)
  · rw [rowsAt_eq _ inner block, rowCells_low inner (by omega), foldedRows_low low,
      turnedBins_zero, turnedBins_zero, add_comm]
    simp
  · rintro p rfl same
    exact rows_apart inner inner block block (by omega) same

/-- Sums and differences of the pairs of rows, with the twiddle factors. -/
theorem foldRows_eq (x : Nat → ℝ) (factored : n = l1 * (2 * h + 1) * ido) (positive : 0 < n)
    (odd : ido % 2 = 1) (twiddles : RealTwiddles n l1 (2 * h + 1) ido wa) :
    (untwistRows ido (2 * h + 1) l1 wa (spectra n (l1 * (2 * h + 1)) x)).bind
        (foldEnds ido (2 * h + 1) l1) =
      some (grid (2 * h + 1) (ido * l1) (rowCells ido h (foldedRows n l1 h x))) := by
  have inner := inner_pos factored positive
  have total : n = (2 * h + 1) * (ido * l1) := by
    rw [factored]
    ring
  have both := (rewrites_untwistRows (x := x) factored odd twiddles).bind
    (rewrites_foldEnds factored inner) (by
      rintro p ⟨j0, -, k, block, t, below, inside⟩ ⟨j0', -, k', block', ends⟩
      have column : p % ido = 2 * t + 1 ∨ p % ido = 2 * t + 1 + 1 := by
        rcases inside with (rfl | rfl) | (rfl | rfl)
        · exact .inl (cell_mod (by omega))
        · exact .inr (by rw [Nat.add_right_comm, cell_mod (by omega)])
        · exact .inl (cell_mod (by omega))
        · exact .inr (by rw [Nat.add_right_comm, cell_mod (by omega)])
      have zero : p % ido = 0 := by
        rcases ends with rfl | rfl
        · exact cell_mod inner
        · exact cell_mod inner
      omega)
  rw [spectra_rows x factored positive, grid_rowsAt _ total, grid_rowsAt _ total]
  refine both.eq ?_ ?_
  · rintro p (⟨j0, low, k, block, t, below, (rfl | rfl) | (rfl | rfl)⟩ |
      ⟨j0, low, k, block, rfl | rfl⟩)
    · rw [total]
      exact row_lt_total (by omega) block (by omega)
    · rw [total, Nat.add_right_comm]
      exact row_lt_total (by omega) block (by omega)
    · rw [total]
      exact row_lt_total (by omega) block (by omega)
    · rw [total, Nat.add_right_comm]
      exact row_lt_total (by omega) block (by omega)
    · rw [total]
      exact row_lt_total inner block (by omega)
    · rw [total]
      exact row_lt_total inner block (by omega)
  · intro p below others
    rw [total] at below
    obtain ⟨j, ik, row, column, rfl⟩ := exists_cell below
    rw [Nat.mul_comm ido l1] at column
    obtain ⟨k, i, block, inside, rfl⟩ := exists_cell column
    rw [← rowCell] at others ⊢
    rcases Nat.eq_zero_or_pos j with rfl | other
    · rw [rowsAt_eq _ inside block, rowsAt_eq _ inside block,
        rowCells_half (Nat.zero_le h), spectraRow, halfCells, halfCells]
      congr 1
      funext f
      rw [foldedRows, if_pos (Nat.zero_le h), pairValue, if_pos rfl, turnedBins, Nat.zero_mul,
        Nat.zero_mul, twiddle_zero, mul_one]
    · refine absurd ?_ others
      -- the pair of rows that `j` is in
      obtain ⟨j0, low, side⟩ : ∃ j0, j0 < h ∧ (j = j0 + 1 ∨ j = 2 * h - j0) := by
        rcases Nat.lt_or_ge h j with high | low
        · exact ⟨2 * h - j, by omega, .inr (by omega)⟩
        · exact ⟨j - 1, by omega, .inl (by omega)⟩
      rcases Nat.eq_zero_or_pos i with rfl | later
      · rcases side with rfl | rfl
        · exact .inr ⟨j0, low, k, block, .inr rfl⟩
        · exact .inr ⟨j0, low, k, block, .inl rfl⟩
      · obtain ⟨t, below', rfl | rfl⟩ : ∃ t, t < (ido - 1) / 2 ∧ (i = 2 * t + 1 ∨ i = 2 * t + 1 + 1) :=
          ⟨(i - 1) / 2, by omega, by omega⟩
        · rcases side with rfl | rfl
          · exact .inl ⟨j0, low, k, block, t, below', .inl (.inl rfl)⟩
          · exact .inl ⟨j0, low, k, block, t, below', .inr (.inl rfl)⟩
        · rw [Nat.add_right_comm (2 * t + 1)]
          rcases side with rfl | rfl
          · exact .inl ⟨j0, low, k, block, t, below', .inl (.inr rfl)⟩
          · exact .inl ⟨j0, low, k, block, t, below', .inr (.inr rfl)⟩

/-! ### Combining -/

/-- The sum of the first rows; in `rowSum` of the row 0 all factors are one. -/
theorem copyRow_eq {w : Nat} (F G : Nat → Nat → ℝ) :
    copyRow w (grid (2 * h + 1) w F) (grid (2 * h + 1) w G) =
      some (grid (2 * h + 1) w (Function.update G 0 (rowSum h F 0 0))) := by
  refine forLoop_updateRow (Nat.succ_pos (2 * h)) fun ik H column _ _ => ?_
  rw [getElem?_grid (Nat.succ_pos (2 * h)) column, rowSum, Finset.sum_range_zero, add_zero]
  rfl

theorem addRow_eq {w J : Nat} (F G : Nat → Nat → ℝ) (few : J < h) :
    addRow w (grid (2 * h + 1) w F) (J + 1)
        (grid (2 * h + 1) w (Function.update G 0 (rowSum h F 0 J))) =
      some (grid (2 * h + 1) w (Function.update G 0 (rowSum h F 0 (J + 1)))) := by
  have row : addRow w (grid (2 * h + 1) w F) (J + 1)
      (grid (2 * h + 1) w (Function.update G 0 (rowSum h F 0 J))) =
      some (grid (2 * h + 1) w (Function.update (Function.update G 0 (rowSum h F 0 J)) 0
        (rowSum h F 0 (J + 1)))) := by
    refine forLoop_updateRow (Nat.succ_pos (2 * h)) fun ik H column here _ => ?_
    rw [getElem?_grid (Nat.succ_pos (2 * h)) column,
      getElem?_grid (by omega : J + 1 < 2 * h + 1) column, here, Function.update_self, rowSum_succ,
      Nat.zero_mul, twiddle_zero, Complex.one_re, mul_one]
    rfl
  rw [row, Function.update_idem]

theorem addRows_eq {w : Nat} (F G : Nat → Nat → ℝ) :
    forLoop h (fun j => addRow w (grid (2 * h + 1) w F) (j + 1))
        (grid (2 * h + 1) w (Function.update G 0 (rowSum h F 0 0))) =
      some (grid (2 * h + 1) w (Function.update G 0 (rowSum h F 0 h))) :=
  forLoop_trace h _ (fun J => grid (2 * h + 1) w (Function.update G 0 (rowSum h F 0 J)))
    fun _ few => addRow_eq F G few

/-- The rows after the phase of combining: sum and difference of two rows are two bins. -/
noncomputable def combinedParts (fwd : Bool) (h : Nat) (turn : ℂ) (values : Nat → Nat → Nat → ℂ)
    (r f k : Nat) : ℂ :=
  if r ≤ h then sumTo fwd h (values f k) r h
  else turn * diffTo fwd h (values f k) (2 * h + 1 - r) h

/-- The loops of cosines and sines combine complex rows. -/
theorem combined_eq (fwd : Bool) (values : Nat → Nat → Nat → ℂ) (unit turn : ℂ)
    {W : Nat → Nat → Nat → ℂ} (ido r ik : Nat)
    (low : ∀ j, j ≤ h → ∀ f k, W j f k = pairValue h (values f k) j)
    (high : ∀ j, h < j → j ≤ 2 * h → ∀ f k, W j f k = unit * pairValue h (values f k) j)
    (turns : ∀ m, unit * ((twiddle false (2 * h + 1) m).im : ℂ) =
      turn * (Complex.I * ((twiddle fwd (2 * h + 1) m).im : ℂ))) :
    (if r ≤ h then rowSum h (rowCells ido h W) r h ik
      else rowDiff h (rowCells ido h W) (2 * h + 1 - r) h ik) =
      rowCells ido h (combinedParts fwd h turn values) r ik := by
  rw [rowCells]
  split
  · rename_i inside
    rw [rowCells_sumTo fwd values low inside, rowCells]
    simp only [combinedParts, if_pos inside]
  · rename_i outside
    rw [rowCells_diffTo fwd values unit turn high turns (by omega : h < r), rowCells]
    simp only [combinedParts, if_neg outside]

/-- The rows of `ch` before they are written back. -/
noncomputable def forwardRows (n l1 h : Nat) (x : Nat → ℝ) : Nat → Nat → Nat → ℂ :=
  combinedParts true h 1 (turnedBins n l1 (2 * h + 1) x)

/-- The sines of the forward direction have the opposite sign, as the rows past the middle do. -/
theorem forwardRows_combined (n l1 : Nat) (x : Nat → ℝ) (ido r ik : Nat) :
    (if r ≤ h then rowSum h (rowCells ido h (foldedRows n l1 h x)) r h ik
      else rowDiff h (rowCells ido h (foldedRows n l1 h x)) (2 * h + 1 - r) h ik) =
      rowCells ido h (forwardRows n l1 h x) r ik := by
  refine combined_eq true (turnedBins n l1 (2 * h + 1) x) (-Complex.I) 1 ido r ik
    (fun j low f k => if_pos low) (fun j high _ f k => if_neg (by omega)) fun m => ?_
  have conj := conj_twiddle false (2 * h + 1) m
  rw [Bool.not_false] at conj
  rw [← conj, Complex.conj_im, Complex.ofReal_neg]
  ring

section Halve

variable {j k f : Nat}

theorem forwardRows_low (low : j ≤ h) :
    forwardRows n l1 h x j f k = sumTo true h (turnedBins n l1 (2 * h + 1) x f k) j h := by
  rw [forwardRows, combinedParts, if_pos low]

theorem forwardRows_high (positive : 0 < j) (low : j ≤ h) :
    forwardRows n l1 h x (2 * h + 1 - j) f k =
      diffTo true h (turnedBins n l1 (2 * h + 1) x f k) j h := by
  have flip : 2 * h + 1 - (2 * h + 1 - j) = j := by omega
  rw [forwardRows, combinedParts, if_neg (by omega), one_mul, flip]

/-- The two bins of a pair of rows. -/
theorem forwardRows_bins (x : Nat → ℝ) (factored : n = l1 * (2 * h + 1) * ido) (positive : 0 < n)
    (other : 0 < j) (low : j ≤ h) (k f : Nat) :
    partSpectrum n l1 x k (f + ido * j) =
        forwardRows n l1 h x j f k + forwardRows n l1 h x (2 * h + 1 - j) f k ∧
      partSpectrum n l1 x k (f + ido * (2 * h + 1 - j)) =
        forwardRows n l1 h x j f k - forwardRows n l1 h x (2 * h + 1 - j) f k := by
  obtain ⟨sum, difference⟩ := sumTo_add_diffTo true (turnedBins n l1 (2 * h + 1) x f k)
    (by omega : j ≤ 2 * h + 1)
  rw [forwardRows_low low, forwardRows_high other low, sum, difference,
    partSpectrum_turned x factored positive, partSpectrum_turned x factored positive]
  exact ⟨rfl, rfl⟩

theorem sumTo_zero (fwd : Bool) (z : Nat → ℂ) : sumTo fwd h z 0 h = dft fwd (2 * h + 1) z 0 := by
  have none : diffTo fwd h z 0 h = 0 := by
    rw [diffTo]
    simp only [Nat.zero_mul, twiddle_zero, Complex.one_im, Complex.ofReal_zero, mul_zero,
      Finset.sum_const_zero]
  rw [← (sumTo_add_diffTo fwd z (Nat.zero_le (2 * h + 1))).1, none, add_zero]

theorem im_pairValue {z : Nat → ℂ} (real : ∀ j, (z j).im = 0) (j : Nat) :
    (pairValue h z j).im = 0 := by
  rw [pairValue]
  split
  · exact real 0
  · split
    · rw [Complex.add_im, real, real, add_zero]
    · rw [Complex.sub_im, real, real, sub_zero]

/-- The sums of real values are real, the differences imaginary. -/
theorem forwardRows_ends (n l1 : Nat) (x : Nat → ℝ) (other : 0 < j) (low : j ≤ h) (k : Nat) :
    (forwardRows n l1 h x j 0 k).im = 0 ∧ (forwardRows n l1 h x (2 * h + 1 - j) 0 k).re = 0 := by
  have real : ∀ j, (turnedBins n l1 (2 * h + 1) x 0 k j).im = 0 := by
    intro j
    rw [turnedBins_zero, Complex.ofReal_im]
  have terms := im_pairValue (h := h) real
  constructor
  · rw [forwardRows_low low, sumTo]
    simp [terms]
  · rw [forwardRows_high other low, diffTo]
    simp [terms]

end Halve

/-- The first rows. -/
theorem halveRows_first (x : Nat → ℝ) (factored : n = l1 * (2 * h + 1) * ido) (positive : 0 < n)
    {i : Nat} (inside : i < ido) (k : Nat) :
    rowCells ido h (forwardRows n l1 h x) 0 (i + ido * k) =
      spectraAt n l1 x (i + ido * (0 + (2 * h + 1) * k)) := by
  rw [spectraAt_row x factored positive inside (Nat.succ_pos (2 * h)),
    rowCells_half (Nat.zero_le h), halfCells, cell_mod inside, cell_div inside, Nat.mul_zero,
    Nat.add_zero]
  congr 1
  funext f
  have bin := partSpectrum_turned x factored positive k f 0
  rw [Nat.mul_zero, Nat.add_zero] at bin
  rw [forwardRows_low (Nat.zero_le h), sumTo_zero, bin]

/-- The ends of a pair of rows. -/
theorem halveRows_ends (x : Nat → ℝ) (factored : n = l1 * (2 * h + 1) * ido) (positive : 0 < n)
    {j0 : Nat} (low : j0 < h) (k : Nat) :
    rowCells ido h (forwardRows n l1 h x) (j0 + 1) (0 + ido * k) =
        spectraAt n l1 x (ido - 1 + ido * (2 * (j0 + 1) - 1 + (2 * h + 1) * k)) ∧
      rowCells ido h (forwardRows n l1 h x) (2 * h - j0) (0 + ido * k) =
        spectraAt n l1 x (0 + ido * (2 * (j0 + 1) - 1 + 1 + (2 * h + 1) * k)) := by
  have inner := inner_pos factored positive
  have flip : 2 * h - j0 = 2 * h + 1 - (j0 + 1) := by omega
  obtain ⟨bin, -⟩ := forwardRows_bins x factored positive (Nat.succ_pos j0) low k 0
  obtain ⟨imag, real⟩ := forwardRows_ends n l1 x (Nat.succ_pos j0) low k
  rw [Nat.zero_add] at bin
  constructor
  · have left : endCell ido (2 * (j0 + 1) - 1) = ido - 1 := if_neg (by omega)
    have cell := halfCell_endCell (H := partSpectrum n l1 x k) inner (2 * (j0 + 1) - 1)
    rw [left, halfCell_re (Nat.succ_pos j0)] at cell
    rw [spectraAt_row x factored positive (by omega) (by omega), cell, rowCells_low inner low, bin,
      Complex.add_re, real, add_zero]
  · have even : 2 * (j0 + 1) - 1 + 1 = 2 * (j0 + 1) := by omega
    have left : endCell ido (2 * (j0 + 1)) = 0 := if_pos (by omega)
    have cell := halfCell_endCell (H := partSpectrum n l1 x k) inner (2 * (j0 + 1))
    rw [left, halfCell_im (Nat.succ_pos j0)] at cell
    rw [even, spectraAt_row x factored positive inner (by omega), cell,
      rowCells_high inner (by omega), bin, flip, Complex.add_im, imag, zero_add]

/-- Two adjacent columns of a pair of rows: the sum goes to the row `2 * j`, the conjugate of
the difference to the row before it. -/
theorem halveRows_rest (x : Nat → ℝ) (factored : n = l1 * (2 * h + 1) * ido) (positive : 0 < n)
    {j0 t : Nat} (low : j0 < h) (below : 2 * t + 2 < ido) (k : Nat) {A B : ℂ}
    (sum : A = forwardRows n l1 h x (j0 + 1) (t + 1) k)
    (difference : B = forwardRows n l1 h x (2 * h - j0) (t + 1) k) :
    (spectraAt n l1 x (2 * t + 1 + ido * (2 * (j0 + 1) - 1 + 1 + (2 * h + 1) * k)) = A.re + B.re ∧
        spectraAt n l1 x (2 * t + 1 + 1 + ido * (2 * (j0 + 1) - 1 + 1 + (2 * h + 1) * k)) =
          A.im + B.im) ∧
      spectraAt n l1 x (ido - (2 * t + 1) - 2 + ido * (2 * (j0 + 1) - 1 + (2 * h + 1) * k)) =
          A.re - B.re ∧
        spectraAt n l1 x (ido - (2 * t + 1) - 2 + 1 + ido * (2 * (j0 + 1) - 1 + (2 * h + 1) * k)) =
          B.im - A.im := by
  obtain ⟨-, -, wide, -⟩ := widths factored positive
  have flip : 2 * h - j0 = 2 * h + 1 - (j0 + 1) := by omega
  have even : 2 * (j0 + 1) - 1 + 1 = 2 * (j0 + 1) := by omega
  have conjugate : Conjugate (ido * (2 * h + 1)) (partSpectrum n l1 x k) := by
    have symmetric := conjugate_partSpectrum (n := n) x l1 k
    rwa [wide] at symmetric
  obtain ⟨bin, bin'⟩ := forwardRows_bins x factored positive (Nat.succ_pos j0) low k (t + 1)
  rw [← flip, ← sum, ← difference] at bin bin'
  obtain ⟨real, imag⟩ := halfCell_foldCell conjugate (Nat.succ_pos t)
    (by omega : 2 * (t + 1) < ido) (by omega : 2 * (j0 + 1) < 2 * h + 1)
  obtain ⟨real', imag'⟩ := halfCell_foldCell conjugate (Nat.succ_pos t)
    (by omega : 2 * (t + 1) < ido) (by omega : 2 * (j0 + 1) - 1 < 2 * h + 1)
  have row : 2 * (j0 + 1) / 2 = j0 + 1 := by omega
  have row' : 2 * h + 1 - (2 * (j0 + 1) - 1) / 2 - 1 = 2 * h - j0 := by omega
  have place : foldCell ido (2 * (t + 1)) (2 * (j0 + 1)) = 2 * t + 1 + 1 := if_pos (by omega)
  have place' : foldCell ido (2 * (t + 1)) (2 * (j0 + 1) - 1) = ido - (2 * t + 1) - 2 + 1 :=
    (if_neg (by omega)).trans (by omega)
  rw [place, Nat.add_sub_cancel, folded, if_pos (by omega), row, bin] at real
  rw [place, folded, if_pos (by omega), row, bin] at imag
  rw [place', Nat.add_sub_cancel, folded, if_neg (by omega), row', bin'] at real'
  rw [place', folded, if_neg (by omega), row', bin'] at imag'
  rw [even]
  refine ⟨⟨?_, ?_⟩, ?_, ?_⟩
  · rw [spectraAt_row x factored positive (by omega) (by omega), real, Complex.add_re]
  · rw [spectraAt_row x factored positive (by omega) (by omega), imag, Complex.add_im]
  · rw [spectraAt_row x factored positive (by omega) (by omega), real', Complex.conj_re,
      Complex.sub_re]
  · rw [spectraAt_row x factored positive (by omega) (by omega), imag', Complex.conj_im,
      Complex.sub_im, neg_sub]

/-- The last phase writes the spectra. -/
theorem halveRows_eq (x : Nat → ℝ) (factored : n = l1 * (2 * h + 1) * ido) (positive : 0 < n)
    (odd : ido % 2 = 1) {cc : List ℝ} (size : cc.length = n) :
    halveRows ido (2 * h + 1) l1
        (grid (2 * h + 1) (ido * l1) (rowCells ido h (forwardRows n l1 h x))) cc =
      some (spectra n l1 x) := by
  have inner := inner_pos factored positive
  have half : (2 * h + 1 + 1) / 2 - 1 = h := by omega
  have fills : Fills n (spectraAt n l1 x)
      (fun p => (∃ k, k < l1 ∧ ∃ i, i < ido ∧ p = i + ido * (0 + (2 * h + 1) * k)) ∨
        (∃ j0, j0 < h ∧ ∃ k, k < l1 ∧
          (p = ido - 1 + ido * (2 * (j0 + 1) - 1 + (2 * h + 1) * k) ∨
            p = 0 + ido * (2 * (j0 + 1) - 1 + 1 + (2 * h + 1) * k))) ∨
        ∃ j0, j0 < h ∧ ∃ k, k < l1 ∧ ∃ t, t < (ido - 1) / 2 ∧
          ((p = 2 * t + 1 + ido * (2 * (j0 + 1) - 1 + 1 + (2 * h + 1) * k) ∨
              p = 2 * t + 1 + ido * (2 * (j0 + 1) - 1 + 1 + (2 * h + 1) * k) + 1) ∨
            (p = ido - (2 * t + 1) - 2 + ido * (2 * (j0 + 1) - 1 + (2 * h + 1) * k) ∨
              p = ido - (2 * t + 1) - 2 + ido * (2 * (j0 + 1) - 1 + (2 * h + 1) * k) + 1)))
      (halveRows ido (2 * h + 1) l1
        (grid (2 * h + 1) (ido * l1) (rowCells ido h (forwardRows n l1 h x)))) := by
    refine (fills_forLoop fun k block => fills_forLoop fun i inside => ?_).bind (Fills.bind ?_ ?_)
    · simp only [getElem?_row inside block (Nat.succ_pos (2 * h)), Option.bind_eq_bind,
        Option.bind_some]
      exact fills_storeCell (row_lt factored inside (Nat.succ_pos (2 * h)) block)
        (halveRows_first x factored positive inside k)
    · rw [half]
      refine fills_forLoop fun j0 low => fills_forLoop fun k block => ?_
      have flip : 2 * h + 1 - (j0 + 1) = 2 * h - j0 := by omega
      obtain ⟨last, first⟩ := halveRows_ends x factored positive low k
      simp only [flip, getElem?_row inner block (by omega : j0 + 1 < 2 * h + 1),
        getElem?_row inner block (by omega : 2 * h - j0 < 2 * h + 1), Option.bind_eq_bind,
        Option.bind_some]
      exact (fills_storeCell (row_lt factored (by omega) (by omega) block) last).bind
        (fills_storeCell (row_lt factored inner (by omega) block) first)
    · rw [half]
      refine fills_forLoop fun j0 low => fills_forLoop fun k block => fills_forLoop fun t below => ?_
      have flip : 2 * h + 1 - (j0 + 1) = 2 * h - j0 := by omega
      have column : 2 * t + 1 < ido := by omega
      have column' : 2 * t + 1 + 1 < ido := by omega
      have pair : ∀ j, j < 2 * h + 1 → readPair
          (grid (2 * h + 1) (ido * l1) (rowCells ido h (forwardRows n l1 h x)))
          (2 * t + 1 + ido * (k + l1 * j)) = some (ofComplex (forwardRows n l1 h x j (t + 1) k)) := by
        intro j row
        refine readPair_eq ?_ ?_
        · rw [getElem?_row column block row, rowCells_re column]
        · rw [Nat.add_right_comm, getElem?_row column' block row, rowCells_im column']
      obtain ⟨⟨real, imag⟩, real', imag'⟩ :=
        halveRows_rest x factored positive low (by omega : 2 * t + 2 < ido) k rfl rfl
      simp only [flip, pair (j0 + 1) (by omega), pair (2 * h - j0) (by omega), Option.bind_eq_bind,
        Option.bind_some]
      refine (fills_storePair ?_ real.symm ?_).bind (fills_storePair ?_ real'.symm ?_)
      · rw [Nat.add_right_comm]
        exact row_lt factored column' (by omega) block
      · rw [Nat.add_right_comm]
        exact imag.symm
      · rw [Nat.add_right_comm]
        exact row_lt factored (by omega) (by omega) block
      · rw [Nat.add_right_comm]
        exact imag'.symm
  obtain ⟨-, -, wide, -⟩ := widths factored positive
  have total : l1 * (n / l1) = n := by
    rw [wide, factored]
    ring
  have spectrum : spectra n l1 x = tabulate n (spectraAt n l1 x) := by
    rw [spectra, grid, total]
    rfl
  rw [spectrum]
  refine fills.eq (fun p below => ?_) cc size
  rw [factored, Nat.mul_assoc, Nat.mul_comm (2 * h + 1) ido] at below
  obtain ⟨k, c, block, column, rfl⟩ := exists_cell below
  rw [Nat.mul_comm ido (2 * h + 1)] at column
  obtain ⟨b, a, row, small, rfl⟩ := exists_cell column
  rw [← row_place]
  rcases Nat.eq_zero_or_pos b with rfl | other
  · exact .inl ⟨k, block, a, small, rfl⟩
  -- the pair of rows of the row `b`
  obtain ⟨j0, low, rfl | rfl⟩ : ∃ j0, j0 < h ∧ (b = 2 * (j0 + 1) - 1 ∨ b = 2 * (j0 + 1) - 1 + 1) :=
    ⟨(b - 1) / 2, by omega, by omega⟩
  · rcases Nat.lt_or_ge (a + 1) ido with before | last
    · obtain ⟨t, below', rfl | rfl⟩ : ∃ t, t < (ido - 1) / 2 ∧
          (a = ido - (2 * t + 1) - 2 ∨ a = ido - (2 * t + 1) - 2 + 1) :=
        ⟨(ido - a - 2) / 2, by omega, by omega⟩
      · exact .inr (.inr ⟨j0, low, k, block, t, below', .inr (.inl rfl)⟩)
      · exact .inr (.inr ⟨j0, low, k, block, t, below', .inr (.inr (Nat.add_right_comm _ _ _))⟩)
    · obtain rfl : a = ido - 1 := by omega
      exact .inr (.inl ⟨j0, low, k, block, .inl rfl⟩)
  · rcases Nat.eq_zero_or_pos a with rfl | later
    · exact .inr (.inl ⟨j0, low, k, block, .inr rfl⟩)
    · obtain ⟨t, below', rfl | rfl⟩ : ∃ t, t < (ido - 1) / 2 ∧ (a = 2 * t + 1 ∨ a = 2 * t + 1 + 1) :=
        ⟨(a - 1) / 2, by omega, by omega⟩
      · exact .inr (.inr ⟨j0, low, k, block, t, below', .inl (.inl rfl)⟩)
      · exact .inr (.inr ⟨j0, low, k, block, t, below', .inl (.inr (Nat.add_right_comm _ _ _))⟩)

/-- The pass of a prime factor makes the spectra of one stage from those of the one before. -/
theorem radfg_eq (x : Nat → ℝ) (factored : n = l1 * (2 * h + 1) * ido) (positive : 0 < n)
    (odd : ido % 2 = 1) (wide : 2 ≤ h) (twiddles : RealTwiddles n l1 (2 * h + 1) ido wa)
    (table : AngleTable (2 * h + 1) csarr) {ch : List ℝ} (size : ch.length = n) :
    ∃ ch', radfg ido (2 * h + 1) l1 (spectra n (l1 * (2 * h + 1)) x) ch wa csarr =
        some (spectra n l1 x, ch') ∧ ch'.length = n := by
  have total : n = (2 * h + 1) * (ido * l1) := by
    rw [factored]
    ring
  have half : (2 * h + 1 + 1) / 2 - 1 = h := by omega
  obtain ⟨cc, untwisted, folded⟩ :=
    Option.bind_eq_some_iff.mp (foldRows_eq x factored positive odd twiddles)
  obtain ⟨G, rfl⟩ := exists_grid (size.trans total)
  have combined := combineAll_eq (w := ido * l1)
    (fun l iang => if 2 * h + 1 ≤ iang + l then iang + l - (2 * h + 1) else iang + l) table
    (fun l _ low => walks_reduce (by omega)) wide (rowCells ido h (foldedRows n l1 h x)) G
  have rows : grid (2 * h + 1) (ido * l1) (Function.update (fun r ik =>
        if r = 0 then G 0 ik
        else if r ≤ h then rowSum h (rowCells ido h (foldedRows n l1 h x)) r h ik
        else rowDiff h (rowCells ido h (foldedRows n l1 h x)) (2 * h + 1 - r) h ik) 0
        (rowSum h (rowCells ido h (foldedRows n l1 h x)) 0 h)) =
      grid (2 * h + 1) (ido * l1) (rowCells ido h (forwardRows n l1 h x)) := by
    refine grid_congr fun r ik _ _ => ?_
    rw [← forwardRows_combined]
    rcases Nat.eq_zero_or_pos r with rfl | other
    · rw [Function.update_self, if_pos (Nat.zero_le h)]
    · rw [Function.update_of_ne other.ne', if_neg other.ne']
  refine ⟨grid (2 * h + 1) (ido * l1) (rowCells ido h (forwardRows n l1 h x)), ?_,
    by rw [length_grid, total]⟩
  have last := halveRows_eq x factored positive odd
    (by rw [length_grid, total] : (grid (2 * h + 1) (ido * l1)
      (rowCells ido h (foldedRows n l1 h x))).length = n)
  simp only [radfg, untwisted, folded, half, combined, copyRow_eq, addRows_eq, rows, last,
    Option.bind_eq_bind, Option.bind_some]

end Forward

end DspDispatch.Pocketfft
